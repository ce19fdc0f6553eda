import Mathlib.Data.List.Dedup
import Mathlib.Data.List.Induction
import Mathlib.Order.Bounds.Defs
import ScriptHeap.Proofs.Pool

/-!
# A pool and the pointers into it

The counters, the list of free blocks, the capacity and the count in each block are changed by
different operations.  Here the pool is put beside the pointers that are alive, one entry for each
of them, and every run of allocations, clones, drops and changes is shown to keep the two in step:
what the pool says about its blocks is what the pointers say.

A pointer inside the content of a block is one of those that are alive.  When a block goes, the
pointers in its content are dropped one by one before the block is given back, so a drop with all
that follows from it is a run of drops here.

## What is here

* `Tenancy`, `Tenancy.Act`, `Tenancy.step`, `Tenancy.run` — a pool with its live pointers, and what
  can be done with them.
* `Tenancy.live` — the number of blocks some pointer points to.
* `Tenancy.Kept` — the invariant: the pool is tidy, owns what is free or in use, stays under its cap
  and counts for each pointer how often it is alive.  `Tenancy.Kept.step` is the step,
  `Tenancy.kept_run` the run.
* `Tenancy.Agrees` — what the invariant says to somebody who has the pointers, and
  `Tenancy.agrees_run`, the payoff: it holds after every run, the peak is the most blocks ever live,
  the pool grows only when it has to, and an allocation fails exactly when the cap is reached.
-/

set_option autoImplicit false
namespace ScriptHeap

namespace Pool

variable {α : Type} {p : Pool α} {x : Pointer}

/-! ## What the operations do to the counters -/

theorem fill_eq {slot : Nat} {free : List Nat} (h : p.prepared.free = slot :: free) (a : α) :
    p.fill a = (⟨slot, p.prepared.allocated⟩,
      { p.prepared with
        blocks := p.prepared.blocks.setIfInBounds slot ⟨p.prepared.allocated, 1, some a⟩
        free := free
        allocated := p.prepared.allocated + 1
        peak := max p.prepared.peak (p.prepared.allocated + 1 - p.prepared.deallocated) }) := by
  simp only [fill, h]

/-- To make ready adds free blocks, when there are none, and nothing else. -/
theorem prepared_eq (p : Pool α) : p.prepared = p ∨ p.free = [] ∧ p.prepared = p.grow p.growth := by
  unfold prepared
  split
  · rename_i hfree
    exact .inr ⟨hfree, rfl⟩
  · exact .inl rfl

theorem grow_zero (p : Pool α) : p.grow 0 = p := by
  simp [grow]

/-- One more holder, or another content, is a change of blocks and of nothing else. -/
theorem retain_eq (p : Pool α) (x : Pointer) :
    ∃ blocks, p.retain x = { p with blocks := blocks } ∧ blocks.size = p.blocks.size := by
  unfold retain
  split
  · exact ⟨_, rfl, Array.size_setIfInBounds⟩
  · exact ⟨p.blocks, rfl, rfl⟩

theorem write_eq (p : Pool α) (x : Pointer) (a : α) :
    ∃ blocks, p.write x a = { p with blocks := blocks } ∧ blocks.size = p.blocks.size := by
  unfold write
  split
  · exact ⟨_, rfl, Array.size_setIfInBounds⟩
  · exact ⟨p.blocks, rfl, rfl⟩

/-- What a pool hands out and what is free add up to what it owns. -/
def Whole (p : Pool α) : Prop :=
  p.free.length + p.allocated = p.capacity + p.deallocated

/-- A pool with a cap stays under it. -/
def Capped (p : Pool α) : Prop :=
  ∀ cap, p.limits.cap = some cap → p.capacity ≤ cap

/-- A block without a content has no holder. -/
def Idle (p : Pool α) : Prop :=
  ∀ b ∈ p.blocks, b.content = none → b.holders = 0

theorem Idle.of_setIfInBounds {q : Pool α} (h : p.Idle) {slot : Nat} {new : Block α}
    (hnew : new.content = none → new.holders = 0)
    (hq : q.blocks = p.blocks.setIfInBounds slot new) : q.Idle := by
  intro b hb
  rw [hq] at hb
  rcases Array.mem_or_eq_of_mem_setIfInBounds hb with hold | rfl
  · exact h b hold
  · exact hnew

theorem Idle.prepared (h : p.Idle) : p.prepared.Idle := by
  rcases p.prepared_eq with heq | ⟨-, heq⟩
  · rwa [heq]
  · intro b hb
    rw [heq, grow] at hb
    rcases Array.mem_append.1 hb with hold | hadded
    · exact h b hold
    · exact fun _ ↦ congrArg Block.holders (Array.mem_replicate.1 hadded).2

theorem Idle.fill (h : p.Idle) (a : α) : (p.fill a).2.Idle := by
  match hfree : p.prepared.free with
  | [] =>
    simp only [Pool.fill, hfree]
    exact h.prepared
  | slot :: free =>
    rw [fill_eq hfree]
    exact h.prepared.of_setIfInBounds (by simp) rfl

theorem Idle.retain (h : p.Idle) (x : Pointer) : (p.retain x).Idle := by
  unfold Pool.retain
  split
  · exact h.of_setIfInBounds (by simp) rfl
  · exact h

theorem Idle.release (h : p.Idle) (x : Pointer) : (p.release x).2.Idle := by
  unfold Pool.release
  split
  · split
    · exact h.of_setIfInBounds (fun _ ↦ rfl) rfl
    · exact h.of_setIfInBounds (by simp) rfl
  · exact h

theorem Idle.write (h : p.Idle) (x : Pointer) (a : α) : (p.write x a).Idle := by
  unfold Pool.write
  split
  · exact h.of_setIfInBounds (by simp) rfl
  · exact h

theorem capacity_grow (p : Pool α) (count : Nat) :
    (p.grow count).capacity = p.capacity + count := by
  simp [capacity, grow]

theorem limits_fill (h : p.isExhausted = false) (a : α) : (p.fill a).2.limits = p.limits := by
  obtain ⟨slot, free, hfree⟩ := List.exists_cons_of_ne_nil (free_prepared h)
  rw [fill_eq hfree]
  rcases p.prepared_eq with heq | ⟨-, heq⟩
  · rw [heq]
  · rw [heq]
    rfl

theorem capacity_fill (h : p.isExhausted = false) (a : α) :
    (p.fill a).2.capacity = p.prepared.capacity := by
  obtain ⟨slot, free, hfree⟩ := List.exists_cons_of_ne_nil (free_prepared h)
  rw [fill_eq hfree]
  exact Array.size_setIfInBounds

/-- The peak goes up to what is in use with the new block. -/
theorem peak_fill (h : p.isExhausted = false) (a : α) :
    (p.fill a).2.peak = max p.peak (p.fill a).2.inUse := by
  obtain ⟨slot, free, hfree⟩ := List.exists_cons_of_ne_nil (free_prepared h)
  rw [fill_eq hfree]
  rcases p.prepared_eq with heq | ⟨-, heq⟩
  · rw [heq]
    rfl
  · rw [heq]
    rfl

theorem Whole.prepared (h : p.Whole) : p.prepared.Whole := by
  rcases p.prepared_eq with heq | ⟨-, heq⟩
  · rwa [heq]
  · rw [heq, Whole, capacity_grow]
    simp only [Whole] at h
    simp only [grow, List.length_append, List.length_range']
    omega

theorem Capped.prepared (h : p.Capped) : p.prepared.Capped := by
  rcases p.prepared_eq with heq | ⟨-, heq⟩
  · rwa [heq]
  · intro cap hcap
    rw [heq] at hcap ⊢
    have hle := h cap hcap
    have hroom : p.growth ≤ cap - p.capacity := by
      rw [growth, show p.limits.cap = some cap from hcap]
      exact Nat.min_le_right _ _
    rw [capacity_grow]
    omega

end Pool

/-- A pool with the pointers into it that are alive, one entry for each. -/
structure Tenancy (α : Type) where
  pool : Pool α
  pointers : List Pool.Pointer

namespace Tenancy

variable {α : Type}

/-- What can be done with a pool and a pointer into it. -/
inductive Act (α : Type) where
  | allocate (a : α)
  | clone (x : Pool.Pointer)
  | drop (x : Pool.Pointer)
  /-- Writes to the block of a pointer that is the only one. -/
  | change (x : Pool.Pointer) (a : α)

/-- A new pool. -/
def start (limits : PoolLimits) : Tenancy α :=
  ⟨.empty limits, []⟩

/-- The pool and the pointers after an act.  Nothing is done with a pointer that is not alive. -/
def step (s : Tenancy α) : Act α → Tenancy α
  | .allocate a =>
    match s.pool.allocate? a with
    | some (x, pool) => ⟨pool, x :: s.pointers⟩
    | none => s
  | .clone x => if x ∈ s.pointers then ⟨s.pool.retain x, x :: s.pointers⟩ else s
  | .drop x => if x ∈ s.pointers then ⟨(s.pool.release x).2, s.pointers.erase x⟩ else s
  | .change x a => if x ∈ s.pointers then { s with pool := s.pool.write x a } else s

def run (s : Tenancy α) (acts : List (Act α)) : Tenancy α :=
  acts.foldl step s

/-- The blocks some pointer points to. -/
def live (s : Tenancy α) : Nat :=
  (s.pointers.map (·.slot)).dedup.length

/-- How many live pointers point to the block in a slot. -/
def shares (s : Tenancy α) (slot : Nat) : Nat :=
  s.pointers.countP (·.slot == slot)

/-- The pool keeps its books, and the count in each block is the number of its pointers. -/
structure Kept (s : Tenancy α) : Prop where
  tidy : s.pool.Tidy
  whole : s.pool.Whole
  capped : s.pool.Capped
  idle : s.pool.Idle
  holders : ∀ x, s.pool.holders? x =
    if x ∈ s.pointers then some (s.pointers.count x) else none
  peak : s.pool.inUse ≤ s.pool.peak

theorem kept_start (limits : PoolLimits) : (start limits : Tenancy α).Kept where
  tidy := Pool.tidy_empty limits
  whole := rfl
  capped _ _ := Nat.zero_le _
  idle b hb := absurd hb (Array.not_mem_empty b)
  holders x := by simp [start, Pool.holders?, Pool.find?, Pool.empty]
  peak := Nat.le_refl 0

variable {s : Tenancy α} {x y : Pool.Pointer} {a : α}

/-! ## What a pointer says about the pool -/

/-- A pointer that is alive finds a content, and its count is in the block. -/
theorem Kept.find? (h : s.Kept) (hx : x ∈ s.pointers) :
    ∃ a, s.pool.find? x = some (s.pointers.count x, a) := by
  have hcount := h.holders x
  rw [if_pos hx, Pool.holders?, Option.map_eq_some_iff] at hcount
  obtain ⟨⟨n, a⟩, hfind, rfl⟩ := hcount
  exact ⟨a, hfind⟩

theorem Kept.isSome_find? (h : s.Kept) : (s.pool.find? x).isSome ↔ x ∈ s.pointers := by
  have hcount := congrArg Option.isSome (h.holders x)
  rw [Pool.holders?, Option.isSome_map] at hcount
  rw [hcount]
  split <;> simp_all

theorem Kept.inUse_add (h : s.Kept) : s.pool.free.length + s.pool.inUse = s.pool.capacity := by
  have hwhole := h.whole
  have hbalanced := h.tidy.balanced
  rw [Pool.Whole] at hwhole
  rw [Pool.inUse]
  omega

/-- The blocks in use are those some pointer points to. -/
theorem Kept.inUse_eq_live (h : s.Kept) : s.pool.inUse = s.live := by
  have hused : s.pool.inUse = (s.pool.pointers.map (·.slot)).length := by
    have hbalanced := h.tidy.balanced
    rw [List.length_map, Pool.length_pointers, Pool.inUse]
    omega
  rw [hused, live]
  have hnodup := (List.perm_ext_iff_of_nodup s.pool.nodup_slots
    (List.nodup_dedup (s.pointers.map (·.slot)))).2
  refine (hnodup fun slot ↦ ?_).length_eq
  simp only [List.mem_dedup, List.mem_map, Pool.mem_pointers, h.isSome_find?]

/-- Two pointers to one slot come from one allocation. -/
theorem Kept.eq_of_slot (h : s.Kept) (hx : x ∈ s.pointers) (hy : y ∈ s.pointers)
    (hslot : x.slot = y.slot) : x = y := by
  obtain ⟨a, ha⟩ := h.find? hx
  obtain ⟨b, hb⟩ := h.find? hy
  have hblock := Pool.find?_eq_some_iff.1 ha
  rw [hslot, Pool.find?_eq_some_iff.1 hb] at hblock
  obtain ⟨hserial, -⟩ := Block.mk.inj (Option.some.inj hblock)
  cases x
  cases y
  simp_all

/-- The pointers to a block are the pointers equal to one of them. -/
theorem Kept.count_eq_shares (h : s.Kept) (hx : x ∈ s.pointers) :
    s.pointers.count x = s.shares x.slot := by
  rw [List.count_eq_countP]
  refine List.countP_congr fun y hy ↦ ?_
  simp only [beq_iff_eq]
  exact ⟨fun he ↦ he ▸ rfl, fun hslot ↦ h.eq_of_slot hy hx hslot⟩

/-- **The count in a block**, free or not, is the number of its live pointers. -/
theorem Kept.holders_eq_shares (h : s.Kept) {slot : Nat} {b : Block α}
    (hb : s.pool.blocks[slot]? = some b) : b.holders = s.shares slot := by
  obtain ⟨serial, holders, content⟩ := b
  cases content with
  | some a =>
    have hfind : s.pool.find? ⟨slot, serial⟩ = some (holders, a) := Pool.find?_eq_some_iff.2 hb
    have hmem : ⟨slot, serial⟩ ∈ s.pointers := h.isSome_find?.1 (by rw [hfind]; rfl)
    obtain ⟨c, hc⟩ := h.find? hmem
    rw [hfind] at hc
    cases hc
    exact h.count_eq_shares hmem
  | none =>
    refine (h.idle _ (Array.mem_of_getElem? hb) rfl).trans (Eq.symm ?_)
    refine List.countP_eq_zero.2 fun y hy hslot ↦ ?_
    obtain ⟨c, hc⟩ := h.find? hy
    rw [Pool.find?_eq_some_iff, beq_iff_eq.1 hslot, hb] at hc
    cases hc

theorem Kept.isSole_iff (h : s.Kept) (hx : x ∈ s.pointers) :
    s.pool.isSole x = true ↔ s.shares x.slot = 1 := by
  rw [← h.count_eq_shares hx, Pool.isSole, h.holders x, if_pos hx]
  simp

/-- **A pool is exhausted** when it has a cap and that many blocks are live. -/
theorem Kept.isExhausted_iff (h : s.Kept) :
    s.pool.isExhausted = true ↔ s.pool.limits.cap = some s.live := by
  have hadd := h.inUse_add
  rw [h.inUse_eq_live] at hadd
  simp only [Pool.isExhausted, Bool.and_eq_true, List.isEmpty_iff, beq_iff_eq]
  cases hcap : s.pool.limits.cap with
  | none =>
    rw [Pool.growth, hcap]
    simp only [reduceCtorEq, iff_false, not_and]
    omega
  | some cap =>
    have hle := h.capped cap hcap
    rw [Pool.growth, hcap, Option.some.injEq, ← List.length_eq_zero_iff]
    dsimp only
    omega

/-! ## One act -/

/-- A new block is one that no live pointer points to, and its pointer is the only one of its
allocation. -/
theorem Kept.fresh (h : s.Kept) (hroom : s.pool.isExhausted = false) (a : α) :
    (s.pool.fill a).1.serial = s.pool.allocated ∧
      ∀ y ∈ s.pointers, y.slot ≠ (s.pool.fill a).1.slot ∧ y.serial < s.pool.allocated := by
  obtain ⟨slot, free, hfree⟩ := List.exists_cons_of_ne_nil (Pool.free_prepared hroom)
  refine ⟨Pool.serial_fill hroom a, fun y hy ↦ ?_⟩
  obtain ⟨b, hb⟩ := h.find? hy
  refine ⟨fun hslot ↦ ?_, h.tidy.serial_lt_of_find? hb⟩
  rw [← Pool.find?_prepared] at hb
  refine h.tidy.prepared.slot_not_mem_free hb ?_
  rw [hslot, Pool.fill_eq hfree, hfree]
  exact List.mem_cons_self

theorem Kept.allocate (h : s.Kept) (hroom : s.pool.isExhausted = false) (a : α) :
    (Tenancy.mk (s.pool.fill a).2 ((s.pool.fill a).1 :: s.pointers)).Kept := by
  obtain ⟨hserial, hfresh⟩ := h.fresh hroom a
  have hnew : (s.pool.fill a).1 ∉ s.pointers := fun hmem ↦ (hfresh _ hmem).1 rfl
  obtain ⟨slot, free, hfree⟩ := List.exists_cons_of_ne_nil (Pool.free_prepared hroom)
  have hfill := Pool.fill_eq hfree a
  refine ⟨h.tidy.fill hroom a, ?_, ?_, h.idle.fill a, fun y ↦ ?_, ?_⟩
  · have hwhole := h.whole.prepared
    simp only [Pool.Whole, hfree, List.length_cons] at hwhole
    rw [Pool.Whole, Pool.capacity_fill hroom, hfill]
    dsimp only
    omega
  · intro cap hcap
    rw [Pool.capacity_fill hroom]
    rw [hfill] at hcap
    exact h.capped.prepared cap hcap
  · have hcount := h.holders y
    rw [Pool.holders?] at hcount ⊢
    rw [Pool.find?_fill h.tidy hroom]
    by_cases hy : y = (s.pool.fill a).1
    · subst hy
      simp [List.count_eq_zero_of_not_mem hnew]
    · rw [if_neg hy, hcount, List.count_cons_of_ne (Ne.symm hy)]
      simp [hy]
  · rw [hfill]
    exact Nat.le_max_right _ _

theorem Kept.clone (h : s.Kept) (hx : x ∈ s.pointers) :
    (Tenancy.mk (s.pool.retain x) (x :: s.pointers)).Kept := by
  obtain ⟨blocks, heq, hsize⟩ := s.pool.retain_eq x
  refine ⟨h.tidy.retain x, ?_, ?_, h.idle.retain x, fun y ↦ ?_, ?_⟩
  · simpa only [heq, Pool.Whole, Pool.capacity, hsize] using h.whole
  · simpa only [heq, Pool.Capped, Pool.capacity, hsize] using h.capped
  · rw [Pool.holders?, Pool.find?_retain]
    by_cases hy : y = x
    · obtain ⟨a, ha⟩ := h.find? hx
      subst hy
      simp [ha]
    · have hcount := h.holders y
      rw [Pool.holders?] at hcount
      rw [if_neg hy, hcount, List.count_cons_of_ne (Ne.symm hy)]
      simp [hy]
  · simpa only [heq, Pool.inUse] using h.peak

theorem Kept.drop (h : s.Kept) (hx : x ∈ s.pointers) :
    (Tenancy.mk (s.pool.release x).2 (s.pointers.erase x)).Kept := by
  obtain ⟨a, ha⟩ := h.find? hx
  obtain ⟨hlimits, hcapacity, hallocated, hpeak, slots, hfree, hback⟩ := s.pool.returns_release x
  have hpos : 0 < s.pointers.count x := List.count_pos_iff.2 hx
  refine ⟨h.tidy.release x, ?_, ?_, h.idle.release x, fun y ↦ ?_, ?_⟩
  · have hwhole := h.whole
    simp only [Pool.Whole] at hwhole
    simp only [Pool.Whole, hfree, hback, hallocated, hcapacity, List.length_append]
    omega
  · simpa only [Pool.Capped, hlimits, hcapacity] using h.capped
  · have hcount := h.holders y
    rw [Pool.holders?] at hcount ⊢
    by_cases hy : y = x
    · subst hy
      -- the block is given back with the last of its pointers
      rcases Nat.lt_or_ge 1 (s.pointers.count y) with hmore | hlast
      · have hleft : y ∈ s.pointers.erase y := by
          rw [← List.count_pos_iff, List.count_erase_self]
          omega
        rw [(Pool.find?_release_of_lt ha hmore).2, if_pos rfl, if_pos hleft,
          List.count_erase_self]
        rfl
      · have hgone : y ∉ s.pointers.erase y := by
          rw [← List.count_pos_iff, List.count_erase_self]
          omega
        rw [(Pool.find?_release_of_le ha hlast).2, if_pos rfl, if_neg hgone]
        rfl
    · have hother : (s.pool.release x).2.find? y = s.pool.find? y := by
        rcases Nat.lt_or_ge 1 (s.pointers.count x) with hmore | hlast
        · rw [(Pool.find?_release_of_lt ha hmore).2, if_neg hy]
        · rw [(Pool.find?_release_of_le ha hlast).2, if_neg hy]
      rw [hother, hcount, List.count_erase_of_ne hy]
      simp only [List.mem_erase_of_ne hy]
  · have hle := h.peak
    simp only [Pool.inUse, hallocated, hback, hpeak] at hle ⊢
    omega

theorem Kept.change (h : s.Kept) (hx : x ∈ s.pointers) (b : α) :
    ({ s with pool := s.pool.write x b } : Tenancy α).Kept := by
  obtain ⟨blocks, heq, hsize⟩ := s.pool.write_eq x b
  refine ⟨h.tidy.write x b, ?_, ?_, h.idle.write x b, fun y ↦ ?_, ?_⟩
  · simpa only [heq, Pool.Whole, Pool.capacity, hsize] using h.whole
  · simpa only [heq, Pool.Capped, Pool.capacity, hsize] using h.capped
  · obtain ⟨a, ha⟩ := h.find? hx
    have hcount := h.holders y
    by_cases hsole : s.pool.isSole x = true
    · obtain hone : s.pointers.count x = 1 := by
        simpa [Pool.isSole, Pool.holders?, ha] using hsole
      rw [hone] at ha
      rw [Pool.holders?] at hcount ⊢
      rw [Pool.find?_write ha]
      by_cases hy : y = x
      · subst hy
        simp [hx, hone]
      · rw [if_neg hy, hcount]
    · rw [show s.pool.write x b = s.pool by rw [Pool.write, if_neg hsole]]
      exact hcount
  · simpa only [heq, Pool.inUse] using h.peak

/-- **Every act keeps the pool in step with its pointers.** -/
theorem Kept.step (h : s.Kept) (act : Act α) : (s.step act).Kept := by
  cases act with
  | allocate a =>
    simp only [Tenancy.step, Pool.allocate?]
    cases hex : s.pool.isExhausted with
    | true => exact h
    | false => exact h.allocate hex a
  | clone x =>
    rw [Tenancy.step]
    split
    · exact h.clone ‹_›
    · exact h
  | drop x =>
    rw [Tenancy.step]
    split
    · exact h.drop ‹_›
    · exact h
  | change x a =>
    rw [Tenancy.step]
    split
    · exact h.change ‹_› a
    · exact h

/-- Only an allocation that finds a block does more than change blocks and give some back. -/
theorem pool_step (s : Tenancy α) (act : Act α) :
    (∃ a, act = .allocate a ∧ s.pool.isExhausted = false ∧ (s.step act).pool = (s.pool.fill a).2) ∨
      (s.step act).pool.limits = s.pool.limits ∧ (s.step act).pool.capacity = s.pool.capacity ∧
        (s.step act).pool.peak = s.pool.peak := by
  cases act with
  | allocate a =>
    simp only [step, Pool.allocate?]
    cases hex : s.pool.isExhausted with
    | true => exact .inr ⟨rfl, rfl, rfl⟩
    | false => exact .inl ⟨a, rfl, rfl, rfl⟩
  | clone x =>
    obtain ⟨blocks, heq, hsize⟩ := s.pool.retain_eq x
    refine .inr ?_
    rw [step]
    split <;> simp only [heq, Pool.capacity, hsize, and_self]
  | drop x =>
    have hreturns := s.pool.returns_release x
    refine .inr ?_
    rw [step]
    split
    · exact ⟨hreturns.limits, hreturns.capacity, hreturns.peak⟩
    · exact ⟨rfl, rfl, rfl⟩
  | change x a =>
    obtain ⟨blocks, heq, hsize⟩ := s.pool.write_eq x a
    refine .inr ?_
    rw [step]
    split <;> simp only [heq, Pool.capacity, hsize, and_self]

theorem limits_step (s : Tenancy α) (act : Act α) : (s.step act).pool.limits = s.pool.limits := by
  rcases s.pool_step act with ⟨a, -, hroom, hpool⟩ | ⟨hlimits, -, -⟩
  · rw [hpool, Pool.limits_fill hroom]
  · exact hlimits

/-- **The pool grows** for an allocation that finds no block free, and then by a chunk or by the
room left under the cap. -/
theorem capacity_step (s : Tenancy α) (act : Act α) :
    (s.step act).pool.capacity = s.pool.capacity ∨
      (∃ a, act = .allocate a) ∧ s.pool.free = [] ∧
        (s.step act).pool.capacity = s.pool.capacity + s.pool.growth := by
  rcases s.pool_step act with ⟨a, hact, hroom, hpool⟩ | ⟨-, hcapacity, -⟩
  · rcases s.pool.prepared_eq with hready | ⟨hnone, hgrown⟩
    · exact .inl (by rw [hpool, Pool.capacity_fill hroom, hready])
    · exact .inr ⟨⟨a, hact⟩, hnone,
        by rw [hpool, Pool.capacity_fill hroom, hgrown, Pool.capacity_grow]⟩
  · exact .inl hcapacity

theorem Kept.peak_step (h : s.Kept) (act : Act α) :
    (s.step act).pool.peak = max s.pool.peak (s.step act).live := by
  have hnext := h.step act
  have hle := hnext.peak
  rw [← hnext.inUse_eq_live]
  rcases s.pool_step act with ⟨a, -, hroom, hpool⟩ | ⟨-, -, hpeak⟩
  · rw [hpool, Pool.peak_fill hroom]
  · omega

/-! ## All runs -/

theorem run_append (s : Tenancy α) (acts acts' : List (Act α)) :
    s.run (acts ++ acts') = (s.run acts).run acts' :=
  List.foldl_append

theorem Kept.run (h : s.Kept) (acts : List (Act α)) : (s.run acts).Kept := by
  induction acts generalizing s with
  | nil => exact h
  | cons act acts ih => exact ih (h.step act)

theorem kept_run (limits : PoolLimits) (acts : List (Act α)) : ((start limits).run acts).Kept :=
  (kept_start limits).run acts

theorem limits_run (limits : PoolLimits) (acts : List (Act α)) :
    ((start limits).run acts).pool.limits = limits := by
  induction acts using List.reverseRecOn with
  | nil => rfl
  | append_singleton acts act ih =>
    rw [run_append]
    exact (limits_step _ act).trans ih

/-- **The peak is the most blocks ever live.** -/
theorem peak_run (limits : PoolLimits) (acts : List (Act α)) :
    IsGreatest {n | ∃ before, before <+: acts ∧ n = ((start limits : Tenancy α).run before).live}
      ((start limits).run acts).pool.peak := by
  induction acts using List.reverseRecOn with
  | nil =>
    refine ⟨⟨[], List.prefix_rfl, rfl⟩, fun n ⟨before, hbefore, hn⟩ ↦ ?_⟩
    obtain rfl := List.prefix_nil.1 hbefore
    exact Nat.le_of_eq hn
  | append_singleton acts act ih =>
    have hpeak : ((start limits).run (acts ++ [act])).pool.peak =
        max ((start limits).run acts).pool.peak ((start limits).run (acts ++ [act])).live := by
      rw [run_append]
      exact (kept_run limits acts).peak_step act
    obtain ⟨⟨before, hbefore, hreached⟩, hbound⟩ := ih
    rw [hpeak]
    refine ⟨?_, fun n ⟨before', hbefore', hn⟩ ↦ ?_⟩
    · rcases Nat.le_total ((start limits).run (acts ++ [act])).live
        ((start limits).run acts).pool.peak with hle | hle
      · rw [Nat.max_eq_left hle]
        exact ⟨before, hbefore.trans (List.prefix_append _ _), hreached⟩
      · rw [Nat.max_eq_right hle]
        exact ⟨acts ++ [act], List.prefix_rfl, rfl⟩
    · rcases List.prefix_concat_iff.1 hbefore' with rfl | hshorter
      · exact Nat.le_trans (Nat.le_of_eq hn) (Nat.le_max_right _ _)
      · exact Nat.le_trans (hbound ⟨before', hshorter, hn⟩) (Nat.le_max_left _ _)

/-- What a pool and the pointers into it say of each other at any moment. -/
structure Agrees (s : Tenancy α) : Prop where
  /-- The counters differ by the number of live blocks. -/
  counters : s.pool.deallocated + s.live = s.pool.allocated
  /-- A block is free or live. -/
  owned : s.pool.free.length + s.live = s.pool.capacity
  capped : ∀ cap, s.pool.limits.cap = some cap → s.pool.capacity ≤ cap
  /-- Pointers of different allocations do not share a block. -/
  apart : ∀ x ∈ s.pointers, ∀ y ∈ s.pointers, x.serial ≠ y.serial → x.slot ≠ y.slot
  /-- What an allocation gives is a block of its own, under a serial number of its own. -/
  fresh : ∀ a x pool, s.pool.allocate? a = some (x, pool) → x.serial = s.pool.allocated ∧
    ∀ y ∈ s.pointers, y.slot ≠ x.slot ∧ y.serial < x.serial
  /-- The count in a block is the number of its live pointers. -/
  counts : ∀ slot b, s.pool.blocks[slot]? = some b → b.holders = s.shares slot
  /-- A live pointer finds the content of its block. -/
  found : ∀ x ∈ s.pointers, ∃ a, s.pool.find? x = some (s.shares x.slot, a)
  /-- Only a pointer that is the only one to its block may change the content. -/
  sole : ∀ x ∈ s.pointers, (s.pool.isSole x = true ↔ s.shares x.slot = 1)
  /-- An allocation fails when there is a cap and that many blocks are live. -/
  exhausted : ∀ a, s.pool.allocate? a = none ↔ s.pool.limits.cap = some s.live
  /-- An attempt that fails leaves the whole pool as it was. -/
  failed : ∀ a, s.pool.allocate? a = none → (s.pool.fill a).2 = s.pool
  /-- After a block has been given back there is one to allocate. -/
  again : ∀ x ∈ s.pointers, s.shares x.slot = 1 → ∀ a,
    ((s.step (.drop x)).pool.allocate? a).isSome

theorem allocate?_eq_none_iff : s.pool.allocate? a = none ↔ s.pool.isExhausted = true := by
  simp [Pool.allocate?]

/-- After the only pointer to a block has been dropped the block is free. -/
theorem Kept.allocate?_drop (h : s.Kept) (hx : x ∈ s.pointers) (hsole : s.shares x.slot = 1)
    (a : α) : ((s.step (.drop x)).pool.allocate? a).isSome := by
  obtain ⟨b, hb⟩ := h.find? hx
  rw [h.count_eq_shares hx, hsole] at hb
  have hfree : (s.step (.drop x)).pool.free = x.slot :: s.pool.free := by
    rw [Tenancy.step, if_pos hx, Pool.release, hb]
    rfl
  rw [Pool.allocate?, Pool.isExhausted, hfree]
  rfl

theorem Kept.agrees (h : s.Kept) : s.Agrees where
  counters := by
    have hbalanced := h.tidy.balanced
    rw [← h.inUse_eq_live, Pool.inUse]
    omega
  owned := by
    rw [← h.inUse_eq_live]
    exact h.inUse_add
  capped := h.capped
  apart x hx y hy hserial hslot := hserial (congrArg _ (h.eq_of_slot hx hy hslot))
  fresh a x pool hsome := by
    rw [Pool.allocate?] at hsome
    cases hex : s.pool.isExhausted with
    | true => simp [hex] at hsome
    | false =>
      obtain ⟨hserial, hfresh⟩ := h.fresh hex a
      rw [hex] at hsome
      obtain rfl : (s.pool.fill a).1 = x := congrArg Prod.fst (Option.some.inj hsome)
      exact ⟨hserial, fun y hy ↦ ⟨(hfresh y hy).1, hserial ▸ (hfresh y hy).2⟩⟩
  counts _ _ hb := h.holders_eq_shares hb
  found x hx := h.count_eq_shares hx ▸ h.find? hx
  sole x hx := h.isSole_iff hx
  exhausted _ := allocate?_eq_none_iff.trans h.isExhausted_iff
  failed a hnone := by
    have hex := allocate?_eq_none_iff.1 hnone
    simp only [Pool.isExhausted, Bool.and_eq_true, List.isEmpty_iff, beq_iff_eq] at hex
    have hprepared : s.pool.prepared = s.pool := by
      rw [Pool.prepared, hex.1]
      dsimp only
      rw [hex.2, Pool.grow_zero]
    simp only [Pool.fill, hprepared, hex.1]
  again _ hx hsole a := h.allocate?_drop hx hsole a

/-- **A pool agrees with the pointers into it after every run.**  The peak is the most blocks live
at any moment of the run, and what is done next makes the pool larger only if it is an allocation
that finds no block free: then by a chunk, which is at least one block, or by the room left under
the cap. -/
theorem agrees_run (limits : PoolLimits) (acts : List (Act α)) :
    ((start limits).run acts).Agrees ∧
      ((start limits).run acts).pool.limits = limits ∧
      IsGreatest {n | ∃ before, before <+: acts ∧ n = ((start limits : Tenancy α).run before).live}
        ((start limits).run acts).pool.peak ∧
      ∀ act, (((start limits).run acts).step act).pool.capacity =
          ((start limits).run acts).pool.capacity ∨
        (∃ a, act = .allocate a) ∧ ((start limits).run acts).pool.free = [] ∧
          (((start limits).run acts).step act).pool.capacity =
            ((start limits).run acts).pool.capacity +
              match limits.cap with
              | some cap => min (max 1 limits.chunk) (cap - ((start limits).run acts).pool.capacity)
              | none => max 1 limits.chunk := by
  refine ⟨(kept_run limits acts).agrees, limits_run limits acts, peak_run limits acts, fun act ↦ ?_⟩
  have hlimits := limits_run limits acts
  have hcapacity := ((start limits).run acts).capacity_step act
  rw [Pool.growth, hlimits] at hcapacity
  exact hcapacity

/-- A cap of six is no multiple of a chunk of four, and the seventh allocation fails. -/
example : ((start ⟨4, some 6⟩).run (List.replicate 7 (.allocate 0))).pool.stats =
    ⟨6, 0, 6, 6, 6⟩ := by
  decide

end Tenancy
end ScriptHeap
