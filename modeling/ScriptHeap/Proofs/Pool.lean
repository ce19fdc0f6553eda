import ScriptHeap.Pool

/-!
# Pools that keep their books

In a pool that is *tidy* a free slot stands on the list once and has no content, the serial numbers
of the blocks in use have all been handed out, and the counters differ by the number of blocks in
use.  Every operation keeps a pool tidy, and each changes what one pointer sees and nothing else.

## What is here

* `Pool.used` — the number of blocks with a content.
* `Pool.Tidy` — the invariant, kept by `fill`, `retain`, `release` and `write`.
* `Pool.Returns` — blocks given back and nothing else.
* `Pool.pointers`, `Pool.Tidy.inUse_le_one` — the blocks in use, one by one.
* `Pool.find?_fill`, `Pool.find?_retain`, `Pool.find?_release`, `Pool.find?_write` — what pointers
  see afterwards.
-/

set_option autoImplicit false
namespace ScriptHeap.Pool

variable {α : Type}

/-- How many blocks have a content. -/
def used (p : Pool α) : Nat :=
  p.blocks.countP (·.content.isSome)

/-- The books of a pool are in order. -/
structure Tidy (p : Pool α) : Prop where
  nodup_free : p.free.Nodup
  content_free : ∀ s ∈ p.free, ∃ b, p.blocks[s]? = some b ∧ b.content = none
  serial_lt : ∀ (s : Nat) (b : Block α), p.blocks[s]? = some b → b.content.isSome →
    b.serial < p.allocated
  balanced : p.allocated = p.deallocated + p.used

theorem tidy_empty (limits : PoolLimits) : (empty limits : Pool α).Tidy where
  nodup_free := List.nodup_nil
  content_free _ h := absurd h List.not_mem_nil
  serial_lt _ _ h := by simp [empty] at h
  balanced := rfl

/-- Another block in a slot changes the number of contents by what was there and what is there. -/
theorem countP_setIfInBounds {blocks : Array (Block α)} {slot : Nat} {old : Block α}
    (h : blocks[slot]? = some old) (new : Block α) :
    (blocks.setIfInBounds slot new).countP (·.content.isSome) + old.content.toList.length =
      blocks.countP (·.content.isSome) + new.content.toList.length := by
  obtain ⟨hlt, hold⟩ := Array.getElem?_eq_some_iff.1 h
  have hpos : old.content.isSome → 0 < blocks.countP (·.content.isSome) := fun hc ↦
    Array.countP_pos_iff.2 ⟨old, Array.mem_of_getElem? h, hc⟩
  have hset := Array.countP_set (p := fun b : Block α ↦ b.content.isSome) (a := new) hlt
  rw [Array.setIfInBounds_def, dif_pos hlt, hset, hold]
  cases hc : old.content with
  | none => cases new.content <;> simp
  | some a =>
    have := hpos (by rw [hc]; rfl)
    cases new.content <;> simp <;> omega

variable {p : Pool α} {x y : Pointer} {n : Nat} {a : α}

theorem find?_eq_some_iff : p.find? x = some (n, a) ↔
    p.blocks[x.slot]? = some ⟨x.serial, n, some a⟩ := by
  unfold find?
  split
  · rename_i serial holders b h
    rw [h]
    split
    · rename_i hs
      simp [hs]
    · rename_i hs
      simp [hs]
  · rename_i h
    constructor
    · exact fun hn ↦ nomatch hn
    · exact fun hn ↦ absurd hn (h _ _ _)

/-- A pointer to a slot that shows another pointer's content sees nothing. -/
theorem find?_eq_none_of_slot {b : Block α} (h : p.blocks[x.slot]? = some b)
    (hs : b.serial ≠ x.serial ∨ b.content = none) : p.find? x = none := by
  cases hf : p.find? x with
  | none => rfl
  | some na =>
    rw [find?_eq_some_iff.1 hf] at h
    cases h
    rcases hs with hs | hs
    · exact absurd rfl hs
    · cases hs

/-- Pools agree on a pointer when they agree on its slot. -/
theorem find?_congr {q : Pool α} (h : q.blocks[x.slot]? = p.blocks[x.slot]?) :
    q.find? x = p.find? x := by
  rw [find?, find?, h]

/-- Another content in the slot of a pointer changes what that pointer sees, and no other. -/
theorem find?_setIfInBounds {q : Pool α} {m : Nat} {c : Option α} (hx : p.find? x = some (n, a))
    (hq : q.blocks = p.blocks.setIfInBounds x.slot ⟨x.serial, m, c⟩) :
    q.find? y = if y = x then c.map (m, ·) else p.find? y := by
  have hslot := find?_eq_some_iff.1 hx
  have hlt : x.slot < p.blocks.size := (Array.getElem?_eq_some_iff.1 hslot).1
  have hset : q.blocks[x.slot]? = some ⟨x.serial, m, c⟩ := by
    rw [hq, Array.getElem?_setIfInBounds_self_of_lt hlt]
  split
  · rename_i hyx
    subst hyx
    cases c with
    | none => exact find?_eq_none_of_slot hset (.inr rfl)
    | some c => exact find?_eq_some_iff.2 hset
  · rename_i hyx
    by_cases hs : x.slot = y.slot
    · have hserial : x.serial ≠ y.serial := fun he ↦
        hyx (by cases x; cases y; simp_all)
      rw [hs] at hset hslot
      rw [find?_eq_none_of_slot hset (.inl hserial), find?_eq_none_of_slot hslot (.inl hserial)]
    · exact find?_congr (by rw [hq, Array.getElem?_setIfInBounds_ne hs])

theorem Tidy.serial_lt_of_find? (h : p.Tidy) (hx : p.find? x = some (n, a)) :
    x.serial < p.allocated :=
  h.serial_lt _ _ (find?_eq_some_iff.1 hx) rfl

/-- A slot in use is not on the list of free ones. -/
theorem Tidy.slot_not_mem_free (h : p.Tidy) (hx : p.find? x = some (n, a)) : x.slot ∉ p.free := by
  intro hmem
  obtain ⟨b, hb, hc⟩ := h.content_free _ hmem
  rw [find?_eq_some_iff.1 hx] at hb
  cases hb
  cases hc

/-! ## One more holder -/

theorem find?_retain (p : Pool α) (x y : Pointer) :
    (p.retain x).find? y =
      if y = x then (p.find? x).map fun na ↦ (na.1 + 1, na.2) else p.find? y := by
  cases hx : p.find? x with
  | none =>
    have hp : p.retain x = p := by rw [retain, hx]
    rw [hp]
    split
    · rename_i hyx
      rw [hyx, hx]
      rfl
    · rfl
  | some na =>
    refine find?_setIfInBounds (m := na.1 + 1) (c := some na.2) hx ?_
    rw [retain, hx]

@[simp] theorem allocated_retain (p : Pool α) (x : Pointer) :
    (p.retain x).allocated = p.allocated := by
  unfold retain
  split <;> rfl

/-- The slot of a pointer changed to another content of the same allocation. -/
theorem Tidy.of_setIfInBounds {q : Pool α} {m : Nat} {c : α} (h : p.Tidy)
    (hx : p.find? x = some (n, a))
    (hq : q = { p with blocks := p.blocks.setIfInBounds x.slot ⟨x.serial, m, some c⟩ }) :
    q.Tidy := by
  subst hq
  refine ⟨h.nodup_free, fun s hs ↦ ?_, fun s b hb hc ↦ ?_, ?_⟩
  · have hne : x.slot ≠ s := fun he ↦ h.slot_not_mem_free hx (he ▸ hs)
    obtain ⟨b, hb, hc⟩ := h.content_free s hs
    exact ⟨b, by rw [Array.getElem?_setIfInBounds_ne hne, hb], hc⟩
  · by_cases hs : x.slot = s
    · subst hs
      have hlt : x.slot < p.blocks.size :=
        (Array.getElem?_eq_some_iff.1 (find?_eq_some_iff.1 hx)).1
      rw [Array.getElem?_setIfInBounds_self_of_lt hlt] at hb
      cases hb
      exact h.serial_lt_of_find? hx
    · rw [Array.getElem?_setIfInBounds_ne hs] at hb
      exact h.serial_lt s b hb hc
  · have hcount := countP_setIfInBounds (find?_eq_some_iff.1 hx) ⟨x.serial, m, some c⟩
    exact h.balanced.trans (congrArg _ (Nat.add_right_cancel hcount).symm)

theorem Tidy.retain (h : p.Tidy) (x : Pointer) : (p.retain x).Tidy := by
  cases hx : p.find? x with
  | none => rwa [Pool.retain, hx]
  | some na => exact h.of_setIfInBounds hx (by rw [Pool.retain, hx])

/-! ## One holder less -/

theorem release_of_none (h : p.find? x = none) : p.release x = (none, p) := by
  rw [release, h]

/-- With the last holder the content comes out. -/
theorem find?_release_of_le (hx : p.find? x = some (n, a)) (hn : n ≤ 1) :
    (p.release x).1 = some a ∧
      (p.release x).2.find? y = if y = x then none else p.find? y := by
  refine ⟨?_, ?_⟩
  · rw [release, hx]
    exact congrArg Prod.fst (if_pos hn)
  · refine find?_setIfInBounds (c := none) (m := 0) hx ?_
    rw [release, hx]
    simp only [if_pos hn]

theorem find?_release_of_lt (hx : p.find? x = some (n, a)) (hn : 1 < n) :
    (p.release x).1 = none ∧
      (p.release x).2.find? y = if y = x then some (n - 1, a) else p.find? y := by
  refine ⟨?_, ?_⟩
  · rw [release, hx]
    exact congrArg Prod.fst (if_neg (Nat.not_le.2 hn))
  · refine find?_setIfInBounds (c := some a) (m := n - 1) hx ?_
    rw [release, hx]
    simp only [if_neg (Nat.not_le.2 hn)]

@[simp] theorem allocated_release (p : Pool α) (x : Pointer) :
    (p.release x).2.allocated = p.allocated := by
  unfold release
  split
  · split <;> rfl
  · rfl

theorem Tidy.release (h : p.Tidy) (x : Pointer) : (p.release x).2.Tidy := by
  cases hx : p.find? x with
  | none => rwa [release_of_none hx]
  | some na =>
    obtain ⟨n, a⟩ := na
    rw [Pool.release, hx]
    dsimp only
    split
    · have hlt : x.slot < p.blocks.size :=
        (Array.getElem?_eq_some_iff.1 (find?_eq_some_iff.1 hx)).1
      refine ⟨List.nodup_cons.2 ⟨h.slot_not_mem_free hx, h.nodup_free⟩, fun s hs ↦ ?_,
        fun s b hb hc ↦ ?_, ?_⟩
      · by_cases he : x.slot = s
        · subst he
          exact ⟨_, Array.getElem?_setIfInBounds_self_of_lt hlt, rfl⟩
        · obtain ⟨b, hb, hc⟩ := h.content_free s ((List.mem_cons.1 hs).resolve_left (Ne.symm he))
          exact ⟨b, by rw [Array.getElem?_setIfInBounds_ne he, hb], hc⟩
      · by_cases he : x.slot = s
        · subst he
          rw [Array.getElem?_setIfInBounds_self_of_lt hlt] at hb
          cases hb
          cases hc
        · rw [Array.getElem?_setIfInBounds_ne he] at hb
          exact h.serial_lt s b hb hc
      · have hcount := countP_setIfInBounds (find?_eq_some_iff.1 hx) ⟨x.serial, 0, none⟩
        have hbalanced := h.balanced
        simp only [used, Option.toList_some, Option.toList_none, List.length_cons,
          List.length_nil] at hcount hbalanced ⊢
        omega
    · exact h.of_setIfInBounds hx rfl

/-! ## Another content -/

/-- To write what is there changes nothing. -/
theorem write_self (hx : p.find? x = some (n, a)) : p.write x a = p := by
  rw [write]
  split
  · rename_i hsole
    rw [isSole, holders?, hx] at hsole
    obtain rfl : n = 1 := by simpa using hsole
    have hslot := find?_eq_some_iff.1 hx
    obtain ⟨hlt, hget⟩ := Array.getElem?_eq_some_iff.1 hslot
    have hsame : p.blocks.setIfInBounds x.slot ⟨x.serial, 1, some a⟩ = p.blocks := by
      rw [← hget, Array.setIfInBounds_def, dif_pos hlt, Array.set_getElem_self]
    rw [hsame]
  · rfl

theorem find?_write (hx : p.find? x = some (1, a)) (b : α) :
    (p.write x b).find? y = if y = x then some (1, b) else p.find? y := by
  have hsole : p.isSole x = true := by simp [isSole, holders?, hx]
  refine find?_setIfInBounds (c := some b) (m := 1) hx ?_
  rw [write, if_pos hsole]

@[simp] theorem allocated_write (p : Pool α) (x : Pointer) (a : α) :
    (p.write x a).allocated = p.allocated := by
  unfold write
  split <;> rfl

theorem Tidy.write (h : p.Tidy) (x : Pointer) (b : α) : (p.write x b).Tidy := by
  unfold Pool.write
  split
  · rename_i hsole
    cases hx : p.find? x with
    | none => simp [isSole, holders?, hx] at hsole
    | some na => exact h.of_setIfInBounds hx rfl
  · exact h

/-! ## A new block -/

theorem find?_grow (p : Pool α) (count : Nat) (y : Pointer) :
    (p.grow count).find? y = p.find? y := by
  by_cases hlt : y.slot < p.blocks.size
  · exact find?_congr (Array.getElem?_append_left hlt)
  · have hnone : p.find? y = none := by
      rw [find?, Array.getElem?_eq_none (Nat.le_of_not_lt hlt)]
    rw [hnone]
    cases hf : (p.grow count).find? y with
    | none => rfl
    | some na =>
      have h := find?_eq_some_iff.1 hf
      rw [grow, Array.getElem?_append_right (Nat.le_of_not_lt hlt)] at h
      have hc := Array.mem_of_getElem? h
      rw [Array.mem_replicate, Block.mk.injEq] at hc
      cases hc.2.2.2

theorem Tidy.grow (h : p.Tidy) (count : Nat) : (p.grow count).Tidy := by
  have hblock (s : Nat) (hs : p.blocks.size ≤ s) (hlt : s < p.blocks.size + count) :
      (p.grow count).blocks[s]? = some ⟨0, 0, none⟩ := by
    rw [Pool.grow, Array.getElem?_append_right hs, Array.getElem?_replicate, if_pos (by omega)]
  refine ⟨?_, fun s hs ↦ ?_, fun s b hb hc ↦ ?_, ?_⟩
  · refine List.nodup_append.2 ⟨List.nodup_range', h.nodup_free, fun s hs t ht hst ↦ ?_⟩
    obtain ⟨b, hb, -⟩ := h.content_free t ht
    have hlt := (Array.getElem?_eq_some_iff.1 hb).1
    have hge := (List.mem_range'_1.1 hs).1
    simp only [capacity] at hge
    omega
  · rcases List.mem_append.1 hs with hs | hs
    · have hrange := List.mem_range'_1.1 hs
      exact ⟨_, hblock s hrange.1 hrange.2, rfl⟩
    · obtain ⟨b, hb, hc⟩ := h.content_free s hs
      have hlt := (Array.getElem?_eq_some_iff.1 hb).1
      exact ⟨b, by rw [Pool.grow, Array.getElem?_append_left hlt, hb], hc⟩
  · by_cases hlt : s < p.blocks.size
    · rw [Pool.grow, Array.getElem?_append_left hlt] at hb
      exact h.serial_lt s b hb hc
    · have hsize := (Array.getElem?_eq_some_iff.1 hb).1
      simp only [Pool.grow, Array.size_append, Array.size_replicate] at hsize
      rw [hblock s (Nat.le_of_not_lt hlt) hsize] at hb
      cases hb
      cases hc
  · simpa [used, Pool.grow, Array.countP_append, Array.countP_replicate] using h.balanced

theorem find?_prepared (p : Pool α) (y : Pointer) : p.prepared.find? y = p.find? y := by
  unfold prepared
  split
  · exact find?_grow p _ y
  · rfl

theorem Tidy.prepared (h : p.Tidy) : p.prepared.Tidy := by
  unfold Pool.prepared
  split
  · exact h.grow _
  · exact h

theorem allocated_prepared (p : Pool α) : p.prepared.allocated = p.allocated := by
  unfold prepared
  split <;> rfl

/-- A pool that is not exhausted has a free slot to give. -/
theorem free_prepared (h : p.isExhausted = false) : p.prepared.free ≠ [] := by
  unfold prepared
  split
  · rename_i hfree
    have hpos : p.growth ≠ 0 := by
      intro h0
      simp [isExhausted, hfree, h0] at h
    obtain ⟨m, hm⟩ := Nat.exists_eq_succ_of_ne_zero hpos
    simp [grow, hm, List.range']
  · rename_i hfree
    simp [hfree]

/-- **A new block** is seen by a new pointer alone. -/
theorem find?_fill (hp : p.Tidy) (h : p.isExhausted = false) (a : α) (y : Pointer) :
    (p.fill a).2.find? y = if y = (p.fill a).1 then some (1, a) else p.find? y := by
  obtain ⟨slot, free, hfree⟩ := List.exists_cons_of_ne_nil (free_prepared h)
  obtain ⟨b, hb, hc⟩ := hp.prepared.content_free slot (hfree ▸ List.mem_cons_self)
  have hlt : slot < p.prepared.blocks.size := (Array.getElem?_eq_some_iff.1 hb).1
  have hset : (p.fill a).2.blocks =
      p.prepared.blocks.setIfInBounds slot ⟨p.prepared.allocated, 1, some a⟩ := by
    simp only [fill, hfree]
  have hpointer : (p.fill a).1 = ⟨slot, p.prepared.allocated⟩ := by
    simp only [fill, hfree]
  rw [hpointer]
  split
  · rename_i hy
    subst hy
    refine find?_eq_some_iff.2 ?_
    rw [hset, Array.getElem?_setIfInBounds_self_of_lt hlt]
  · rename_i hy
    rw [← find?_prepared p y]
    by_cases hs : slot = y.slot
    · subst hs
      have hserial : p.prepared.allocated ≠ y.serial := fun he ↦ hy (by cases y; simp_all)
      rw [find?_eq_none_of_slot hb (.inr hc),
        find?_eq_none_of_slot (hset ▸ Array.getElem?_setIfInBounds_self_of_lt hlt) (.inl hserial)]
    · exact find?_congr (by rw [hset, Array.getElem?_setIfInBounds_ne hs])

theorem serial_fill (h : p.isExhausted = false) (a : α) : (p.fill a).1.serial = p.allocated := by
  obtain ⟨slot, free, hfree⟩ := List.exists_cons_of_ne_nil (free_prepared h)
  simp only [fill, hfree]
  exact allocated_prepared p

theorem allocated_fill (h : p.isExhausted = false) (a : α) :
    (p.fill a).2.allocated = p.allocated + 1 := by
  obtain ⟨slot, free, hfree⟩ := List.exists_cons_of_ne_nil (free_prepared h)
  simp only [fill, hfree]
  rw [allocated_prepared]

theorem Tidy.fill (hp : p.Tidy) (h : p.isExhausted = false) (a : α) : (p.fill a).2.Tidy := by
  obtain ⟨slot, free, hfree⟩ := List.exists_cons_of_ne_nil (free_prepared h)
  obtain ⟨b, hb, hempty⟩ := hp.prepared.content_free slot (hfree ▸ List.mem_cons_self)
  have hlt : slot < p.prepared.blocks.size := (Array.getElem?_eq_some_iff.1 hb).1
  have hnodup := hp.prepared.nodup_free
  rw [hfree] at hnodup
  have hnotin := (List.nodup_cons.1 hnodup).1
  simp only [Pool.fill, hfree]
  refine ⟨(List.nodup_cons.1 hnodup).2, fun s hs ↦ ?_, fun s b hb hc ↦ ?_, ?_⟩
  · have hne : slot ≠ s := fun he ↦ hnotin (he ▸ hs)
    obtain ⟨b, hb, hc⟩ := hp.prepared.content_free s (hfree ▸ List.mem_cons_of_mem _ hs)
    exact ⟨b, by rw [Array.getElem?_setIfInBounds_ne hne, hb], hc⟩
  · by_cases hs : slot = s
    · subst hs
      rw [Array.getElem?_setIfInBounds_self_of_lt hlt] at hb
      cases hb
      exact Nat.lt_succ_self _
    · rw [Array.getElem?_setIfInBounds_ne hs] at hb
      exact Nat.lt_succ_of_lt (hp.prepared.serial_lt s b hb hc)
  · have hcount := countP_setIfInBounds hb ⟨p.prepared.allocated, 1, some a⟩
    have hbalanced := hp.prepared.balanced
    simp only [used, hempty, Option.toList_some, Option.toList_none, List.length_cons,
      List.length_nil] at hcount hbalanced ⊢
    omega

/-! ## Blocks given back -/

/-- Blocks were given back to a pool, where they now stand in front of those that were free, and
nothing else was done with it. -/
structure Returns (p q : Pool α) : Prop where
  limits : q.limits = p.limits
  capacity : q.capacity = p.capacity
  allocated : q.allocated = p.allocated
  peak : q.peak = p.peak
  free : ∃ slots, q.free = slots ++ p.free ∧ q.deallocated = p.deallocated + slots.length

theorem Returns.refl (p : Pool α) : p.Returns p :=
  ⟨rfl, rfl, rfl, rfl, [], rfl, rfl⟩

theorem Returns.trans {p q r : Pool α} (hq : p.Returns q) (hr : q.Returns r) : p.Returns r := by
  obtain ⟨slots, hfree, hback⟩ := hq.free
  obtain ⟨slots', hfree', hback'⟩ := hr.free
  refine ⟨hr.limits.trans hq.limits, hr.capacity.trans hq.capacity, hr.allocated.trans hq.allocated,
    hr.peak.trans hq.peak, slots' ++ slots, ?_, ?_⟩
  · rw [hfree', hfree, List.append_assoc]
  · rw [hback', hback, List.length_append]
    omega

theorem returns_release (p : Pool α) (x : Pointer) : p.Returns (p.release x).2 := by
  unfold release
  split
  · split
    · exact ⟨rfl, Array.size_setIfInBounds, rfl, rfl, [x.slot], rfl, rfl⟩
    · exact ⟨rfl, Array.size_setIfInBounds, rfl, rfl, [], rfl, rfl⟩
  · exact .refl p

/-! ## The blocks in use -/

/-- The pointers that see a content. -/
def pointers (p : Pool α) : List Pointer :=
  (p.blocks.toList.zipIdx.filter (·.1.content.isSome)).map fun e ↦ ⟨e.2, e.1.serial⟩

theorem length_pointers (p : Pool α) : p.pointers.length = p.used := by
  have hblocks := List.zipIdx_map_fst 0 p.blocks.toList
  rw [used, ← Array.countP_toList, ← hblocks, List.countP_map, pointers, List.length_map,
    ← List.countP_eq_length_filter]
  rfl

theorem nodup_slots (p : Pool α) : (p.pointers.map (·.slot)).Nodup := by
  rw [pointers, List.map_map]
  have hsub : ((p.blocks.toList.zipIdx.filter (·.1.content.isSome)).map Prod.snd).Sublist
      (p.blocks.toList.zipIdx.map Prod.snd) := List.filter_sublist.map _
  refine List.Nodup.sublist hsub ?_
  rw [List.zipIdx_map_snd]
  exact List.nodup_range'

theorem nodup_pointers (p : Pool α) : p.pointers.Nodup :=
  List.Pairwise.of_map _ (fun _ _ hne heq ↦ hne (heq ▸ rfl)) p.nodup_slots

theorem mem_pointers : x ∈ p.pointers ↔ (p.find? x).isSome := by
  constructor
  · intro hx
    obtain ⟨⟨b, slot⟩, he, rfl⟩ := List.mem_map.1 hx
    obtain ⟨hmem, hsome⟩ := List.mem_filter.1 he
    obtain ⟨a, ha⟩ := Option.isSome_iff_exists.1 hsome
    have hb := List.mem_zipIdx_iff_getElem?.1 hmem
    have hfind : p.find? ⟨slot, b.serial⟩ = some (b.holders, a) := by
      refine find?_eq_some_iff.2 ?_
      rw [← Array.getElem?_toList, hb]
      cases b
      cases ha
      rfl
    rw [hfind]
    rfl
  · intro hx
    obtain ⟨⟨n, a⟩, hna⟩ := Option.isSome_iff_exists.1 hx
    have hb := find?_eq_some_iff.1 hna
    rw [← Array.getElem?_toList] at hb
    refine List.mem_map.2 ⟨(⟨x.serial, n, some a⟩, x.slot), List.mem_filter.2 ⟨?_, rfl⟩, rfl⟩
    exact List.mem_zipIdx_iff_getElem?.2 hb

/-- When all pointers that see a content are one, at most one block is in use. -/
theorem Tidy.inUse_le_one (h : p.Tidy) (hsame : ∀ x ∈ p.pointers, ∀ y ∈ p.pointers, x = y) :
    p.inUse ≤ 1 := by
  have hinUse : p.inUse = p.pointers.length := by
    have hbalanced := h.balanced
    rw [length_pointers, inUse]
    omega
  have hnodup := p.nodup_pointers
  rw [hinUse]
  match hp : p.pointers with
  | [] => exact Nat.zero_le 1
  | [x] => exact Nat.le_refl 1
  | x :: y :: rest =>
    rw [hp] at hnodup hsame
    have hne := (List.nodup_cons.1 hnodup).1
    rw [hsame x List.mem_cons_self y (List.mem_cons_of_mem _ List.mem_cons_self)] at hne
    exact absurd List.mem_cons_self hne

end ScriptHeap.Pool
