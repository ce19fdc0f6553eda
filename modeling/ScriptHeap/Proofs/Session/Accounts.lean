import Mathlib.Algebra.BigOperators.Group.Finset.Piecewise
import ScriptHeap.Proofs.Heap.Cycles
import ScriptHeap.Proofs.Session.Books
import ScriptHeap.Host.Sample

/-!
# Who holds blocks and lists

After every run the number that a block keeps is the number of those who hold it: the handles that
point to it, the registers that it stands in, and the heap itself for the block of variables without
a value.  So blocks are in use as long as somebody holds them, and the counters of the pools say how
many there are.

## What is here

* `Session.holders`, `Session.users` — those who hold a block, and the values that have a list.
* `Session.Books.count_block`, `Session.Books.count_list` — these are the numbers that are kept.
* `Session.released_run` — emptying registers gives up what they held and does nothing else.
* `Session.accounts_exact` — the numbers are exact, and without circles nothing is left when
  nobody holds anything.
-/

set_option autoImplicit false
namespace ScriptHeap

variable {Obj : Type}

/-! ## Counting uses -/

namespace Heap

variable {h : Heap Obj}

/-- What certain cells hold once, and others not at all, is used as often as there are such cells.
-/
theorem uses_eq_card {ι : Type} (name : ι ↪ Hold) (S : Finset ι) (P : ι → Prop) [DecidablePred P]
    {x : Hold} (hS : ∀ a ∈ S, name a ∈ h.names)
    (hone : ∀ a, (h.holdsOf (name a)).count x = if P a then 1 else 0) (hP : ∀ a, P a → a ∈ S)
    (hrest : ∀ y, (∀ a, y ≠ name a) → (h.holdsOf y).count x = 0) :
    h.uses x = (S.filter P).card + h.ownHolds.count x := by
  have hsub : S.map name ⊆ h.names := by
    intro y hy
    obtain ⟨a, ha, rfl⟩ := Finset.mem_map.1 hy
    exact hS a ha
  have hzero : ∀ y ∈ h.names, y ∉ S.map name → (h.holdsOf y).count x = 0 := by
    intro y _ hy
    by_cases hname : ∃ a, y = name a
    · obtain ⟨a, rfl⟩ := hname
      rw [hone, if_neg fun ha ↦ hy (Finset.mem_map.2 ⟨a, hP a ha, rfl⟩)]
    · exact hrest y fun a ha ↦ hname ⟨a, ha⟩
  rw [uses, ← Finset.sum_subset hsub hzero, Finset.sum_map, Finset.card_filter]
  exact congrArg (· + _) (Finset.sum_congr rfl fun a _ ↦ hone a)

/-- What a cell holds is of another sort than the cell: handles hold blocks, blocks hold lists, and
lists hold handles. -/
theorem holdsOf_sort (h : Heap Obj) {x y : Hold} (hy : y ∈ h.holdsOf x) :
    (∃ i b, x = .handle i ∧ y = .block b ∧ h.blockOf? i = some b) ∨
      (∃ b l, x = .block b ∧ y = .list l ∧ (h.valueAt? b).bind Value.list? = some l) ∨
        ∃ l i, x = .list l ∧ y = .handle i := by
  obtain ⟨k, hk, hmem⟩ := (mem_holdsOf y).1 hy
  obtain ⟨b, v, rfl, rfl, hv⟩ | ⟨i, b, rfl, rfl, hb⟩ | ⟨l, is, rfl, rfl, -⟩ := content?_sort hk
  · refine .inr (.inl ?_)
    cases v with
    | scalar s => cases hmem
    | array l => exact ⟨b, l, rfl, List.mem_singleton.1 hmem, by rw [hv]; rfl⟩
    | struct names l => exact ⟨b, l, rfl, List.mem_singleton.1 hmem, by rw [hv]; rfl⟩
  · exact .inl ⟨i, b, rfl, List.mem_singleton.1 hmem, hb⟩
  · obtain ⟨i, -, rfl⟩ := List.mem_map.1 hmem
    exact .inr (.inr ⟨l, i, rfl, rfl⟩)

/-! ## Handles that point to a block -/

/-- The number of handles that point to a block. -/
def slots (h : Heap Obj) (b : BlockId) : Nat :=
  ((Finset.range h.handles.next).filter fun n ↦ h.blockOf? ⟨n⟩ = some b).card

theorem count_holdsOf_handle (h : Heap Obj) (i : HandleId) (b : BlockId) :
    (h.holdsOf (.handle i)).count (.block b) = if h.blockOf? i = some b then 1 else 0 := by
  split
  · rename_i hi
    rw [holdsOf_handle hi, List.count_singleton_self]
  · rename_i hi
    refine List.count_eq_zero_of_not_mem fun hmem ↦ hi ?_
    obtain ⟨j, c, hj, hc, hjc⟩ | ⟨_, _, he, -⟩ | ⟨_, _, he, -⟩ := h.holdsOf_sort hmem
    · cases hj
      cases hc
      exact hjc
    · cases he
    · cases he

/-- A block is used by the handles that point to it, and the heap's own block by the heap. -/
theorem uses_block (h : Heap Obj) (b : BlockId) :
    h.uses (.block b) = h.slots b + if h.blank = some b then 1 else 0 := by
  have hown : h.ownHolds.count (.block b) = if h.blank = some b then 1 else 0 := by
    cases hb : h.blank <;> simp [ownHolds, hb, List.count_singleton]
  rw [← hown]
  refine uses_eq_card ⟨fun n ↦ .handle ⟨n⟩, fun m n he ↦ by cases he; rfl⟩ _ _ (fun n hn ↦ ?_)
    (fun n ↦ h.count_holdsOf_handle ⟨n⟩ b) (fun n hn ↦ ?_) fun y hy ↦ ?_
  · refine List.mem_toFinset.2 (List.mem_append_left _ (List.mem_append_left _ ?_))
    exact List.mem_map.2 ⟨n, List.mem_range.2 (Finset.mem_range.1 hn), rfl⟩
  · obtain ⟨cell, hcell, -⟩ := Option.map_eq_some_iff.1 hn
    exact Finset.mem_range.2 (Table.lt_next_of_get? hcell)
  · refine List.count_eq_zero_of_not_mem fun hmem ↦ ?_
    obtain ⟨i, _, rfl, -⟩ | ⟨_, _, -, he, -⟩ | ⟨_, _, -, he⟩ := h.holdsOf_sort hmem
    · exact hy i.index rfl
    · cases he
    · cases he

/-! ## Values with a list -/

/-- The blocks in use. -/
def blocks (h : Heap Obj) : Finset BlockId :=
  (poolNames.flatMap fun name ↦ (h.pools.get name).pointers.map (.mk name)).toFinset

theorem mem_blocks {b : BlockId} : b ∈ h.blocks ↔ (h.valueAt? b).isSome := by
  rw [blocks, List.mem_toFinset, List.mem_flatMap, valueAt?, Option.isSome_map]
  constructor
  · rintro ⟨name, -, hb⟩
    obtain ⟨x, hx, rfl⟩ := List.mem_map.1 hb
    exact Pool.mem_pointers.1 hx
  · intro hb
    refine ⟨b.pool, ?_, List.mem_map.2 ⟨b.pointer, Pool.mem_pointers.2 hb, rfl⟩⟩
    cases b.pool <;> simp [poolNames]

/-- The number of blocks with a value whose elements are in a list. -/
def owners (h : Heap Obj) (l : ListId) : Nat :=
  (h.blocks.filter fun b ↦ (h.valueAt? b).bind Value.list? = some l).card

theorem count_holdsOf_block (h : Heap Obj) (b : BlockId) (l : ListId) :
    (h.holdsOf (.block b)).count (.list l) =
      if (h.valueAt? b).bind Value.list? = some l then 1 else 0 := by
  split
  · rename_i hb
    obtain ⟨v, hv, hl⟩ := Option.bind_eq_some_iff.1 hb
    rw [holdsOf_block hv, holds_of_list? hl,
      List.count_singleton_self]
  · rename_i hb
    refine List.count_eq_zero_of_not_mem fun hmem ↦ hb ?_
    obtain ⟨_, _, he, -⟩ | ⟨c, m, hc, hm, hcm⟩ | ⟨_, _, he, -⟩ := h.holdsOf_sort hmem
    · cases he
    · cases hc
      cases hm
      exact hcm
    · cases he

/-- A list is used by the values in blocks whose elements it has. -/
theorem uses_list (h : Heap Obj) (l : ListId) : h.uses (.list l) = h.owners l := by
  have hown : h.ownHolds.count (.list l) = 0 :=
    List.count_eq_zero_of_not_mem (by simp [ownHolds])
  refine (uses_eq_card ⟨Hold.block, fun b c he ↦ by cases he; rfl⟩ h.blocks _ (fun b hb ↦ ?_)
    (fun b ↦ h.count_holdsOf_block b l) (fun b hb ↦ ?_) fun y hy ↦ ?_).trans ?_
  · obtain ⟨v, hv⟩ := Option.isSome_iff_exists.1 (mem_blocks.1 hb)
    obtain ⟨n, hn⟩ := exists_cell?_of_content? (content?_block.2 hv)
    exact mem_names hn
  · obtain ⟨v, hv, -⟩ := Option.bind_eq_some_iff.1 hb
    exact mem_blocks.2 (hv ▸ rfl)
  · refine List.count_eq_zero_of_not_mem fun hmem ↦ ?_
    obtain ⟨_, _, -, he, -⟩ | ⟨b, _, rfl, -⟩ | ⟨_, _, -, he⟩ := h.holdsOf_sort hmem
    · cases he
    · exact hy b rfl
    · cases he
  · rw [hown, owners, Nat.add_zero]

end Heap

/-! ## All who hold a block or a list -/

namespace Stored

/-- The block that a value register keeps, if it keeps one. -/
def block? : Stored Obj → Option BlockId
  | own _ => none
  | snapshot b => some b

/-- The list with the elements of its own value, if a value register has one. -/
def list? : Stored Obj → Option ListId
  | own v => v.list?
  | snapshot _ => none

theorem count_block_holds (x : Stored Obj) (b : BlockId) :
    x.holds.count (.block b) = x.block?.toList.count b := by
  cases x with
  | own v => cases v <;> simp [holds, block?, Value.holds]
  | snapshot c => simp [holds, block?, List.count_singleton]

theorem count_list_holds (x : Stored Obj) (l : ListId) :
    x.holds.count (.list l) = x.list?.toList.count l := by
  cases x with
  | own v => cases v <;> simp [holds, list?, Value.holds, Value.list?, List.count_singleton]
  | snapshot c => simp [holds, list?]

/-- What several registers hold, where each holds one thing of a sort at most. -/
theorem count_flatMap_holds {α : Type} [DecidableEq α] {x : Hold} {part : Stored Obj → Option α}
    {a : α} (hpart : ∀ y : Stored Obj, y.holds.count x = (part y).toList.count a)
    (ys : List (Stored Obj)) : (ys.flatMap holds).count x = (ys.filterMap part).count a := by
  induction ys with
  | nil => rfl
  | cons y ys ih =>
    rw [List.flatMap_cons, List.count_append, ih, hpart, List.filterMap_cons]
    cases part y with
    | none => exact Nat.zero_add _
    | some c => rw [Option.toList_some, ← List.count_append, List.singleton_append]

end Stored

namespace Session

/-- The number of those who hold a block: handles that point to it, value registers that keep it as
it was at some moment, registers with the block itself, and the heap for its own block. -/
def holders (s : Session Obj) (b : BlockId) : Nat :=
  s.heap.slots b + (s.values.contents.filterMap Stored.block?).count b +
    s.blocks.contents.count b + if s.heap.blank = some b then 1 else 0

/-- The number of array and struct values whose elements are in a list: those in blocks, and the own
values of registers. -/
def users (s : Session Obj) (l : ListId) : Nat :=
  s.heap.owners l + (s.values.contents.filterMap Stored.list?).count l

variable {s : Session Obj}

/-- References and cursors hold handles and nothing else. -/
theorem count_holds (s : Session Obj) {x : Hold} (hx : ∀ i, x ≠ .handle i) :
    s.holds.count x =
      (s.values.contents.flatMap Stored.holds).count x + (s.blocks.contents.map .block).count x := by
  have hreferences : (s.references.contents.flatMap referenceHolds).count x = 0 := by
    refine List.count_eq_zero_of_not_mem fun hmem ↦ ?_
    obtain ⟨r, -, hr⟩ := List.mem_flatMap.1 hmem
    obtain ⟨i, -, he⟩ := List.mem_map.1 hr
    exact hx i he.symm
  have hcursors : (s.cursors.contents.flatMap Cursor.holds).count x = 0 := by
    refine List.count_eq_zero_of_not_mem fun hmem ↦ ?_
    obtain ⟨k, -, hk⟩ := List.mem_flatMap.1 hmem
    obtain ⟨i, -, he⟩ := List.mem_map.1 hk
    exact hx i he.symm
  rw [holds, List.count_append, List.count_append, List.count_append, hreferences, hcursors]
  omega

/-- The number of holders that a block keeps. -/
theorem Books.count_block (hs : s.Books) (b : BlockId) : s.heap.count (.block b) = s.holders b := by
  have hblocks : (s.blocks.contents.map Hold.block).count (.block b) = s.blocks.contents.count b :=
    List.count_map_of_injective _ _ (fun _ _ he ↦ by cases he; rfl) _
  rw [hs.counted, Heap.uses_block, count_holds s (fun i hi ↦ by cases hi),
    Stored.count_flatMap_holds (Stored.count_block_holds · b), hblocks, holders]
  omega

/-- The number of holders that a list keeps. -/
theorem Books.count_list (hs : s.Books) (l : ListId) : s.heap.count (.list l) = s.users l := by
  have hblocks : (s.blocks.contents.map Hold.block).count (.list l) = 0 :=
    List.count_eq_zero_of_not_mem (by simp)
  rw [hs.counted, Heap.uses_list, count_holds s (fun i hi ↦ by cases hi),
    Stored.count_flatMap_holds (Stored.count_list_holds · l), hblocks, users, Nat.add_zero]

theorem Books.holders?_eq (hs : s.Books) (b : BlockId) :
    s.heap.holders? b = if s.holders b = 0 then none else some (s.holders b) := by
  rw [← hs.count_block]
  cases hb : s.heap.find? b with
  | none =>
    have hnone : s.heap.cell? (.block b) = none := by
      rw [Heap.cell?, hb]
      rfl
    rw [Heap.count_eq_zero hnone, if_pos rfl, Heap.holders?, hb]
    rfl
  | some nv =>
    have hcell := Heap.cell?_block.2 hb
    have hpos := hs.held (.block b) (by rw [Heap.content?_eq hcell]; rfl)
    rw [if_neg (Nat.pos_iff_ne_zero.1 hpos), Heap.count_eq hcell, Heap.holders?, hb]
    rfl

/-- The counters of a pool say how many of its blocks are in use. -/
theorem Books.exists_blocks (hs : s.Books) (name : PoolName) :
    ∃ bs : List BlockId, bs.Nodup ∧
      (∀ b, b ∈ bs ↔ b.pool = name ∧ (s.heap.valueAt? b).isSome) ∧
      (s.heap.pools.get name).allocated = (s.heap.pools.get name).deallocated + bs.length := by
  refine ⟨(s.heap.pools.get name).pointers.map (.mk name), ?_, fun b ↦ ?_, ?_⟩
  · exact (Pool.nodup_pointers _).map fun _ _ he ↦ by cases he; rfl
  · rw [List.mem_map]
    constructor
    · rintro ⟨x, hx, rfl⟩
      have hfind := Pool.mem_pointers.1 hx
      exact ⟨rfl, by rwa [Heap.valueAt?, Option.isSome_map]⟩
    · rintro ⟨rfl, hb⟩
      rw [Heap.valueAt?, Option.isSome_map] at hb
      exact ⟨b.pointer, Pool.mem_pointers.2 hb, rfl⟩
  · rw [List.length_map, Pool.length_pointers]
    exact (hs.tidy name).balanced

end Session

/-! ## Emptying registers -/

variable [HostObject Obj]

/-- The steps that only empty registers. -/
def Step.drops : Step Obj → Bool
  | .drop _ | .dropAll | .dropValue _ | .dropBlock _ | .dropCursor _ => true
  | _ => false

namespace Session

variable {s : Session Obj}

/-- An operation gives up some of what is held, and does nothing else. -/
def Empties (s : Session Obj) (act : SessionM Obj (Answer Obj)) : Prop :=
  Ends act s (fun _ t ↦ s.heap.Released t.heap t.holds) fun _ t ↦ s.heap.Released t.heap t.holds

omit [HostObject Obj] in
theorem Books.letGo (hs : s.Books) {t : Session Obj} {ys : List Hold} (a : Answer Obj)
    (hheap : t.heap = s.heap) (hp : s.holds.Perm (ys ++ t.holds)) :
    Ends (Session.letGo ys >>= fun _ ↦ pure a) t (fun _ u ↦ s.heap.Released u.heap u.holds)
      fun _ u ↦ s.heap.Released u.heap u.holds := by
  refine Ends.after (t := { t with heap := t.heap.release ys }) rfl (Ends.pure ?_)
  rw [hheap]
  exact Heap.released_release (hs.perm hp)

/-- A step that only empties registers does that. -/
theorem Books.empties (hs : s.Books) {x : Step Obj} (hx : x.drops = true) :
    s.Empties (Session.apply x) := by
  have hsame {a : Answer Obj} : s.Empties (pure a) := Ends.pure (.refl hs)
  cases x with
  | drop name =>
    refine Ends.after rfl ?_
    split
    · rename_i old hold
      have hp := s.holds_references name
      rw [hold] at hp
      exact Ends.after rfl (hs.letGo (t := { s with references := s.references.erase name }) _ rfl hp)
    · exact hsame
  | dropValue name =>
    refine Ends.after rfl ?_
    split
    · rename_i old hold
      have hp := s.holds_values name
      rw [hold] at hp
      exact Ends.after rfl (hs.letGo (t := { s with values := s.values.erase name }) _ rfl hp)
    · exact hsame
  | dropBlock name =>
    refine Ends.after rfl ?_
    split
    · rename_i old hold
      have hp := s.holds_blocks name
      rw [hold] at hp
      exact Ends.after rfl (hs.letGo (t := { s with blocks := s.blocks.erase name }) _ rfl hp)
    · exact hsame
  | dropCursor name =>
    refine Ends.after rfl ?_
    split
    · rename_i old hold
      have hp := s.holds_cursors name
      rw [hold] at hp
      exact Ends.after rfl (hs.letGo (t := { s with cursors := s.cursors.erase name }) _ rfl hp)
    · exact hsame
  | dropAll =>
    have hperm : s.holds.Perm (s.holds ++ []) := .of_eq (List.append_nil _).symm
    exact hs.letGo
      (t := { s with references := .empty, values := .empty, blocks := .empty, cursors := .empty })
      .done rfl hperm
  | _ => cases hx

theorem released_step (hs : s.Books) {x : Step Obj} (hx : x.drops = true) :
    s.heap.Released (s.step x).2.heap (s.step x).2.holds := by
  have hempties := hs.empties hx
  rw [Session.step]
  unfold Empties Ends at hempties
  split at hempties <;> rename_i hrun <;> rw [hrun] <;> exact hempties

theorem released_run (hs : s.Books) {xs : List (Step Obj)} (hxs : ∀ x ∈ xs, x.drops = true) :
    s.heap.Released (s.run xs).2.heap (s.run xs).2.holds := by
  induction xs generalizing s with
  | nil => exact .refl hs
  | cons x xs ih =>
    refine (released_step hs (hxs x List.mem_cons_self)).trans (ih (hs.step x) fun y hy ↦ ?_)
    exact hxs y (List.mem_cons_of_mem x hy)

/-! ## Exact numbers -/

/-- What is left when all registers are emptied, without a circle. -/
theorem Books.inUse_of_drops (hs : s.Books) (hends : ¬ s.heap.Endless) {xs : List (Step Obj)}
    (hxs : ∀ x ∈ xs, x.drops = true) (hnone : (s.run xs).2.holds = []) (name : PoolName) :
    ((s.run xs).2.heap.pools.get name).inUse =
      if name = .uninit ∧ s.heap.blank.isSome then 1 else 0 := by
  have hr := released_run hs hxs
  have hleft : (s.run xs).2.heap.Sound [] := hnone ▸ hr.sound
  have hused := hleft.used_eq (hr.not_endless hends) name
  have hbalanced := (hleft.tidy name).balanced
  rw [hr.blank] at hused
  rw [Pool.inUse, ← hused]
  omega

/-- **Who holds blocks.**  After every run, also one with steps that ended with a fault, the number
that a block keeps is the number of those who hold it, and a block is there exactly when somebody
does; the counters of each pool differ by the number of its blocks in use.  And when registers are
emptied one after another until nobody holds anything, then without a circle no pool has a block in
use but the one that variables without a value share. -/
theorem accounts_exact (hs : s.Reachable) :
    (∀ b, s.heap.holders? b = if s.holders b = 0 then none else some (s.holders b)) ∧
    (∀ name, ∃ bs : List BlockId, bs.Nodup ∧
      (∀ b, b ∈ bs ↔ b.pool = name ∧ (s.heap.valueAt? b).isSome) ∧
      (s.heap.pools.get name).allocated = (s.heap.pools.get name).deallocated + bs.length) ∧
    (¬ s.heap.Endless → ∀ xs : List (Step Obj), (∀ x ∈ xs, x.drops = true) →
      (s.run xs).2.holds = [] → ∀ name, ((s.run xs).2.heap.pools.get name).inUse =
        if name = .uninit ∧ s.heap.blank.isSome then 1 else 0) := by
  have hb := hs.books
  exact ⟨hb.holders?_eq, hb.exists_blocks,
    fun hends xs hxs hnone name ↦ hb.inUse_of_drops hends hxs hnone name⟩

/-- An array that a variable points to, a register keeps as it is, and another one has the block of,
and two variables without a value. -/
def keptArray : Session SampleObject :=
  ((start ⟨false, ⟨4, none⟩⟩).run
    [.bind "h" (.literal (.array [.scalar (.integer 1), .scalar .uninit])), .snapshot "h" "v",
      .blockOf "h" "b", .uninit "u"]).2

/-- How far the cells of that session are from the bottom. -/
def keptRank : Hold → Nat
  | .block b => if b.pool = .array then 3 else 0
  | .handle i => if i = ⟨2⟩ then 4 else 1
  | .list _ => 2

/-- The block of the array has three holders, the one without a value has three too, and all but the
latter goes when the registers are emptied. -/
theorem accounts_exact_array :
    keptArray.heap.holders? ⟨.array, ⟨0, 0⟩⟩ = some 3 ∧
      keptArray.heap.holders? ⟨.uninit, ⟨0, 0⟩⟩ = some 3 ∧
      ∀ name, ((keptArray.run [.drop "h", .dropAll]).2.heap.pools.get name).inUse =
        if name = .uninit then 1 else 0 := by
  have hs : keptArray.Reachable := by
    unfold keptArray
    exact ⟨_, _, rfl⟩
  obtain ⟨hholders, -, hleft⟩ := accounts_exact hs
  have hends : ¬ keptArray.heap.Endless := by
    refine Heap.not_endless_of_rank keptRank ?_
    decide +kernel
  refine ⟨?_, ?_, fun name ↦ ?_⟩
  · rw [hholders]
    decide +kernel
  · rw [hholders]
    decide +kernel
  · have hrun := hleft hends [.drop "h", .dropAll] (by simp [Step.drops])
      (by decide +kernel) name
    have hblank : keptArray.heap.blank.isSome = true := by decide +kernel
    rw [hrun, hblank]
    simp

end Session
end ScriptHeap
