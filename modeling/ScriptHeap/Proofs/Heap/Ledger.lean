import Mathlib.Algebra.BigOperators.Group.Finset.Basic
import ScriptHeap.Proofs.Heap.Cells

/-!
# The ledger of holds

Every hold of a cell is either in the content of another cell, or it is the heap's own hold of the
blank block, or somebody outside has it.  In a *sound* heap the number of holders of each cell is
exact: it counts the uses inside the heap and the holds outside, and nothing else.

## What is here

* `Heap.uses` — how often a cell is held from inside the heap, with the effect of a change on it.
* `Heap.Sound` — exact numbers of holders, of which every cell has some; a handle stands at one
  place in one list at most.
* `Heap.Sound.of_changes` — a change of one cell keeps the heap sound when the holds balance; one
  lemma for each operation follows from it.
-/

set_option autoImplicit false
namespace ScriptHeap.Heap

variable {Obj : Type}

/-! ## Uses -/

/-- All names of pools. -/
def poolNames : List PoolName :=
  [.uninit, .integer, .double, .string, .array, .error, .application]

/-- Names among which all cells are found. -/
def names (h : Heap Obj) : Finset Hold :=
  ((List.range h.handles.next).map (fun n ↦ Hold.handle ⟨n⟩) ++
    (List.range h.lists.next).map (fun n ↦ Hold.list ⟨n⟩) ++
    poolNames.flatMap fun name ↦ (List.range (h.pools.get name).blocks.size).map fun slot ↦
      Hold.block ⟨name, slot, (((h.pools.get name).blocks[slot]?).map Block.serial).getD 0⟩).toFinset

theorem mem_names {h : Heap Obj} {x : Hold} {n : Nat} {k : Content Obj}
    (hx : h.cell? x = some (n, k)) : x ∈ h.names := by
  rw [names, List.mem_toFinset, List.mem_append, List.mem_append]
  cases x with
  | handle i =>
    obtain ⟨c, hc, -⟩ := Option.map_eq_some_iff.1 hx
    exact .inl (.inl (List.mem_map.2 ⟨i.index, List.mem_range.2 (Table.lt_next_of_get? hc), rfl⟩))
  | list l =>
    obtain ⟨c, hc, -⟩ := Option.map_eq_some_iff.1 hx
    exact .inl (.inr (List.mem_map.2 ⟨l.index, List.mem_range.2 (Table.lt_next_of_get? hc), rfl⟩))
  | block b =>
    obtain ⟨nv, hnv, -⟩ := Option.map_eq_some_iff.1 hx
    have hslot := Pool.find?_eq_some_iff.1 hnv
    have hlt := (Array.getElem?_eq_some_iff.1 hslot).1
    refine .inr (List.mem_flatMap.2 ⟨b.pool, ?_, List.mem_map.2 ⟨b.pointer.slot, ?_, ?_⟩⟩)
    · cases b.pool <;> simp [poolNames]
    · exact List.mem_range.2 hlt
    · rw [hslot]
      rfl

/-- The holds that the heap has on its own account. -/
def ownHolds (h : Heap Obj) : List Hold :=
  h.blank.toList.map .block

/-- How often a cell is held from inside the heap. -/
def uses (h : Heap Obj) (x : Hold) : Nat :=
  ∑ y ∈ h.names, (h.holdsOf y).count x + h.ownHolds.count x

/-- Names without cells may be left out, or taken in. -/
theorem uses_eq {h : Heap Obj} {N : Finset Hold} (hN : h.names ⊆ N) (x : Hold) :
    h.uses x = ∑ y ∈ N, (h.holdsOf y).count x + h.ownHolds.count x := by
  rw [uses, Finset.sum_subset hN]
  intro y _ hy
  have hnone : h.cell? y = none := by
    cases hc : h.cell? y with
    | none => rfl
    | some nk => exact absurd (mem_names hc) hy
  rw [holdsOf, content?_eq_none hnone]
  rfl

/-- The holds of a content, none where there is no cell. -/
def newHolds (new : Option (Nat × Content Obj)) : List Hold :=
  (new.map fun nk ↦ nk.2.holds).getD []

theorem Changes.holdsOf {h h' : Heap Obj} {x : Hold} {new : Option (Nat × Content Obj)}
    (hc : h.Changes h' x new) (y : Hold) :
    h'.holdsOf y = if y = x then newHolds new else h.holdsOf y := by
  rw [Heap.holdsOf, content?, hc.cell]
  split
  · rw [newHolds, Option.map_map]
    rfl
  · rfl

/-- **A change of one cell** takes its old holds from the uses and adds the new ones. -/
theorem Changes.uses {h h' : Heap Obj} {y : Hold} {new : Option (Nat × Content Obj)}
    (hc : h.Changes h' y new) (x : Hold) :
    h'.uses x + (h.holdsOf y).count x = h.uses x + (newHolds new).count x := by
  have hy : y ∈ insert y (h.names ∪ h'.names) := Finset.mem_insert_self _ _
  have hN : h.names ⊆ insert y (h.names ∪ h'.names) :=
    Finset.subset_union_left.trans (Finset.subset_insert _ _)
  have hN' : h'.names ⊆ insert y (h.names ∪ h'.names) :=
    Finset.subset_union_right.trans (Finset.subset_insert _ _)
  have hrest : ∑ z ∈ (insert y (h.names ∪ h'.names)).erase y, (h'.holdsOf z).count x =
      ∑ z ∈ (insert y (h.names ∪ h'.names)).erase y, (h.holdsOf z).count x := by
    refine Finset.sum_congr rfl fun z hz ↦ ?_
    rw [hc.holdsOf, if_neg (Finset.ne_of_mem_erase hz)]
  have hown : h'.ownHolds = h.ownHolds := by
    rw [ownHolds, hc.blank, ownHolds]
  rw [uses_eq hN, uses_eq hN', ← Finset.add_sum_erase _ _ hy, ← Finset.add_sum_erase _ _ hy, hrest,
    hc.holdsOf, if_pos rfl, hown]
  omega

/-- What a cell holds is used. -/
theorem count_holdsOf_le_uses (h : Heap Obj) (x y : Hold) : (h.holdsOf y).count x ≤ h.uses x := by
  rw [uses_eq (Finset.subset_insert y _), ← Finset.add_sum_erase _ _ (Finset.mem_insert_self y _)]
  omega

/-- What two cells hold is used twice. -/
theorem count_holdsOf_add_le_uses (h : Heap Obj) (x : Hold) {y z : Hold} (hyz : y ≠ z) :
    (h.holdsOf y).count x + (h.holdsOf z).count x ≤ h.uses x := by
  have hN : h.names ⊆ insert y (insert z h.names) :=
    (Finset.subset_insert _ _).trans (Finset.subset_insert _ _)
  have hz : z ∈ (insert y (insert z h.names)).erase y :=
    Finset.mem_erase.2 ⟨hyz.symm, Finset.mem_insert_of_mem (Finset.mem_insert_self _ _)⟩
  rw [uses_eq hN, ← Finset.add_sum_erase _ _ (Finset.mem_insert_self y _),
    ← Finset.add_sum_erase _ _ hz]
  omega

/-- What a cell and the heap itself hold is used twice. -/
theorem count_holdsOf_add_ownHolds_le_uses (h : Heap Obj) (x y : Hold) :
    (h.holdsOf y).count x + h.ownHolds.count x ≤ h.uses x := by
  rw [uses_eq (Finset.subset_insert y _), ← Finset.add_sum_erase _ _ (Finset.mem_insert_self y _)]
  omega

/-! ## Sound heaps -/

/-- The numbers of holders are exact, where the given holds are those from outside. -/
structure Sound (h : Heap Obj) (xs : List Hold) : Prop where
  tidy : h.Tidy
  counted : ∀ x, h.count x = h.uses x + xs.count x
  /-- A handle stands at one place in one list at most. -/
  single : ∀ i, h.uses (.handle i) ≤ 1
  /-- The block of variables without a value stays without one. -/
  blank : ∀ b, h.blank = some b → h.valueAt? b = some .uninit
  blank_pool : ∀ b, h.blank = some b → b.pool = .uninit
  /-- What nobody holds is not there. -/
  held : ∀ x, (h.content? x).isSome → 0 < h.count x

namespace Sound

variable {h h' : Heap Obj} {xs ys : List Hold} {x y : Hold}

theorem perm (hs : h.Sound xs) (hp : xs.Perm ys) : h.Sound ys :=
  { hs with counted := fun x ↦ by rw [hs.counted, hp.count_eq] }

/-- What is held from outside is there. -/
theorem exists_cell?_of_mem (hs : h.Sound xs) (hx : x ∈ xs) :
    ∃ k, h.cell? x = some (h.count x, k) := by
  refine exists_cell?_of_count ?_
  rw [hs.counted]
  exact Nat.add_pos_right _ (List.count_pos_iff.2 hx)

/-- What a cell holds is there. -/
theorem exists_cell?_of_mem_holdsOf (hs : h.Sound xs) (hx : x ∈ h.holdsOf y) :
    ∃ k, h.cell? x = some (h.count x, k) := by
  refine exists_cell?_of_count ?_
  rw [hs.counted]
  exact Nat.add_pos_left
    (Nat.lt_of_lt_of_le (List.count_pos_iff.2 hx) (h.count_holdsOf_le_uses x y)) _

theorem exists_content?_of_mem (hs : h.Sound xs) (hx : x ∈ xs) : ∃ k, h.content? x = some k := by
  obtain ⟨k, hk⟩ := hs.exists_cell?_of_mem hx
  exact ⟨k, content?_eq hk⟩

theorem exists_content?_of_mem_holdsOf (hs : h.Sound xs) (hx : x ∈ h.holdsOf y) :
    ∃ k, h.content? x = some k := by
  obtain ⟨k, hk⟩ := hs.exists_cell?_of_mem_holdsOf hx
  exact ⟨k, content?_eq hk⟩

theorem isSome_of_mem (hs : h.Sound xs) (hx : x ∈ xs) : (h.content? x).isSome :=
  Option.isSome_iff_exists.2 (hs.exists_content?_of_mem hx)

theorem isSome_of_mem_holdsOf (hs : h.Sound xs) (hx : x ∈ h.holdsOf y) :
    (h.content? x).isSome :=
  Option.isSome_iff_exists.2 (hs.exists_content?_of_mem_holdsOf hx)

/-- **A change of one cell** keeps a heap sound when the holds balance. -/
theorem of_changes {new : Option (Nat × Content Obj)} (hs : h.Sound xs) (hc : h.Changes h' y new)
    (hbalance : ∀ x, h'.count x + (h.holdsOf y).count x + xs.count x =
      h.count x + (newHolds new).count x + ys.count x)
    (hsingle : ∀ i, (newHolds new).count (.handle i) ≤ (h.holdsOf y).count (.handle i) ∨
      h.uses (.handle i) + (newHolds new).count (.handle i) ≤ 1)
    (hblank : ∀ b, h.blank = some b → y = .block b → h'.valueAt? b = some .uninit)
    (hheld : ∀ nk, new = some nk → 0 < nk.1) : h'.Sound ys where
  tidy := hc.tidy hs.tidy
  counted x := by
    have h1 := hs.counted x
    have h2 := hc.uses x
    have h3 := hbalance x
    omega
  single i := by
    have h1 := hs.single i
    have h2 := hc.uses (.handle i)
    rcases hsingle i with h3 | h3
    · omega
    · omega
  blank b hb := by
    rw [hc.blank] at hb
    by_cases hy : y = .block b
    · exact hblank b hb hy
    · rw [valueAt?_congr (hc.content?_of_ne (Ne.symm hy))]
      exact hs.blank b hb
  blank_pool b hb := hs.blank_pool b (hc.blank ▸ hb)
  held x hx := by
    by_cases hxy : x = y
    · subst hxy
      rw [content?, hc.cell, if_pos rfl, Option.isSome_map] at hx
      obtain ⟨nk, hnk⟩ := Option.isSome_iff_exists.1 hx
      rw [Heap.count, hc.cell, if_pos rfl, hnk]
      exact hheld nk hnk
    · rw [hc.content?_of_ne hxy] at hx
      rw [Heap.count, hc.cell, if_neg hxy]
      exact hs.held x hx

end Sound

theorem Changes.count {h h' : Heap Obj} {y : Hold} {n : Nat} {k : Content Obj}
    (hc : h.Changes h' y (some (n, k))) (x : Hold) :
    h'.count x = if x = y then n else h.count x := by
  rw [Heap.count, hc.cell]
  split
  · rfl
  · rfl

theorem Changes.count_none {h h' : Heap Obj} {y : Hold} (hc : h.Changes h' y none) (x : Hold) :
    h'.count x = if x = y then 0 else h.count x := by
  rw [Heap.count, hc.cell]
  split
  · rfl
  · rfl

/-! ## Sound operations -/

namespace Sound

variable {h : Heap Obj} {xs : List Hold} {x : Hold}

theorem retainOne (hs : h.Sound xs) {n : Nat} {k : Content Obj} (hx : h.cell? x = some (n, k)) :
    (h.retainOne x).Sound (x :: xs) := by
  have hc := changes_retainOne hx
  refine hs.of_changes hc (fun y ↦ ?_) (fun i ↦ .inl ?_) (fun b hb hxb ↦ ?_) fun nk hnk ↦ ?_
  · rw [hc.count, List.count_cons, holdsOf_eq (content?_eq hx)]
    by_cases hy : y = x
    · subst hy
      simp only [newHolds, count_eq hx]
      simp
      omega
    · simp [newHolds, hy, Ne.symm hy]
  · rw [holdsOf_eq (content?_eq hx)]
    exact Nat.le_refl _
  · subst hxb
    have hv := content?_block.2 (hs.blank b hb)
    rw [content?_eq hx] at hv
    rw [← content?_block, content?, hc.cell, if_pos rfl, Option.map_some, Option.some.inj hv]
  · cases hnk
    exact Nat.succ_pos _

/-- The heap's own block is held by the heap. -/
theorem uses_pos_of_blank (h : Heap Obj) {b : BlockId} (hb : h.blank = some b) :
    0 < h.uses (.block b) := by
  have hown : h.ownHolds.count (.block b) = 1 := by
    rw [ownHolds, hb]
    simp
  have := h.count_holdsOf_add_ownHolds_le_uses (.block b) (.block b)
  omega

/-- A hold given up, and the holds of what went with it still to be given up. -/
theorem dropOne (hs : h.Sound (x :: xs)) :
    (h.dropOne x).2.Sound ((h.dropOne x).1 ++ xs) := by
  obtain ⟨k, hx⟩ := hs.exists_cell?_of_mem List.mem_cons_self
  have hcount := hs.counted x
  rw [List.count_cons_self] at hcount
  rcases Nat.lt_or_ge 1 (h.count x) with hn | hn
  · obtain ⟨hfst, hc⟩ := changes_dropOne_of_lt hx hn
    rw [hfst]
    refine hs.of_changes hc (fun y ↦ ?_) (fun i ↦ .inl ?_) (fun b hb hxb ↦ ?_) fun nk hnk ↦ ?_
    · rw [hc.count, List.count_cons, holdsOf_eq (content?_eq hx), List.nil_append]
      by_cases hy : y = x
      · subst hy
        simp only [newHolds]
        simp
        omega
      · simp [newHolds, hy, Ne.symm hy]
    · rw [holdsOf_eq (content?_eq hx)]
      exact Nat.le_refl _
    · subst hxb
      have hv := content?_block.2 (hs.blank b hb)
      rw [content?_eq hx] at hv
      rw [← content?_block, content?, hc.cell, if_pos rfl, Option.map_some, Option.some.inj hv]
    · cases hnk
      exact Nat.sub_pos_of_lt hn
  · obtain ⟨hfst, hc⟩ := changes_dropOne_of_le hx hn
    rw [hfst]
    refine hs.of_changes hc (fun y ↦ ?_) (fun i ↦ .inl (Nat.zero_le _)) (fun b hb hxb ↦ ?_)
      fun nk hnk ↦ absurd hnk (Option.some_ne_none nk).symm
    · rw [hc.count_none, List.count_cons, List.count_append, holdsOf_eq (content?_eq hx)]
      by_cases hy : y = x
      · subst hy
        simp only [newHolds]
        simp
        omega
      · simp [newHolds, hy, Ne.symm hy]
        omega
    · subst hxb
      have := uses_pos_of_blank h hb
      omega

theorem holdsOf_of_not_born (hs : h.Sound xs) (hx : ¬ h.Born x) :
    h.cell? x = none ∧ h.holdsOf x = [] := by
  have hnone : h.cell? x = none := by
    cases hc : h.cell? x with
    | none => rfl
    | some nk => exact absurd (born_of_cell? hs.tidy hc) hx
  refine ⟨hnone, ?_⟩
  rw [holdsOf, content?_eq_none hnone]
  rfl

/-- What is not yet there is not used. -/
theorem uses_of_not_born (hs : h.Sound xs) (hx : ¬ h.Born x) : h.uses x = 0 := by
  have hcount := hs.counted x
  rw [count_eq_zero (hs.holdsOf_of_not_born hx).1] at hcount
  omega

/-- A new cell takes over the holds of its content. -/
theorem of_new {h' : Heap Obj} {k : Content Obj} (hs : h.Sound (k.holds ++ xs))
    (hc : h.Changes h' x (some (1, k))) (hx : ¬ h.Born x)
    (hsingle : ∀ i, h.uses (.handle i) + k.holds.count (.handle i) ≤ 1) :
    h'.Sound (x :: xs) := by
  obtain ⟨hnone, hold⟩ := hs.holdsOf_of_not_born hx
  refine hs.of_changes hc (fun y ↦ ?_) (fun i ↦ .inr (hsingle i)) (fun b hb hxb ↦ ?_)
    fun nk hnk ↦ ?_
  · rw [hc.count, hold, List.count_cons, List.count_append]
    by_cases hy : y = x
    · subst hy
      simp [newHolds, count_eq_zero hnone]
      omega
    · simp [newHolds, hy, Ne.symm hy]
      omega
  · have hv := content?_block.2 (hs.blank b hb)
    rw [← hxb, content?_eq_none hnone] at hv
    cases hv
  · cases hnk
    exact Nat.one_pos

/-- Another content takes over holds and leaves those of the old content. -/
theorem of_replaced {h' : Heap Obj} {n : Nat} {k k' : Content Obj} (taken left : List Hold)
    (hs : h.Sound (taken ++ xs)) (hx : h.cell? x = some (n, k))
    (hc : h.Changes h' x (some (n, k')))
    (hbalance : ∀ y, k.holds.count y + taken.count y = k'.holds.count y + left.count y)
    (hsingle : ∀ i, k'.holds.count (.handle i) ≤ k.holds.count (.handle i) ∨
      h.uses (.handle i) + k'.holds.count (.handle i) ≤ 1)
    (hblank : ∀ b, h.blank = some b → x ≠ .block b) : h'.Sound (left ++ xs) := by
  have hold := holdsOf_eq (content?_eq hx)
  refine hs.of_changes hc (fun y ↦ ?_) (fun i ↦ ?_) (fun b hb hxb ↦ absurd hxb (hblank b hb))
    fun nk hnk ↦ ?_
  · have hy := hbalance y
    rw [hc.count, hold, List.count_append, List.count_append, newHolds, Option.map_some,
      Option.getD_some]
    dsimp only
    split
    · rename_i hyx
      rw [hyx, count_eq hx]
      rw [hyx] at hy
      omega
    · omega
  · rw [hold]
    exact hsingle i
  · cases hnk
    have hpos := hs.held x (by rw [content?_eq hx]; rfl)
    rwa [count_eq hx] at hpos

/-- A value in a cell holds no handle. -/
theorem count_handle_holds (v : Value Obj) (i : HandleId) : v.holds.count (.handle i) = 0 := by
  cases v <;> simp [Value.holds]

/-- A new block takes over the holds of its value. -/
theorem filled {v : Value Obj} (hs : h.Sound (v.holds ++ xs)) {name : PoolName}
    (hfree : (h.pools.get name).isExhausted = false) :
    (h.filled name v).2.Sound (.block (h.filled name v).1 :: xs) := by
  obtain ⟨hnew, hc⟩ := changes_filled hs.tidy hfree v
  refine of_new (k := .value v) hs hc hnew fun i ↦ ?_
  rw [Content.holds, count_handle_holds]
  exact hs.single i

/-- A new handle takes over a hold of its block. -/
theorem addHandle {b : BlockId} (hs : h.Sound (.block b :: xs)) (k : Kind) :
    (h.addHandle b k).2.Sound (.handle (h.addHandle b k).1 :: xs) := by
  obtain ⟨hnew, hc⟩ := changes_addHandle h b k
  refine of_new (k := .block b) hs hc hnew fun i ↦ ?_
  rw [Content.holds, List.count_singleton]
  exact hs.single i

theorem count_handleHolds (is : List HandleId) (i : HandleId) :
    (handleHolds is).count (.handle i) = is.count i := by
  induction is with
  | nil => rfl
  | cons j is ih =>
    rw [handleHolds, List.map_cons, List.count_cons, List.count_cons]
    simp only [beq_iff_eq, Hold.handle.injEq]
    rw [← ih, handleHolds]

@[simp] theorem count_block_handleHolds (is : List HandleId) (b : BlockId) :
    (handleHolds is).count (.block b) = 0 :=
  List.count_eq_zero.2 (by simp [handleHolds])

@[simp] theorem count_list_handleHolds (is : List HandleId) (l : ListId) :
    (handleHolds is).count (.list l) = 0 :=
  List.count_eq_zero.2 (by simp [handleHolds])

/-- A new list takes over the holds of its elements, handles that are in no other list. -/
theorem withList {is : List HandleId} (hs : h.Sound (handleHolds is ++ xs)) (hnodup : is.Nodup)
    (hloose : ∀ i ∈ is, h.uses (.handle i) = 0) :
    (h.withList is).2.Sound (.list (h.withList is).1 :: xs) := by
  obtain ⟨hnew, hc⟩ := changes_withList h is
  refine of_new (k := .elements is) hs hc hnew fun i ↦ ?_
  rw [Content.holds, count_handleHolds]
  by_cases hi : i ∈ is
  · rw [hloose i hi, Nat.zero_add]
    exact List.nodup_iff_count_le_one.1 hnodup i
  · rw [List.count_eq_zero_of_not_mem hi]
    exact hs.single i

/-- Another value in a block takes over its holds and leaves those of the old value. -/
theorem withValue {b : BlockId} {v w : Value Obj} (hs : h.Sound (w.holds ++ xs))
    (hb : h.cell? (.block b) = some (1, .value v)) (hblank : h.blank ≠ some b) :
    (h.withValue b w).Sound (v.holds ++ xs) := by
  refine of_replaced w.holds v.holds hs hb (changes_withValue hb w) (fun y ↦ Nat.add_comm _ _)
    (fun i ↦ .inl ?_) fun c hc he ↦ ?_
  · rw [Content.holds, count_handle_holds]
    exact Nat.zero_le _
  · cases he
    exact hblank hc

/-- Another block of a handle takes over its hold and leaves that of the old block. -/
theorem withBlock {i : HandleId} {b c : BlockId} {n : Nat} (hs : h.Sound (.block c :: xs))
    (hi : h.cell? (.handle i) = some (n, .block b)) :
    (h.withBlock i c).Sound (.block b :: xs) := by
  refine of_replaced [.block c] [.block b] hs hi (changes_withBlock hi c) (fun y ↦ Nat.add_comm _ _)
    (fun i ↦ .inl ?_) fun c hc he ↦ (nomatch he)
  rw [Content.holds, List.count_singleton]
  exact Nat.zero_le _

/-- Other elements in a list: those that come in were in no list, those that leave go to the
caller. -/
theorem withElements {l : ListId} {n : Nat} {is is' added removed : List HandleId}
    (hs : h.Sound (handleHolds added ++ xs)) (hl : h.cell? (.list l) = some (n, .elements is))
    (hperm : (is' ++ removed).Perm (is ++ added)) (hnodup : added.Nodup)
    (hloose : ∀ i ∈ added, h.uses (.handle i) = 0) :
    (h.withElements l is').Sound (handleHolds removed ++ xs) := by
  have hcount (i : HandleId) := hperm.count_eq i
  simp only [List.count_append] at hcount
  refine of_replaced (handleHolds added) (handleHolds removed) hs hl (changes_withElements hl is')
    (fun y ↦ ?_) (fun i ↦ ?_) fun c hc he ↦ (nomatch he)
  · simp only [Content.holds]
    cases y with
    | handle i =>
      rw [count_handleHolds, count_handleHolds, count_handleHolds, count_handleHolds]
      exact (hcount i).symm
    | block b => simp
    | list l => simp
  · have hi := hcount i
    rw [Content.holds, Content.holds, count_handleHolds, count_handleHolds]
    by_cases hmem : i ∈ added
    · have huses := h.count_holdsOf_le_uses (.handle i) (.list l)
      rw [holdsOf_eq (content?_eq hl), Content.holds, count_handleHolds] at huses
      have hle := List.nodup_iff_count_le_one.1 hnodup i
      rw [hloose i hmem] at huses ⊢
      omega
    · rw [List.count_eq_zero_of_not_mem hmem] at hi
      omega

end Sound

/-- The heap's own hold of the block of variables without a value. -/
theorem uses_withBlank {h : Heap Obj} (hnone : h.blank = none) (b : BlockId) (x : Hold) :
    ({ h with blank := some b } : Heap Obj).uses x = h.uses x + [Hold.block b].count x := by
  show ∑ y ∈ h.names, (h.holdsOf y).count x + [Hold.block b].count x = _
  rw [uses, ownHolds, hnone]
  simp

theorem Sound.withBlank {h : Heap Obj} {xs : List Hold} {b : BlockId}
    (hs : h.Sound (.block b :: xs)) (hnone : h.blank = none) (hb : h.valueAt? b = some .uninit)
    (hpool : b.pool = .uninit) : ({ h with blank := some b } : Heap Obj).Sound xs where
  tidy := hs.tidy
  counted x := by
    have hcount := hs.counted x
    rw [uses_withBlank hnone]
    show h.count x = _
    rw [List.count_cons] at hcount
    rw [List.count_singleton]
    omega
  single i := by
    have hsingle := hs.single i
    rw [uses_withBlank hnone]
    simpa using hsingle
  blank c hc := by
    cases hc
    exact hb
  blank_pool c hc := by
    cases hc
    exact hpool
  held := hs.held

end ScriptHeap.Heap
