import ScriptHeap.Heap.Call
import ScriptHeap.Proofs.Heap.Outline
import ScriptHeap.Proofs.Number.Double
import ScriptHeap.Proofs.Text.Order

/-!
# The order of elements

Arrays are sorted by the places of their elements: numbers, then texts, then everything else.  The
places are in a total order, and elements in the same place stay in the order that they had.

## What is here

* `OrdersValues`, `ordersValues` — what the order of values is, and that it is a total preorder.
* `StablySorted` — a list and its elements in order; `stablySorted_mergeSort` says that sorting by
  merging gives that, and `StablySorted.unique` that nothing else does.
* `Heap.sorted_eq`, `Heap.stablySorted_sorted` — handles sorted by what they show.
-/

set_option autoImplicit false
namespace ScriptHeap

variable {Obj : Type}

/-! ## The order of values -/

namespace SortPlace

variable {p q r : SortPlace}

theorem atMost_refl (p : SortPlace) : p.atMost p = true := by
  cases p with
  | number m => exact decide_eq_true (Int.le_refl m)
  | string s => exact decide_eq_true (String.le_refl s)
  | other => rfl

theorem atMost_total (p q : SortPlace) : p.atMost q = true ∨ q.atMost p = true := by
  cases p with
  | number m =>
    cases q with
    | number n => exact (Int.le_total m n).imp decide_eq_true decide_eq_true
    | string t => exact .inl rfl
    | other => exact .inl rfl
  | string s =>
    cases q with
    | number n => exact .inr rfl
    | string t => exact (String.le_total s t).imp decide_eq_true decide_eq_true
    | other => exact .inl rfl
  | other => cases q <;> exact .inr rfl

theorem atMost_trans (hpq : p.atMost q = true) (hqr : q.atMost r = true) : p.atMost r = true := by
  cases q with
  | number m =>
    cases p with
    | number l =>
      cases r with
      | number n =>
        exact decide_eq_true (Int.le_trans (of_decide_eq_true hpq) (of_decide_eq_true hqr))
      | string t => rfl
      | other => rfl
    | string s => cases hpq
    | other => cases hpq
  | string s =>
    cases r with
    | number n => cases hqr
    | string t =>
      cases p with
      | number l => rfl
      | string u =>
        exact decide_eq_true (String.le_trans (of_decide_eq_true hpq) (of_decide_eq_true hqr))
      | other => cases hpq
    | other => cases p <;> rfl
  | other =>
    cases r with
    | number n => cases hqr
    | string t => cases hqr
    | other => cases p <;> rfl

theorem atMost_antisymm (hpq : p.atMost q = true) (hqp : q.atMost p = true) : p = q := by
  cases p with
  | number m =>
    cases q with
    | number n =>
      exact congrArg _ (Int.le_antisymm (of_decide_eq_true hpq) (of_decide_eq_true hqp))
    | string t => cases hqp
    | other => cases hqp
  | string s =>
    cases q with
    | number n => cases hpq
    | string t =>
      exact congrArg _ (String.le_antisymm (of_decide_eq_true hpq) (of_decide_eq_true hqp))
    | other => cases hqp
  | other =>
    cases q with
    | number n => cases hpq
    | string t => cases hpq
    | other => rfl

/-- Numbers stand in the first rank, texts in the second, everything else in the third. -/
def rank : SortPlace → Nat
  | number _ => 0
  | string _ => 1
  | other => 2

/-- A lower rank comes first. -/
theorem atMost_of_rank_lt (hpq : p.rank < q.rank) : p.atMost q = true ∧ q.atMost p = false := by
  cases p <;> cases q <;> first | exact ⟨rfl, rfl⟩ | simp [rank] at hpq

end SortPlace

/-- The double that a number is compared as. -/
def Value.number? : Value Obj → Option Double
  | .integer n => some (.ofInt32 n)
  | .double x => some x
  | _ => none

theorem sortPlace_of_number? {v : Value Obj} {x : Double} (hx : v.number? = some x) :
    v.sortPlace = .number x.totalKey := by
  cases v with
  | scalar s => cases s <;> cases hx <;> rfl
  | array l => cases hx
  | struct names l => cases hx

/-- **The order of values.**  It is a total preorder, and two values are alike in it when they have
one place.  Numbers come first, in the order of all bit patterns of doubles, so that none comes
before a smaller one; integers are in their own order.  Then come the texts, in the order of their
bytes, and then everything else, all of it in one place. -/
structure OrdersValues (Obj : Type) : Prop where
  refl : ∀ a : Value Obj, sortOrder a a = true
  trans : ∀ a b c : Value Obj, sortOrder a b = true → sortOrder b c = true → sortOrder a c = true
  total : ∀ a b : Value Obj, sortOrder a b = true ∨ sortOrder b a = true
  numbers : ∀ (a b : Value Obj) (x y : Double), a.number? = some x → b.number? = some y →
    (sortOrder a b = true ↔ x.totalKey ≤ y.totalKey) ∧
      (sortOrder a b = true → x.signedUnits ≤ y.signedUnits)
  integers : ∀ m n : Int32, sortOrder (.integer m : Value Obj) (.integer n) = true ↔ m ≤ n
  strings : ∀ s t : String,
    sortOrder (.string s : Value Obj) (.string t) = true ↔ Text.utf8 s ≤ Text.utf8 t
  others : ∀ a b : Value Obj, a.sortPlace = .other → b.sortPlace = .other → sortOrder a b = true
  alike : ∀ a b : Value Obj,
    sortOrder a b = true ∧ sortOrder b a = true ↔ a.sortPlace = b.sortPlace
  ranks : ∀ a b : Value Obj, a.sortPlace.rank < b.sortPlace.rank →
    sortOrder a b = true ∧ sortOrder b a = false

theorem ordersValues (Obj : Type) : OrdersValues Obj where
  refl a := a.sortPlace.atMost_refl
  trans _ _ _ hab hbc := SortPlace.atMost_trans hab hbc
  total a b := SortPlace.atMost_total _ _
  numbers a b x y hx hy := by
    rw [sortOrder, sortPlace_of_number? hx, sortPlace_of_number? hy, SortPlace.atMost,
      decide_eq_true_eq]
    exact ⟨Iff.rfl, Double.signedUnits_mono⟩
  integers m n := decide_eq_true_iff.trans Double.totalKey_ofInt32_le
  strings s t := decide_eq_true_iff.trans Text.utf8_le_utf8.symm
  others a b ha hb := by
    rw [sortOrder, ha, hb]
    rfl
  alike a b := by
    refine ⟨fun ⟨hab, hba⟩ ↦ SortPlace.atMost_antisymm hab hba, fun hplace ↦ ?_⟩
    rw [sortOrder, sortOrder, hplace]
    exact ⟨SortPlace.atMost_refl _, SortPlace.atMost_refl _⟩
  ranks _ _ := SortPlace.atMost_of_rank_lt

/-! ## Sorted lists -/

section
variable {α β : Type} {place : α → SortPlace} {as bs : List α}

/-- A list was sorted: it has the elements that it had, none before one in an earlier place, and
those in one place are in the order that they had. -/
structure StablySorted (place : α → SortPlace) (as bs : List α) : Prop where
  perm : bs.Perm as
  sorted : bs.Pairwise fun a b ↦ (place a).atMost (place b) = true
  stable : ∀ p, bs.filter (place · = p) = as.filter (place · = p)

/-- **Sorting by merging is stable.** -/
theorem stablySorted_mergeSort (place : α → SortPlace) (as : List α) :
    StablySorted place as (as.mergeSort fun a b ↦ (place a).atMost (place b)) := by
  have htrans (a b c : α) := @SortPlace.atMost_trans (place a) (place b) (place c)
  have htotal (a b : α) : ((place a).atMost (place b) || (place b).atMost (place a)) = true :=
    Bool.or_eq_true_iff.2 (SortPlace.atMost_total _ _)
  refine ⟨List.mergeSort_perm _ _, List.pairwise_mergeSort htrans htotal as, fun p ↦ ?_⟩
  -- the elements in one place are a sorted part of the list, which sorting does not tear apart
  have hsame : (as.filter (place · = p)).Pairwise fun a b ↦ (place a).atMost (place b) = true := by
    refine List.pairwise_of_forall_mem_list fun a ha b hb ↦ ?_
    have hpa : place a = p := of_decide_eq_true (List.mem_filter.1 ha).2
    have hpb : place b = p := of_decide_eq_true (List.mem_filter.1 hb).2
    rw [hpa, hpb]
    exact SortPlace.atMost_refl p
  have hpart :=
    (List.sublist_mergeSort htrans htotal hsame List.filter_sublist).filter (place · = p)
  rw [List.filter_filter] at hpart
  simp only [Bool.and_self] at hpart
  exact (hpart.eq_of_length ((List.mergeSort_perm _ _).filter _).length_eq.symm).symm

/-- Lists in order are the same if they have the same elements in every place, one by one. -/
theorem eq_of_sorted {cs : List α} (hperm : bs.Perm cs)
    (hb : bs.Pairwise fun a b ↦ (place a).atMost (place b) = true)
    (hc : cs.Pairwise fun a b ↦ (place a).atMost (place b) = true)
    (hsame : ∀ p, bs.filter (place · = p) = cs.filter (place · = p)) : bs = cs := by
  induction bs generalizing cs with
  | nil => exact hperm.nil_eq
  | cons b bs ih =>
    cases cs with
    | nil => exact hperm.eq_nil
    | cons c cs =>
      rw [List.pairwise_cons] at hb hc
      -- each of the first two elements is in the other list, so both have the earliest place
      have hbc : (place b).atMost (place c) = true := by
        rcases List.mem_cons.1 (hperm.symm.subset List.mem_cons_self) with rfl | hmem
        · exact SortPlace.atMost_refl _
        · exact hb.1 c hmem
      have hcb : (place c).atMost (place b) = true := by
        rcases List.mem_cons.1 (hperm.subset List.mem_cons_self) with rfl | hmem
        · exact SortPlace.atMost_refl _
        · exact hc.1 b hmem
      have hplace := SortPlace.atMost_antisymm hbc hcb
      have hfirst := hsame (place c)
      rw [List.filter_cons, List.filter_cons, if_pos (decide_eq_true hplace),
        if_pos (decide_eq_true rfl)] at hfirst
      obtain rfl := (List.cons.inj hfirst).1
      refine congrArg (b :: ·) (ih hperm.cons_inv hb.2 hc.2 fun p ↦ ?_)
      have hp := hsame p
      rw [List.filter_cons, List.filter_cons] at hp
      split at hp
      · exact (List.cons.inj hp).2
      · exact hp

/-- **There is one way to sort a list.** -/
theorem StablySorted.unique {cs : List α} (hb : StablySorted place as bs)
    (hc : StablySorted place as cs) : bs = cs :=
  eq_of_sorted (hb.perm.trans hc.perm.symm) hb.sorted hc.sorted
    fun p ↦ (hb.stable p).trans (hc.stable p).symm

/-- What shows the places of the elements is sorted with them. -/
theorem StablySorted.map {place' : β → SortPlace} {f : α → β} (hs : StablySorted place as bs)
    (hf : ∀ a, place' (f a) = place a) : StablySorted place' (as.map f) (bs.map f) := by
  refine ⟨hs.perm.map f, ?_, fun p ↦ ?_⟩
  · rw [List.pairwise_map]
    simpa only [hf] using hs.sorted
  · have hfilter : (fun b ↦ decide (place' b = p)) ∘ f = fun a ↦ decide (place a = p) := by
      funext a
      rw [Function.comp, hf]
    rw [List.filter_map, List.filter_map, hfilter, hs.stable p]

end

/-- The place of a datum in sorted order. -/
def Datum.sortPlace : Datum Obj → SortPlace
  | .scalar s => (Value.scalar s).sortPlace
  | _ => .other

namespace Heap

variable {h : Heap Obj} {is : List HandleId}

/-- What is seen of a value, at whatever depth, has its place. -/
@[simp] theorem sortPlace_outline (depth : Nat) (h : Heap Obj) (v : Value Obj) :
    (outline depth h v).sortPlace = v.sortPlace := by
  cases v with
  | scalar s => rw [outline_scalar, Datum.sortPlace]
  | array l => cases depth <;> rfl
  | struct names l => cases depth <;> rfl

theorem sorted_eq (h : Heap Obj) (is : List HandleId) :
    h.sorted is = is.mergeSort fun i j ↦ (h.shown i).sortPlace.atMost (h.shown j).sortPlace := by
  have hmap := List.map_mergeSort (f := fun i ↦ (i, (h.shown i).sortPlace))
    (r := fun i j ↦ (h.shown i).sortPlace.atMost (h.shown j).sortPlace)
    (s := fun a b ↦ a.2.atMost b.2) (l := is) fun _ _ _ _ ↦ rfl
  show ((is.map fun i ↦ (i, (h.shown i).sortPlace)).mergeSort fun a b ↦ a.2.atMost b.2).map
    (·.1) = _
  rw [← hmap, List.map_map]
  exact List.map_id _

/-- The order depends only on what the handles show. -/
theorem sorted_congr {h' : Heap Obj} (hshown : ∀ i, h'.shown i = h.shown i) (is : List HandleId) :
    h'.sorted is = h.sorted is := by
  rw [sorted_eq, sorted_eq, funext hshown]

/-- The elements are sorted by what they show. -/
theorem stablySorted_sorted (h : Heap Obj) (is : List HandleId) :
    StablySorted (fun i ↦ (h.shown i).sortPlace) is (h.sorted is) := by
  rw [sorted_eq]
  exact stablySorted_mergeSort _ is

/-- **Sorting once more** changes nothing. -/
theorem sorted_sorted (h : Heap Obj) (is : List HandleId) :
    h.sorted (h.sorted is) = h.sorted is := by
  rw [sorted_eq h (h.sorted is)]
  exact List.mergeSort_of_pairwise (h.stablySorted_sorted is).sorted

end Heap

end ScriptHeap
