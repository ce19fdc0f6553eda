import ScriptHeap.Proofs.Heap.Outline

/-!
# Names and elements

The names of a struct and its elements stand in two lists, and the second may be shared.  A value
*matches* its heap when there is a name for each element; a heap is *regular* when every value in a
block matches.  Values without names always match.

## What is here

* `Heap.Matched`, `Heap.Regular` — values that match, and heaps in which all do.
* `Heap.Shared` — two lists with the same blocks behind their elements, one for one.
-/

set_option autoImplicit false
namespace ScriptHeap.Heap

variable {Obj : Type} {h h' : Heap Obj} {v : Value Obj}

/-- A struct has as many names as elements. -/
def Matched (h : Heap Obj) (v : Value Obj) : Prop :=
  ∀ names l, v = .struct names l → ∃ is, h.elements? l = some is ∧ is.length = names.length

/-- Every value in a block matches. -/
def Regular (h : Heap Obj) : Prop :=
  ∀ b v, h.valueAt? b = some v → h.Matched v

theorem matched_scalar (s : Scalar Obj) : h.Matched (.scalar s) := by
  intro names l he
  cases he

theorem matched_array (l : ListId) : h.Matched (.array l : Value Obj) := by
  intro names l' he
  cases he

/-- What has no elements matches. -/
theorem matched_of_holds (hv : v.holds = []) : h.Matched v := by
  cases v with
  | scalar s => exact matched_scalar s
  | array l => cases hv
  | struct names l => cases hv

/-- A value that matches goes on matching when its list keeps its length. -/
theorem Matched.of_length (hm : h.Matched v)
    (hlist : ∀ l is, v.list? = some l → h.elements? l = some is →
      ∃ is', h'.elements? l = some is' ∧ is'.length = is.length) : h'.Matched v := by
  intro names l he
  obtain ⟨is, his, hlength⟩ := hm names l he
  obtain ⟨is', his', hlength'⟩ := hlist l is (by rw [he]; rfl) his
  exact ⟨is', his', hlength'.trans hlength⟩

/-- The same when its list stays as it is. -/
theorem Matched.of_lists (hm : h.Matched v)
    (hlist : ∀ l is, v.list? = some l → h.elements? l = some is → h'.elements? l = some is) :
    h'.Matched v :=
  hm.of_length fun l is hl his ↦ ⟨is, hlist l is hl his, rfl⟩

/-! ## Lists with the same blocks -/

/-- The elements of a list in one heap have the same blocks as those of a list in another. -/
def Shared (h h' : Heap Obj) (l m : ListId) : Prop :=
  ∃ is js, h.elements? l = some is ∧ h'.elements? m = some js ∧
    List.Forall₂ (fun i j ↦ ∃ b, h.blockOf? i = some b ∧ h'.blockOf? j = some b) is js

/-- A value goes on matching with a list that has the same blocks. -/
theorem Shared.matched {l m : ListId} (hshared : h.Shared h' l m) (hl : v.list? = some l)
    (hm : h.Matched v) : h'.Matched (v.withList m) := by
  obtain ⟨is, js, his, hjs, hall⟩ := hshared
  cases v with
  | scalar s => cases hl
  | array _ => exact matched_array m
  | struct names l' =>
    cases hl
    intro names' m' he
    cases he
    obtain ⟨is', his', hlength⟩ := hm names l rfl
    obtain rfl := Option.some.inj (his.symm.trans his')
    exact ⟨js, hjs, hall.length_eq.symm.trans hlength⟩

end ScriptHeap.Heap
