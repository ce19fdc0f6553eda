import ScriptHeap.Proofs.Heap.Sorting
import ScriptHeap.Proofs.Session.Circles
import ScriptHeap.Proofs.Session.ElementWriting
import ScriptHeap.Proofs.Session.Equality

/-!
# Sorted arrays

What an array in a variable shows after it was sorted, which handles it has then, and what others
see of it.

## What is here

* `Heap.Reordered.again` — an array that was sorted is left as it is when it is sorted once more.
* `Heap.Sorts` — what becomes of a heap; `Heap.sort_is_stable` says that it does when an array is
  sorted.
* `Session.sort_parted` — an array that a snapshot was taken of gives up its elements when it is
  sorted.
-/

set_option autoImplicit false
namespace ScriptHeap

variable {Obj : Type} [HostObject Obj]

namespace Heap

variable {h g g₁ : Heap Obj} {xs ys : List Hold} {i j : HandleId} {b : BlockId} {w : Value Obj}
  {l m : ListId} {is js : List HandleId} {hs : h.Sound xs}

/-! ## The array -/

theorem Reordered.edited (hr : Reordered hs i l is b m js g₁ g) (hi : .handle i ∈ xs) :
    g.Alone i b (.array m) m (g₁.sorted js) ∧
      (¬ g.Endless → ∀ depth, seen depth g (g₁.sorted js) = seen depth g₁ (g₁.sorted js)) := by
  have hperm : (g₁.sorted js ++ []).Perm (js ++ []) := by
    rw [List.append_nil, List.append_nil]
    exact (g₁.stablySorted_sorted js).perm
  exact hr.listed.editElements hi hperm hr.sorted

/-- Variables have the values that they had before the elements were put in order. -/
theorem Reordered.valueOf? (hr : Reordered hs i l is b m js g₁ g) (e : HandleId) :
    g.valueOf? e = g₁.valueOf? e := by
  rw [hr.sorted]
  rfl

theorem Reordered.shown (hr : Reordered hs i l is b m js g₁ g) (e : HandleId) :
    g.shown e = g₁.shown e := by
  rw [Heap.shown, Heap.shown, hr.valueOf?]

/-- Other elements than those of the array are in the lists that they were in. -/
theorem Reordered.content? (hr : Reordered hs i l is b m js g₁ g) {x : Hold} (hx : x ≠ .list m) :
    g.content? x = g₁.content? x := by
  obtain ⟨n, hn⟩ := exists_cell?_of_content? (content?_list.2 hr.parted.alone.elements)
  rw [hr.sorted, (changes_withElements hn _).content?_of_ne hx]

/-- **An array that is sorted already** is left as it is. -/
theorem Reordered.again (hr : Reordered hs i l is b m js g₁ g) (hi : .handle i ∈ xs) :
    dispatch i .sort [] g = .ok (some (.ofBool true)) g := by
  have ha := (hr.edited hi).1
  have hperm := (g₁.stablySorted_sorted js).perm
  have hapart : 1 < (g₁.sorted js).length → ensureApart b (g₁.sorted js) g = .ok () g := by
    intro hmany
    refine Scene.ensureApart_eq fun e he heb ↦ ?_
    rw [hr.sorted] at heb
    exact hr.apart (hperm.length_eq ▸ hmany) e (hperm.subset he) heb
  have hset : setElements m (g.sorted (g₁.sorted js)) g = .ok () g := by
    show EStateM.Result.ok () (g.withElements m _) = _
    rw [sorted_congr hr.shown, sorted_sorted, withElements_self ha.elements]
  have hreorder : Heap.reorder b true Heap.sorted g = .ok (.ofBool true) g := by
    refine (bind_of_ok (ownListIn_eq ha.value rfl ha.listSole)).trans ?_
    refine (bind_of_ok (look_eq ha.elements)).trans ?_
    by_cases hmany : 1 < (g₁.sorted js).length
    · rw [if_pos (by simpa using hmany)]
      refine (bind_of_ok (hapart hmany)).trans ((bind_of_ok (Scene.get_eq g)).trans ?_)
      exact bind_of_ok hset
    · rw [if_neg (by simpa using hmany)]
      exact (bind_of_ok (Scene.get_eq g)).trans (bind_of_ok hset)
  rw [dispatch_array ha.valueOf?]
  refine (bind_of_ok (own_eq ha.block ha.value ha.sole)).trans ?_
  refine (bind_of_ok (look_eq ha.value)).trans ((bind_of_ok (look_eq ha.elements)).trans ?_)
  exact bind_of_ok hreorder

/-- What the array shows is sorted with its elements. -/
theorem Reordered.contents (hr : Reordered hs i l is b m js g₁ g) (hi : .handle i ∈ xs)
    (hv : h.valueOf? i = some (.array l)) (his : h.elements? l = some is) (hg : g.Sound ys)
    (hends : ¬ h.Endless) (hends' : ¬ g.Endless) :
    ∃ ds ds', h.contents? i = some (.array ds) ∧ g.contents? i = some (.array ds') ∧
      StablySorted Datum.sortPlace ds ds' := by
  obtain ⟨ha, hseen⟩ := hr.edited hi
  obtain ⟨ds, hds, hwritten, -⟩ := hs.exists_seen hends his
  obtain ⟨ds', hds', hwritten', -⟩ := hg.exists_seen hends' ha.elements
  refine ⟨ds, ds', ?_, ?_, ?_⟩
  · rw [contents?, hv, Option.bind_some, hwritten]
  · rw [contents?, ha.valueOf?, Option.bind_some, hwritten']
  · have hold := (hr.listed.seen hi hv rfl his _).trans (hds _ (Nat.le_max_left h.depth g.depth))
    have hnew := (hseen hends' _).symm.trans (hds' _ (Nat.le_max_right h.depth g.depth))
    rw [← hold, ← hnew]
    exact (g₁.stablySorted_sorted js).map fun e ↦ sortPlace_outline _ g₁ (g₁.shown e)

/-! ## Everything else -/

/-- **Other variables** keep their values. -/
theorem Reordered.others (hr : Reordered hs i l is b m js g₁ g) (hj : j ≠ i)
    (hw : h.valueOf? j = some w) : g.valueOf? j = some w := by
  obtain ⟨c, hc, hwc⟩ := Option.bind_eq_some_iff.1 hw
  have hne : Hold.block c ≠ .block b := by
    rintro ⟨⟩
    rcases hr.parted.block with ⟨hblock, hone⟩ | hnew
    · have hsole := hs.sole_holder (mem_holdsOf_of_blockOf? hblock) hone
      exact hj (Hold.handle.inj (hsole.2 _ (mem_holdsOf_of_blockOf? hc)))
    · exact hnew (born_of_content? hs.tidy (content?_block.2 hwc))
  have hc' := hr.parted.leaves _ _ (by simpa using hj) (by simp) (content?_handle.2 hc)
  have hw' := hr.parted.leaves _ _ (by simp) hne (content?_block.2 hwc)
  rw [hr.valueOf?, Heap.valueOf?, content?_handle.1 hc', Option.bind_some, content?_block.1 hw']

/-- A list that others have, too, has the elements that it had. -/
theorem Reordered.elements? (hr : Reordered hs i l is b m js g₁ g)
    (his : h.elements? l = some is) (hnot : ¬ h.Owns i l) : g.elements? l = some is := by
  have hne : Hold.list l ≠ .list m := by
    rintro ⟨⟩
    rcases hr.parted.list with ⟨ho, -⟩ | hnew
    · exact hnot ho
    · exact hnew (born_of_content? hs.tidy (content?_list.2 his))
  have hsame := hr.parted.leaves _ _ (by simp) (by simp) (content?_list.2 his)
  exact content?_list.1 ((hr.content? hne).trans hsame)

/-- Without circles such a list shows what it showed. -/
theorem Reordered.keeps (hr : Reordered hs i l is b m js g₁ g)
    (hv : h.valueOf? i = some (.array l)) (his : h.elements? l = some is) (hnot : ¬ h.Owns i l)
    (hends : ¬ h.Endless) : h.Keeps g [.list l] := by
  intro z hz y hreach
  obtain rfl := List.mem_singleton.1 hz
  obtain ⟨c, hc, hvc⟩ := Option.bind_eq_some_iff.1 hv
  have hlist := list_mem_holdsOf hvc rfl
  have hthere : (h.content? (.list l)).isSome :=
    isSome_of_elements? his
  obtain ⟨k, hk⟩ := Option.isSome_iff_exists.1 (hs.isSome_of_reaches hthere hreach)
  have hborn := born_of_content? hs.tidy hk
  have hhandle : y ≠ .handle i := by
    rintro rfl
    exact hends ⟨_, _, hlist, hreach.next (mem_holdsOf_of_blockOf? hc)⟩
  have hblock : y ≠ .block b := by
    rintro rfl
    rcases hr.parted.block with ⟨hi, -⟩ | hnew
    · obtain rfl := Option.some.inj (hc.symm.trans hi)
      exact hends ⟨_, _, hlist, hreach⟩
    · exact hnew hborn
  have hm : y ≠ .list m := by
    rintro rfl
    rcases hr.parted.list with ⟨ho, -⟩ | hnew
    · exact hnot ho
    · exact hnew hborn
  rw [hr.content? hm, hr.parted.leaves y k hhandle hblock hk, hk]

/-- Such a list is written out as it was. -/
theorem Reordered.datum? (hr : Reordered hs i l is b m js g₁ g)
    (hv : h.valueOf? i = some (.array l)) (his : h.elements? l = some is) (hg : g.Sound ys)
    (hends : ¬ h.Endless) (hends' : ¬ g.Endless) (hnot : ¬ h.Owns i l)
    (hw : w.list? = some l) : g.datum? w = h.datum? w := by
  have hholds := holds_of_list? hw
  have hkeeps := hr.keeps hv his hnot hends
  rw [← hholds] at hkeeps
  refine hs.datum?_congr hg hends hends' (fun y hy ↦ ?_) (fun y hy ↦ ?_) hkeeps.outline
  · obtain rfl := List.mem_singleton.1 (hholds ▸ hy)
    exact isSome_of_elements? his
  · obtain rfl := List.mem_singleton.1 (hholds ▸ hy)
    exact isSome_of_elements? (hr.elements? his hnot)

omit [HostObject Obj] in
/-- Another variable with the list shares it. -/
theorem Sound.not_owns (hs : h.Sound xs) (hj : j ≠ i) (hw : h.valueOf? j = some w)
    (hl : w.list? = some l) : ¬ h.Owns i l := by
  rintro ⟨b, v, hi, hblock, hb, hvl, hlist⟩
  obtain ⟨c, hc, hwc⟩ := Option.bind_eq_some_iff.1 hw
  cases (hs.sole_holder (list_mem_holdsOf hb hvl) hlist).2 _ (list_mem_holdsOf hwc hl)
  have hsole := hs.sole_holder (mem_holdsOf_of_blockOf? hi) hblock
  exact hj (Hold.handle.inj (hsole.2 _ (mem_holdsOf_of_blockOf? hc)))

/-! ## Sorting -/

/-- What becomes of a heap when the array in a variable is sorted.  The array has elements with the
values that they had, and these were sorted; if it shared neither its block nor its list before,
they are the same handles in the same list.  What the array shows was sorted, too.  To sort it once
more changes nothing.  Other variables have the values that they had; a list that they have, too,
has the elements that it had, and is written out as it was. -/
structure Sorts (h : Heap Obj) (i : HandleId) (l : ListId) (is : List HandleId) (g : Heap Obj) :
    Prop where
  elements : ∃ m js js', g.valueOf? i = some (.array m) ∧ g.elements? m = some js' ∧
    List.Forall₂ (fun e j ↦ ∃ w, h.valueOf? e = some w ∧ g.valueOf? j = some w) is js ∧
    StablySorted (fun j ↦ (g.shown j).sortPlace) js js' ∧
    (h.Owns i l → m = l ∧ js = is ∧ g.Owns i l)
  contents : ¬ h.Endless → ∃ ds ds', h.contents? i = some (.array ds) ∧
    g.contents? i = some (.array ds') ∧ StablySorted Datum.sortPlace ds ds'
  again : dispatch i .sort [] g = .ok (some (.ofBool true)) g
  others : ∀ j w, j ≠ i → h.valueOf? j = some w → g.valueOf? j = some w ∧
    (w.list? = some l → ¬ h.Endless → g.contents? j = h.contents? j)
  shared : ¬ h.Owns i l → g.elements? l = some is ∧
    (¬ h.Endless → ∀ w, w.list? = some l → g.datum? w = h.datum? w)

theorem Reordered.sorts (hr : Reordered hs i l is b m js g₁ g) (hi : .handle i ∈ xs)
    (hv : h.valueOf? i = some (.array l)) (his : h.elements? l = some is) (hg : g.Sound ys)
    (hends : ¬ h.Endless → ¬ g.Endless) : h.Sorts i l is g := by
  have ha := (hr.edited hi).1
  refine ⟨⟨m, js, _, ha.valueOf?, ha.elements, ?_, ?_, fun ho ↦ ?_⟩, fun hac ↦ ?_, hr.again hi,
    fun j w hj hw ↦ ⟨hr.others hj hw, fun hl hac ↦ ?_⟩,
    fun hnot ↦ ⟨hr.elements? his hnot, fun hac w ↦ ?_⟩⟩
  · exact hr.parted.same.imp fun e j ⟨w, he, hj⟩ ↦ ⟨w, he, (hr.valueOf? j).trans hj⟩
  · simp only [hr.shown]
    exact g₁.stablySorted_sorted js
  · have hsame := hr.parted.kept ho
    have hjs := hr.parted.alone.elements
    rcases hr.parted.list with ⟨-, rfl⟩ | hnew
    · rw [hsame, his] at hjs
      exact ⟨rfl, (Option.some.inj hjs).symm, ha.owns⟩
    · rw [hsame] at hjs
      exact (hnew (born_of_content? hs.tidy (content?_list.2 hjs))).elim
  · exact hr.contents hi hv his hg hac (hends hac)
  · rw [contents?, contents?, hr.others hj hw, hw]
    exact hr.datum? hv his hg hac (hends hac) (hs.not_owns hj hw hl) hl
  · exact hr.datum? hv his hg hac (hends hac) hnot

/-- **Sorting is stable, by a total preorder**, where there are blocks enough.  The elements of an
array of any kinds are put in the order of values, and those that are alike stay in the order that
they had.  Only a variable that is one of its own elements is not sorted: it would have to be read
while it is being written. -/
theorem sort_is_stable (hs : h.Sound xs) (hi : .handle i ∈ xs)
    (hv : h.valueOf? i = some (.array l)) (his : h.elements? l = some is)
    (hplenty : ¬ Exhausts (dispatch i .sort []) h) :
    OrdersValues Obj ∧
      ((i ∈ is ∧ (1 < is.length ∨ ¬ h.Owns i l) ∧
          ∃ h', dispatch i .sort [] h = .error .busy h') ∨
        ∃ g, dispatch i .sort [] h = .ok (some (.ofBool true)) g ∧ h.Sorts i l is g) := by
  refine ⟨ordersValues Obj, ?_⟩
  have hstart := Scene.at_ofHeap hs (· = i)
  have hnone {p : Value Obj → Prop} (w : Value Obj) (hw : w ∈ []) : p w :=
    absurd hw List.not_mem_nil
  have hsafe := (Scene.target_ofHeap hs hi).dispatch hstart
    (Scene.calm_before fun _ _ ↦ False.elim) .sort hnone False.elim False.elim hnone
    fun _ _ _ _ _ _ _ ↦ False.elim
  rcases hs.runs_or_busy ((hsafe False.elim).and (hs.sort hi hv his)) hplenty with
    ⟨_, g, hrun, ha, rfl, b, m, js, g₁, hr⟩ | ⟨⟨hmem, hshared⟩, hbusy⟩
  · exact .inr ⟨g, hrun, hr.sorts hi hv his ha.1.sound ha.1.acyclic⟩
  · exact .inl ⟨hmem, hshared, hbusy⟩

end Heap

namespace Session

/-- Two texts, the later one first. -/
def twoTexts : List (Datum SampleObject) :=
  [.scalar (.string "b"), .scalar (.string "a")]

/-- The texts in the other order are the sorted ones. -/
theorem stablySorted_twoTexts : StablySorted Datum.sortPlace twoTexts twoTexts.reverse := by
  refine ⟨List.Perm.swap _ _ _, List.pairwise_pair.2 (by decide), fun p ↦ ?_⟩
  by_cases hb : SortPlace.string "b" = p
  · subst hb
    simp [twoTexts, Datum.sortPlace, Value.sortPlace]
  · simp [twoTexts, Datum.sortPlace, Value.sortPlace, List.filter_cons, hb]

/-- The array of two texts is sorted, and its copy, which has the same list, is not. -/
theorem sort_is_stable_twins :
    ∃ g, Heap.dispatch ⟨2⟩ .sort [] (twins twoTexts).heap = .ok (some (.ofBool true)) g ∧
      g.contents? ⟨2⟩ = some (.array twoTexts.reverse) ∧ g.contents? ⟨3⟩ = some (.array twoTexts) ∧
      Heap.dispatch ⟨2⟩ .sort [] g = .ok (some (.ofBool true)) g := by
  have hs : (twins twoTexts).Books := (books_start _).run _
  have hends : ¬ (twins twoTexts).heap.Endless := by
    refine Heap.not_endless_of_rank twinsRank ?_
    decide +kernel
  have hv : (twins twoTexts).heap.valueOf? ⟨2⟩ = some (.array ⟨0⟩) := by
    cbv
  have hcopy : (twins twoTexts).heap.valueOf? ⟨3⟩ = some (.array ⟨0⟩) := by
    cbv
  have his : (twins twoTexts).heap.elements? ⟨0⟩ = some [⟨0⟩, ⟨1⟩] := by
    cbv
  obtain ⟨-, ⟨hmem, -⟩ | ⟨g, hrun, hsorts⟩⟩ :=
    Heap.sort_is_stable hs (by decide +kernel) hv his (by decide +kernel)
  · exact absurd hmem (by decide)
  · obtain ⟨ds, ds', hds, hds', hsorted⟩ := hsorts.contents hends
    cases (show (twins twoTexts).heap.contents? ⟨2⟩ = some (.array twoTexts) by cbv).symm.trans hds
    refine ⟨g, hrun, ?_, ?_, hsorts.again⟩
    · rw [hds', hsorted.unique stablySorted_twoTexts]
    · rw [(hsorts.others ⟨3⟩ _ (by decide) hcopy).2 rfl hends]
      cbv

/-- A reference to the second of two texts, and a snapshot of the array. -/
def textAndSnapshot : Session SampleObject :=
  ((start ⟨false, ⟨4, none⟩⟩).run
    [.bind "x" (.literal (.array twoTexts)),
      .subscript "x" (.literal (.scalar (.integer 2))) (some "e"), .snapshot "x" "before"]).2

/-- The array in a reference is sorted. -/
def sortArray (r : String) : Step SampleObject :=
  .callBuiltin r .sort [] false none none

/-- **A snapshot of an array parts it from its elements** when it is sorted, too.  Nobody but the
block of the array holds its list, but new handles take the places of all elements: a write to the
handle that was there is not seen in the array any more.  An array that was stored in its own
element is not sorted at all. -/
theorem sort_parted :
    (textAndSnapshot.references.get? "e" = some (some ⟨1⟩) ∧
      textAndSnapshot.heap.ElementAt ⟨2⟩ 1 ⟨1⟩ ∧ textAndSnapshot.heap.count (.list ⟨0⟩) = 1 ∧
      (∀ place, ¬ (textAndSnapshot.step (sortArray "x")).2.heap.ElementAt ⟨2⟩ place ⟨1⟩) ∧
      (textAndSnapshot.run [sortArray "x",
        .assign "e" (.literal (.scalar (.integer 99)))]).2.heap.contents? ⟨2⟩ =
          some (.array twoTexts.reverse)) ∧
    (selfContaining.step (sortArray "e")).1 = .fault .busy := by
  refine ⟨⟨by cbv, ?_, by cbv, fun place ↦ ?_, by cbv⟩, by cbv⟩
  · exact ⟨⟨0⟩, [⟨0⟩, ⟨1⟩], ⟨⟨.array, ⟨0, 0⟩⟩, .array ⟨0⟩, by cbv, by cbv, rfl⟩, by cbv, rfl⟩
  · exact Heap.not_elementAt [⟨4⟩, ⟨3⟩] ⟨⟨.array, ⟨1, 1⟩⟩, .array ⟨1⟩, by cbv, by cbv, rfl⟩
      (by cbv) (by decide)

end Session
end ScriptHeap
