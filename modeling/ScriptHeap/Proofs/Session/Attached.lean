import ScriptHeap.Proofs.Heap.Attached
import ScriptHeap.Proofs.Session.Circles

/-!
# References to elements

A reference to an element is the handle that the container stores, and it stays so as long as no
step takes the element out or puts another value into the container.  There is one more way to lose
it: a container that shares its block or its list with a copy gets new handles for all its elements
when a step works on it, also when that step only looks something up.  The reference goes with the
copy then.

## What is here

* `Session.Respects` — the steps that leave an element where it is.
* `Session.element_attached` — the element stays attached along every run of them.
* `Session.element_detached` — an element that is lost because a copy was made.
-/

set_option autoImplicit false
namespace ScriptHeap.Session

variable {Obj : Type} {s : Session Obj} {i e : HandleId} {x : Step Obj} [HostObject Obj]

/-- A step leaves an element in its container.  It stores nothing in itself and does not write a
value to the container as an element of another one.  If it works on the container, that one shares
nothing, keeps its value, and the element is not the one that is taken out. -/
structure Respects (s : Session Obj) (x : Step Obj) (i e : HandleId) : Prop where
  apart : s.Apart x
  assigned : s.assigned? x ≠ some i
  tends : s.target? x = some i → (∃ l, s.heap.Owns i l) ∧ s.Retains x i ∧ ¬ s.Takes x e

/-- **A step that respects an element** leaves it in its container, if that one is still there. -/
theorem Books.elementAt_step (hs : s.Books) (hends : ¬ s.heap.Endless) {place : Nat}
    (he : s.heap.ElementAt i place e) (hx : s.Respects x i e)
    (hi : ((s.step x).2.heap.content? (.handle i)).isSome) :
    ∃ place', (s.step x).2.heap.ElementAt i place' e := by
  obtain ⟨l, is, hstores, his, hplace⟩ := he
  have hd := (Scene.settled_step hs x).done
  have hmem : Hold.handle e ∈ s.heap.holdsOf (.list l) :=
    Heap.handle_mem_holdsOf his (List.mem_of_getElem? hplace)
  by_cases htarget : s.target? x = some i
  · obtain ⟨⟨m, ho⟩, hretains, htakes⟩ := hx.tends htarget
    obtain rfl := ho.stores.unique hstores
    have hties := hd.tied i m ⟨htarget, ho, hretains, hends, hx.apart⟩ hi
    rcases hties.elements e hmem with hin | ⟨htaken, -⟩
    · obtain ⟨k, hk, hek⟩ := (Heap.mem_holdsOf _).1 hin
      obtain ⟨js, rfl, hjs⟩ := Heap.exists_elements_of_content? hk
      obtain ⟨j, hj, heq⟩ := List.mem_map.1 hek
      cases heq
      obtain ⟨place', hplace'⟩ := List.mem_iff_getElem?.1 hj
      exact ⟨place', m, js, hties.stores, hjs, hplace'⟩
    · exact absurd htaken htakes
  · -- the step works elsewhere, and the way from the container to its list is clear
    obtain ⟨b, v, hib, hv, hl⟩ := hstores
    have hlasts : (Scene.ofStep hs x).Lasts (s.step x).2.holds (s.step x).2.heap (.handle i) := by
      refine ⟨fun j hj hassigned ↦ ?_, ?_, .inr ⟨⟨i, rfl⟩, hi⟩⟩
      · cases hj
        exact absurd hassigned hx.assigned
      · exact Heap.born_of_content? hs.tidy (Heap.content?_handle.2 hib)
    have hhere : s.heap.Clear (fun j ↦ s.target? x = some j) (.handle i) (.handle i) :=
      .here fun j hj ↦ by
        cases hj
        exact htarget
    have hblock : s.heap.Clear (fun j ↦ s.target? x = some j) (.handle i) (.block b) :=
      .next hhere (Heap.mem_holdsOf_of_blockOf? hib) fun j hj ↦ by cases hj
    have hlist : s.heap.Clear (fun j ↦ s.target? x = some j) (.handle i) (.list l) :=
      .next hblock (Heap.list_mem_holdsOf hv hl) fun j hj ↦ by cases hj
    refine ⟨place, l, is, ⟨b, v, ?_, ?_, hl⟩, ?_, hplace⟩
    · rwa [Heap.blockOf?_congr (hd.kept _ hlasts _ hhere)]
    · rwa [Heap.valueAt?_congr (hd.kept _ hlasts _ hblock)]
    · rwa [Heap.elements?_congr (hd.kept _ hlasts _ hlist)]

/-- What was there and still is after a run has not been gone in between. -/
theorem Books.there_between (hs : s.Books) {xs : List (Step Obj)}
    (hi : s.heap.Born (.handle i))
    (hend : ((s.run xs).2.heap.content? (.handle i)).isSome) :
    (s.heap.content? (.handle i)).isSome := by
  induction xs generalizing s with
  | nil => exact hend
  | cons x xs ih =>
    have hd := (Scene.settled_step hs x).done
    exact hd.onward.gone _ hi (ih (hs.step x) (hd.onward.born _ hi) hend)

theorem Books.elementAt_run (hs : s.Books) (hends : ¬ s.heap.Circular) {place : Nat}
    (he : s.heap.ElementAt i place e) {xs : List (Step Obj)}
    (hxs : EveryStep (fun s x _ ↦ s.Respects x i e) s xs)
    (hi : ((s.run xs).2.heap.content? (.handle i)).isSome) :
    ∃ place', (s.run xs).2.heap.ElementAt i place' e := by
  induction xs generalizing s place with
  | nil => exact ⟨place, he⟩
  | cons x xs ih =>
    obtain ⟨hx, hxs⟩ := hxs
    have hborn : (s.step x).2.heap.Born (.handle i) := by
      obtain ⟨l, is, ⟨b, v, hib, -⟩, -⟩ := id he
      refine (Scene.settled_step hs x).done.onward.born _ ?_
      exact Heap.born_of_content? hs.tidy (Heap.content?_handle.2 hib)
    obtain ⟨place', he'⟩ := hs.elementAt_step (fun hc ↦ hends (hs.endless_iff.1 hc)) he hx
      ((hs.step x).there_between hborn hi)
    exact ih (hs.step x) (hs.not_circular_step hends hx.apart) he' hxs hi

/-- **Elements stay attached.**  In a session that steps have led to, without a circle, let a
container store a handle.  After every run of steps that respect the element, if the container is
still there, it stores the same handle: it shows what the handle shows, and once it shares nothing
with a copy it is this handle that lookups find and that writes go to which keep the element. -/
theorem element_attached (hs : s.Reachable) (hends : ¬ s.heap.Circular) {place : Nat}
    (he : s.heap.ElementAt i place e) {xs : List (Step Obj)}
    (hxs : EveryStep (fun s x _ ↦ s.Respects x i e) s xs)
    (hi : ((s.run xs).2.heap.content? (.handle i)).isSome) :
    ∃ place', (s.run xs).2.heap.Attached (s.run xs).2.holds i place' e := by
  obtain ⟨place', he'⟩ := hs.books.elementAt_run hends he hxs hi
  have hbooks := hs.books.run xs
  have hends' : ¬ (s.run xs).2.heap.Circular :=
    hs.books.not_circular_run hends (hxs.mono fun _ _ _ hx ↦ hx.apart)
  exact ⟨place', hbooks.attached (fun hc ↦ hends' (hbooks.endless_iff.1 hc)) he'⟩

/-- The array takes another element, and the old one is written. -/
def appended : List (Step SampleObject) :=
  [.operateInPlace .add "h" (.literal (.scalar (.integer 5))),
    .assign "e" (.literal (.scalar (.integer 9)))]

/-- An element stays attached when another one is added and when it is written itself. -/
theorem element_attached_appended :
    ∃ place, (arrayAndElement.run appended).2.heap.Attached (arrayAndElement.run appended).2.holds
      ⟨1⟩ place ⟨0⟩ := by
  have hs : arrayAndElement.Reachable := by
    unfold arrayAndElement
    exact ⟨_, _, rfl⟩
  have hends : ¬ arrayAndElement.heap.Circular := by
    rw [← hs.books.endless_iff]
    refine Heap.not_endless_of_rank elementRank ?_
    decide +kernel
  have he : arrayAndElement.heap.ElementAt ⟨1⟩ 0 ⟨0⟩ :=
    ⟨⟨0⟩, [⟨0⟩], ⟨⟨.array, ⟨0, 0⟩⟩, .array ⟨0⟩, by cbv, by cbv, rfl⟩, by cbv, rfl⟩
  have hadd : arrayAndElement.Respects (.operateInPlace .add "h" (.literal (.scalar (.integer 5))))
      ⟨1⟩ ⟨0⟩ := by
    refine ⟨fun _ _ y hy ↦ absurd hy List.not_mem_nil, by simp [assigned?],
      fun _ ↦ ⟨⟨⟨0⟩, ?_⟩, ?_, ?_⟩⟩
    · exact ⟨⟨.array, ⟨0, 0⟩⟩, .array ⟨0⟩, by cbv, by cbv, by cbv, rfl, by cbv⟩
    · refine ⟨⟨rfl, ⟨⟨0⟩, by cbv⟩, fun w hw ↦ ?_⟩, fun name hname ↦ absurd hname List.not_mem_nil⟩
      cases hw
      rfl
    · rintro ⟨_, _, _, _, -, -, -, hplace, -⟩
      cases hplace
  have htarget : (arrayAndElement.step (.operateInPlace .add "h"
      (.literal (.scalar (.integer 5))))).2.target? (.assign "e" (.literal (.scalar (.integer 9)))) =
        some ⟨0⟩ := by
    cbv
  have hrun : EveryStep (fun s x _ ↦ s.Respects x ⟨1⟩ ⟨0⟩) arrayAndElement appended := by
    refine ⟨hadd, ⟨fun _ _ y hy ↦ absurd hy List.not_mem_nil, by simp [assigned?], fun hi ↦ ?_⟩,
      trivial⟩
    cases htarget.symm.trans hi
  exact element_attached hs hends he hrun (by cbv)

/-- A copy of the array is made, the array is read, and the element is written. -/
def copiedAndRead : List (Step SampleObject) :=
  [.bind "c" (.reference "h"), .subscript "h" (.literal (.scalar (.integer 1))) none,
    .assign "e" (.literal (.scalar (.integer 99)))]

/-- **An element is lost to a copy.**  Nothing is taken out of the array, and the steps that work on
it only read, but afterwards it stores another handle: the write to the element is seen in the copy
and not in the array.  The same happens when the array is extended by its own elements. -/
theorem element_detached :
    arrayAndElement.Reachable ∧ arrayAndElement.references.get? "e" = some (some ⟨0⟩) ∧
      arrayAndElement.heap.ElementAt ⟨1⟩ 0 ⟨0⟩ ∧
      EveryStep (fun s x _ ↦ s.takenPlace? x = none ∧ s.assigned? x = none ∧
        (s.target? x = some ⟨1⟩ → s.Reads x)) arrayAndElement copiedAndRead ∧
      (∀ place, ¬ (arrayAndElement.run copiedAndRead).2.heap.ElementAt ⟨1⟩ place ⟨0⟩) ∧
      (arrayAndElement.run copiedAndRead).2.heap.contents? ⟨1⟩ = some (.array [.scalar (.integer 1)]) ∧
      (arrayAndElement.run copiedAndRead).2.heap.contents? ⟨2⟩ = some (.array [.scalar (.integer 99)]) ∧
      ∀ place, ¬ (arrayAndElement.step (.operateInPlace .add "h" (.reference "h"))).2.heap.ElementAt
        ⟨1⟩ place ⟨0⟩ := by
  refine ⟨?_, by cbv, ?_, ?_, fun place ↦ ?_, by cbv, by cbv, fun place ↦ ?_⟩
  · unfold arrayAndElement
    exact ⟨_, _, rfl⟩
  · exact ⟨⟨0⟩, [⟨0⟩], ⟨⟨.array, ⟨0, 0⟩⟩, .array ⟨0⟩, by cbv, by cbv, rfl⟩, by cbv, rfl⟩
  · refine ⟨⟨by simp only [takenPlace?], by simp only [assigned?], fun _ ↦ by simp only [Reads]⟩,
      ⟨by simp only [takenPlace?], by simp only [assigned?], fun _ ↦ by simp only [Reads]⟩,
      ⟨by simp only [takenPlace?], by simp only [assigned?], fun hi ↦ ?_⟩, trivial⟩
    -- the last step works on the element, not on the array
    have htarget : ((arrayAndElement.step (.bind "c" (.reference "h"))).2.step
        (.subscript "h" (.literal (.scalar (.integer 1))) none)).2.target?
          (.assign "e" (.literal (.scalar (.integer 99)))) = some ⟨0⟩ := by
      cbv
    rw [htarget] at hi
    cases hi
  · exact Heap.not_elementAt [⟨3⟩] ⟨⟨.array, ⟨0, 0⟩⟩, .array ⟨1⟩, by cbv, by cbv, rfl⟩ (by cbv)
      (by decide)
  · exact Heap.not_elementAt [⟨3⟩, ⟨2⟩] ⟨⟨.array, ⟨1, 1⟩⟩, .array ⟨1⟩, by cbv, by cbv, rfl⟩
      (by cbv) (by decide)

end ScriptHeap.Session
