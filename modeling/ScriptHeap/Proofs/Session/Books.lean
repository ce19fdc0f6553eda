import ScriptHeap.Proofs.Session.Steps

/-!
# Sessions that steps lead to

Every step of a session is watched at a scene of its own: what all registers hold is outside, and
the variable that the step works on may be written.  A step may end with a fault, but it ends, and
with all counts right; so they are right along every run.

## What is here

* `Session.Books` — all counts of a session are right.
* `Session.Regular` — every struct in a session has a name for each element.
* `Session.Tends`, `Session.Takes` — a step that leaves its variable the element list, and the
  element that it may take out.
* `Scene.ofStep`, `Scene.settled_step` — the scene of a step, at which it is over in the end.
* `Session.fault?`, `Scene.foreseen_step` — the faults that steps end with.
* `Session.Reachable`, `Session.Reachable.books` — the sessions that steps lead to.
-/

set_option autoImplicit false
namespace ScriptHeap

variable {Obj : Type}

/-! ## At the beginning -/

namespace Heap

theorem cell?_empty (config : HeapConfig) (x : Hold) :
    (empty config : Heap Obj).cell? x = none := by
  have hpool (name : PoolName) : (empty config : Heap Obj).pools.get name = .empty config.limits := by
    cases name <;> rfl
  cases x with
  | block b =>
    rw [cell?, find?, hpool]
    simp [Pool.find?, Pool.empty]
  | handle i => simp [cell?, handle?, empty]
  | list l => simp [cell?, list?, empty]

theorem sound_empty (config : HeapConfig) : (empty config : Heap Obj).Sound [] := by
  have huses (x : Hold) : (empty config : Heap Obj).uses x = 0 := by
    have hholds (y : Hold) : (empty config : Heap Obj).holdsOf y = [] := by
      rw [holdsOf, content?_eq_none (cell?_empty config y)]
      rfl
    have hown : (empty config : Heap Obj).ownHolds = [] := rfl
    simp [uses, hholds, hown]
  have hblank (b : BlockId) : (empty config : Heap Obj).blank ≠ some b := by
    simp [empty]
  refine ⟨fun name ↦ ?_, fun x ↦ ?_, fun i ↦ ?_, fun b hb ↦ absurd hb (hblank b),
    fun b hb ↦ absurd hb (hblank b), fun x hx ↦ ?_⟩
  · cases name <;> exact Pool.tidy_empty _
  · rw [count_eq_zero (cell?_empty config x), huses]
    rfl
  · rw [huses]
    exact Nat.zero_le _
  · rw [content?_eq_none (cell?_empty config x)] at hx
    cases hx

/-- Nothing holds anything. -/
theorem not_endless_empty (config : HeapConfig) : ¬ (empty config : Heap Obj).Endless := by
  rintro ⟨x, y, hy, -⟩
  rw [holdsOf, content?_eq_none (cell?_empty config x)] at hy
  cases hy

end Heap

namespace Session

/-- All counts of a session are right. -/
def Books (s : Session Obj) : Prop :=
  s.heap.Sound s.holds

theorem books_start (config : HeapConfig) : (start config : Session Obj).Books :=
  Heap.sound_empty config

/-- Every struct in a block or in a value register has a name for each element. -/
structure Regular (s : Session Obj) : Prop where
  heap : s.heap.Regular
  values : ∀ v, Stored.own v ∈ s.values.contents → s.heap.Matched v

theorem regular_start (config : HeapConfig) : (start config : Session Obj).Regular where
  heap b v hv := by
    have hnone : (start config : Session Obj).heap.content? (.block b) = none :=
      Heap.content?_eq_none (Heap.cell?_empty config _)
    rw [Heap.content?_block.2 hv] at hnone
    cases hnone
  values v hv := absurd hv List.not_mem_nil

end Session

/-! ## The scene of a step -/

variable [HostObject Obj]

namespace Session

/-- A step works on a variable that has an element list for itself, and leaves it that list. -/
structure Tends (s : Session Obj) (x : Step Obj) (i : HandleId) (l : ListId) : Prop where
  target : s.target? x = some i
  owns : s.heap.Owns i l
  retains : s.Retains x i
  grounded : ¬ s.heap.Endless
  apart : s.Apart x

/-- An element stands where a step takes one out. -/
def Takes (s : Session Obj) (x : Step Obj) (e : HandleId) : Prop :=
  ∃ i l is place, s.target? x = some i ∧ s.heap.Stores i l ∧ s.heap.elements? l = some is ∧
    s.takenPlace? x = some place ∧ is[place]? = some e

end Session

namespace Scene

/-- The scene of a step. -/
def ofStep {s : Session Obj} (hs : s.Books) (x : Step Obj) : Scene Obj where
  before := s.heap
  holds := s.holds
  sound := hs
  outside := s.holds
  blocked i := s.target? x = some i
  spared i := s.assigned? x = some i → s.heap.uses (.handle i) = 0
  reads := s.Reads x
  unseen := s.Reads x ∨ Exhausts (Session.apply x) s
  regular := s.Regular ∧ s.Orderly x
  regular_before hr := hr.1.heap
  named := s.Regular ∧ s.Orderly x
  acyclic := ¬ s.heap.Endless ∧ s.Apart x
  acyclic_before hac := hac.1
  single := s.heap.OneBlank ∧ s.Valued x ∧ ∀ o : Obj, HostObject.kind o ≠ .uninit
  single_before hone := hone.1
  single_kind hone := hone.2.2
  strays := ∃ r ∈ x.followed, (s.references.get? r).join = none
  tied := s.Tends x
  tied_before _ _ ht := ⟨⟨ht.grounded, ht.apart⟩, ht.owns.stores⟩
  leaves := s.Takes x

variable {s : Session Obj}

theorem fits_ofStep (hs : s.Books) (x : Step Obj) : (ofStep hs x).Fits s x where
  target _ hi := hi
  assigned _ he hspared := hspared he
  reads hread := hread
  unseen hunseen := hunseen
  orderly hr := hr.2
  named hn := hn
  apart hac := hac.2
  valued hone := hone.2.1
  strays hnone := hnone
  only _ _ ht := ht.target
  retains _ _ ht := ht.retains
  yields place hplace i l ht is _ hl he :=
    ⟨i, l, is, place, ht.target, ht.owns.stores, hl, hplace, he⟩

/-- A step begins at its scene. -/
theorem begins_ofStep (hs : s.Books) (x : Step Obj) : (ofStep hs x).Begins [] [] s where
  stands := ⟨At.start (.refl _), .refl _, fun hr ↦ hr.1.values⟩
  adds := .refl _
  born _ hy := Heap.Sound.born_of_mem hs hy
  sole i l ht := by
    obtain ⟨b, v, hi, hblock, -, -, hlist⟩ := ht.owns
    exact ⟨b, hi, hblock, hlist⟩

end Scene

/-- The fault that a step ends with. -/
def Session.fault? (s : Session Obj) (x : Step Obj) : Option Fault :=
  match Session.apply x s with
  | .ok _ _ => none
  | .error fault _ => some fault

namespace Scene

variable {s : Session Obj}

/-- Every step is over at its scene. -/
theorem settled_step (hs : s.Books) (x : Step Obj) : (ofStep hs x).Settled [] (s.step x).2 := by
  have hplays := (begins_ofStep hs x).plays (fits_ofStep hs x)
  rw [Session.step]
  unfold Plays Ends at hplays
  split at hplays
  · rename_i a t hrun
    rw [hrun]
    exact hplays
  · rename_i fault t hrun
    rw [hrun]
    exact hplays.1

/-- Every fault is one that may be foreseen. -/
theorem foreseen_step (hs : s.Books) {x : Step Obj} {f : Fault} (hf : s.fault? x = some f) :
    (ofStep hs x).Foreseen (s.step x).2.heap f := by
  have hplays := (begins_ofStep hs x).plays (fits_ofStep hs x)
  rw [Session.fault?] at hf
  rw [Session.step]
  unfold Plays Ends at hplays
  split at hplays
  · rename_i a t hrun
    rw [hrun] at hf
    cases hf
  · rename_i fault t hrun
    rw [hrun] at hf ⊢
    cases hf
    exact hplays.2

end Scene

/-! ## Along a run -/

namespace Session

/-- A session that steps lead to. -/
def Reachable (s : Session Obj) : Prop :=
  ∃ config xs, s = ((start config).run xs).2

variable {s : Session Obj}

theorem Books.step (hs : s.Books) (x : Step Obj) : (s.step x).2.Books :=
  (Scene.settled_step hs x).done.sound

theorem Books.run (hs : s.Books) (xs : List (Step Obj)) : (s.run xs).2.Books := by
  induction xs generalizing s with
  | nil => exact hs
  | cons x xs ih => exact ih (hs.step x)

/-- **All counts are right after every run.** -/
theorem Reachable.books (hs : s.Reachable) : s.Books := by
  obtain ⟨config, xs, rfl⟩ := hs
  exact (books_start config).run xs

/-- An orderly step keeps a session regular. -/
theorem Regular.step (hr : s.Regular) (hs : s.Books) {x : Step Obj} (hx : s.Orderly x) :
    (s.step x).2.Regular :=
  ⟨(Scene.settled_step hs x).done.regular ⟨hr, hx⟩, (Scene.settled_step hs x).values ⟨hr, hx⟩⟩

end Session
end ScriptHeap
