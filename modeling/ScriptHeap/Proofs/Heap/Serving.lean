import ScriptHeap.Heap.Operate
import ScriptHeap.Proofs.Heap.Refusals
import ScriptHeap.Proofs.Heap.Uncapped

/-!
# Operations that can only want for a block

Where the scene rules out the faults of a wrong use, and nothing that is being written is read, an
operation has a result unless a pool has no block left for it.  In a heap whose pools have no cap it
always has one.

## What is here

* `Heap.Serves` — an operation ends as it should unless a pool has no block left.
* `Heap.Unhurried.holding`, `Heap.Unhurried.mapM` and the operations that are made of these.
* `Heap.unhurried_operate`, `ample_operate` — the operators.
* `Heap.unhurried_unpack` — packed values.
-/

set_option autoImplicit false
namespace ScriptHeap

variable {Obj : Type} {α β : Type}

namespace Heap

/-! ## Operations that read nothing that is being written -/

theorem Unhurried.holding {act : HeapM Obj α} (hact : Unhurried act) (xs : List Hold) :
    Unhurried (Heap.holding xs act) :=
  fun h ↦ (hact h).tryCatch fun _ _ hf ↦ .after rfl (.throw hf)

theorem Unhurried.mapM {f : β → HeapM Obj α} (hf : ∀ x, Unhurried (f x)) (xs : List β) :
    Unhurried (xs.mapM f) := by
  induction xs with
  | nil => exact .pure []
  | cons x xs ih =>
    rw [List.mapM_cons]
    exact (hf x).bind fun a ↦ ih.bind fun as ↦ .pure _

theorem unhurried_copy (v : Value Obj) : Unhurried (copy v) :=
  fun _ ↦ trivial

section
variable [HostObject Obj]

theorem unhurried_newHandle (b : BlockId) : Unhurried (newHandle b : HeapM Obj HandleId) :=
  (unhurried_look _).bind fun _ _ ↦ trivial

theorem unhurried_place (v : Value Obj) : Unhurried (place v) := by
  rw [place]
  split
  · refine Unhurried.bind (fun _ ↦ trivial) fun t ↦ ?_
    split
    · exact fun _ ↦ trivial
    · exact (unhurried_allocate _).bind fun _ _ ↦ trivial
  · exact unhurried_allocate v

theorem unhurried_bindNew (v : Value Obj) : Unhurried (bindNew v) :=
  (unhurried_place v).bind unhurried_newHandle

theorem unhurried_duplicateAll (is : List HandleId) :
    Unhurried (duplicateAll is : HeapM Obj (List HandleId)) := by
  refine Unhurried.mapM (fun i ↦ ?_) is
  exact (unhurried_look _).bind fun b ↦ Unhurried.bind (fun _ ↦ trivial) fun _ ↦
    unhurried_newHandle b

theorem unhurried_addition (v : Value Obj) : Unhurried (addition v) := by
  unfold addition
  split
  · exact (unhurried_look _).bind unhurried_duplicateAll
  · exact (unhurried_copy _).bind fun w ↦ (unhurried_bindNew w).bind fun e ↦ .pure [e]

theorem unhurried_ownList (l : ListId) : Unhurried (ownList l : HeapM Obj ListId) := by
  refine (unhurried_look _).bind fun cell ↦ ?_
  split
  · exact .pure l
  · refine (unhurried_duplicateAll _).bind fun is ↦ Unhurried.bind (fun _ ↦ trivial) fun fresh ↦ ?_
    exact Unhurried.bind (fun _ ↦ trivial) fun _ ↦ .pure fresh

theorem unhurried_extended (l : ListId) (added : List HandleId) :
    Unhurried (extended l added : HeapM Obj (Value Obj)) := by
  refine Unhurried.bind (fun _ ↦ trivial) fun _ ↦ (unhurried_ownList l).bind fun m ↦ ?_
  exact (unhurried_look _).bind fun is ↦ Unhurried.bind (fun _ ↦ trivial) fun _ ↦ .pure _

theorem unhurried_operate (op : Operator) (a b : Value Obj) : Unhurried (operate op a b) := by
  unfold operate
  split
  · exact .pure _
  · exact .pure _
  · split
    · exact (unhurried_addition b).bind (unhurried_extended _)
    · exact .pure _
  · exact Unhurried.bind (fun _ ↦ trivial) fun _ ↦ .pure _

theorem unhurried_setValue (i : HandleId) (v : Value Obj) : Unhurried (setValue i v) := by
  refine (unhurried_look _).bind fun b ↦ (unhurried_look _).bind fun old ↦ ?_
  refine Unhurried.bind (fun _ ↦ trivial) fun sole ↦ ?_
  split
  · exact fun _ ↦ trivial
  · exact (unhurried_place v).bind fun b' ↦ (unhurried_look _).bind fun _ _ ↦ trivial

/-! ### Data brought into the heap -/

theorem additive_unhurried : Additive fun _ α (act : HeapM Obj α) ↦ Unhurried act where
  pure := .pure
  bind hact hf h := (hact h).known.bind fun a t ⟨_, hrun⟩ ↦ hf h a t hrun t
  passing hact hg h := (hact h).tryCatch fun fault t hfault ↦
    (hg fault t).bind fun _ _ _ ↦ .throw hfault
  letGo _ _ := trivial
  newList _ _ := trivial
  bindNew := unhurried_bindNew

theorem unhurried_unpack (bytes : List UInt8) :
    Unhurried (unpack bytes : HeapM Obj (Except Packed.DecodeError (Value Obj))) :=
  additive_unhurried.unpack bytes

end

/-! ## Operations that end as they should -/

variable {h : Heap Obj} {ys : List Hold} {act : HeapM Obj α} {good : α → Heap Obj → Prop}

/-- An operation ends as it should unless a pool has no block left. -/
def Serves (act : HeapM Obj α) (h : Heap Obj) (good : α → Heap Obj → Prop) : Prop :=
  Ends act h good fun f _ ↦ OutOfBlocks f

/-- Where there are blocks enough the operation has a result. -/
theorem Serves.exists_ok (hact : Serves act h good) (hplenty : ¬ Exhausts act h) :
    ∃ x g, act h = .ok x g ∧ good x g := by
  cases hrun : act h with
  | ok x g => exact ⟨x, g, rfl, hact.get hrun⟩
  | error f g =>
    rw [Serves, Ends, hrun] at hact
    obtain ⟨pool, capacity, rfl⟩ := hact
    exact (hplenty ⟨pool, capacity, g, hrun⟩).elim

/-- In a scene in which elements are taken out with their names, an operation that reads nothing
that is being written can only want for a block. -/
theorem Serves.of_ends [HostObject Obj] {c : Scene Obj} {made : List HandleId}
    (hact : Ends act h good (c.Faults made ys)) (hnamed : c.named) (hcalm : Unhurried act) :
    Serves act h good := by
  refine (hact.and (hcalm h)).mono (fun _ _ hh ↦ hh.1) ?_
  rintro f t ⟨⟨-, hf⟩, hbusy⟩
  cases f with
  | exhausted pool capacity => exact ⟨pool, capacity, rfl⟩
  | busy => exact (hbusy rfl).elim
  | unnamedPlace place names => exact (hf hnamed).elim
  | nullReference => exact hf.elim
  | dangling => exact hf.elim

end Heap

/-! ## Operators where no pool has a cap -/

namespace Ample

theorem mapM {f : β → HeapM Obj α} (hf : ∀ x, Ample (f x)) (xs : List β) : Ample (xs.mapM f) := by
  induction xs with
  | nil => exact .pure []
  | cons x xs ih =>
    rw [List.mapM_cons]
    exact (hf x).bind fun a ↦ ih.bind fun as ↦ .pure _

end Ample

theorem ample_copy (v : Value Obj) : Ample (Heap.copy v) :=
  (Ample.hold _).bind fun _ ↦ .pure v

section
variable [HostObject Obj]

theorem ample_duplicateAll (is : List HandleId) :
    Ample (Heap.duplicateAll is : HeapM Obj (List HandleId)) := by
  refine Ample.mapM (fun i ↦ ?_) is
  exact (Ample.look _).bind fun b ↦ (Ample.hold _).bind fun _ ↦ (Ample.look _).bind fun w ↦
    .modifyGet fun _ hu ↦ hu

theorem ample_addition (v : Value Obj) : Ample (Heap.addition v) := by
  unfold Heap.addition
  split
  · exact (Ample.look _).bind ample_duplicateAll
  · exact (ample_copy _).bind fun w ↦ (ample_bindNew w).bind fun e ↦ .pure [e]

theorem ample_ownList (l : ListId) : Ample (Heap.ownList l : HeapM Obj ListId) := by
  refine (Ample.look _).bind fun cell ↦ ?_
  split
  · exact .pure l
  · refine (ample_duplicateAll _).bind fun is ↦ (ample_newList is).bind fun fresh ↦ ?_
    exact (Ample.letGo _).bind fun _ ↦ .pure fresh

theorem ample_extended (l : ListId) (added : List HandleId) :
    Ample (Heap.extended l added : HeapM Obj (Value Obj)) := by
  refine (Ample.hold _).bind fun _ ↦ (ample_ownList l).bind fun m ↦ (Ample.look _).bind fun is ↦ ?_
  exact Ample.bind (.modify fun _ hu ↦ hu) fun _ ↦ .pure _

theorem ample_operate (op : Operator) (a b : Value Obj) : Ample (Heap.operate op a b) := by
  unfold Heap.operate
  split
  · exact .pure _
  · exact .pure _
  · split
    · exact (ample_addition b).bind (ample_extended _)
    · exact .pure _
  · exact Ample.bind (fun h hu ↦ .of_ok (Scene.get_eq h) hu) fun _ ↦ .pure _

end

end ScriptHeap
