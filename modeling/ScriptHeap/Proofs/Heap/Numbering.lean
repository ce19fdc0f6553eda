import ScriptHeap.Proofs.Heap.Course
import ScriptHeap.Proofs.Packed.Spending

/-!
# How many handles are made

Handles get their numbers in order, so the next number says how many were ever made, those included
that are gone.  Bringing in data makes a handle for each element and none besides, and so bytes that
are to hold a value never lead to more handles than bytes were read, whatever they say of
themselves.

## What is here

* `Heap.MakesAtMost` — an operation makes so many handles at most, however it ends; with a rule for
  each way to put operations together.
* `Heap.additive_makesAtMost`, `Heap.makesAtMost_unpack` — data and packed values.
-/

set_option autoImplicit false
namespace ScriptHeap

variable {Obj α β : Type}

namespace Packed

/-- **What is complete in bytes** has no more elements than bytes were read. -/
theorem innerParts_complete_le (bytes : List UInt8) :
    Datum.innerParts (complete (unpack bytes : Except (DecodeFailure Obj) (Datum Obj))) ≤
      consumed Obj bytes := by
  have hends := ends_decode Obj bytes
  have hone (d : Datum Obj) : Datum.innerParts [d] = d.parts := Nat.add_zero _
  unfold unpack consumed
  rw [EStateM.run]
  cases hrun : (decode : Decoder Obj (Datum Obj)) (.ofBytes bytes) with
  | ok d t =>
    have hparts := (hends.get hrun).1
    dsimp only
    split
    · rw [complete, hone]
      omega
    · rw [complete, hone]
      omega
  | error failure t =>
    rw [Ends, hrun] at hends
    exact hends.1

end Packed

namespace Heap

/-! ## Operations and their handles -/

/-- An operation makes so many handles at most, also where it ends with a fault. -/
def MakesAtMost (n : Nat) (act : HeapM Obj α) : Prop :=
  Within (fun h t ↦ t.handles.next ≤ h.handles.next + n) act

namespace MakesAtMost

variable {m n : Nat} {act : HeapM Obj α} {f : α → HeapM Obj β}

theorem pure (a : α) : MakesAtMost 0 (Pure.pure a : HeapM Obj α) :=
  fun _ ↦ .pure (Nat.le_refl _)

theorem throw (fault : Fault) : MakesAtMost 0 (MonadExcept.throw fault : HeapM Obj α) :=
  fun _ ↦ .throw (Nat.le_refl _)

theorem mono (hact : MakesAtMost m act) (hle : m ≤ n) : MakesAtMost n act := by
  have hmore {h t : Heap Obj} (ht : t.handles.next ≤ h.handles.next + m) :
      t.handles.next ≤ h.handles.next + n :=
    ht.trans (Nat.add_le_add_left hle _)
  exact fun h ↦ (hact h).mono (fun _ _ ↦ hmore) fun _ _ ↦ hmore

/-- One operation after another, where the result of the first is known. -/
theorem bindKnown (hact : MakesAtMost m act)
    (hf : ∀ h a t, act h = .ok a t → MakesAtMost n (f a)) : MakesAtMost (m + n) (act >>= f) := by
  intro h
  have hsum {t u : Heap Obj} (ht : t.handles.next ≤ h.handles.next + m)
      (hu : u.handles.next ≤ t.handles.next + n) : u.handles.next ≤ h.handles.next + (m + n) := by
    omega
  refine ((hact h).known.mono (fun _ _ hh ↦ hh) fun _ _ ht ↦ ?_).bind fun a t ⟨ht, hrun⟩ ↦ ?_
  · exact hsum ht (Nat.le_add_right _ _)
  · exact (hf h a t hrun t).mono (fun _ _ ↦ hsum ht) fun _ _ ↦ hsum ht

theorem bind (hact : MakesAtMost m act) (hf : ∀ a, MakesAtMost n (f a)) :
    MakesAtMost (m + n) (act >>= f) :=
  hact.bindKnown fun _ a _ _ ↦ hf a

/-- A change of the heap that makes no handle. -/
theorem modifyGet {g : Heap Obj → α × Heap Obj}
    (hg : ∀ h, (g h).2.handles.next = h.handles.next) :
    MakesAtMost 0 (MonadStateOf.modifyGet g : HeapM Obj α) :=
  Within.modifyGet fun h ↦ Nat.le_of_eq (hg h)

/-- An operation after whose faults something is given up. -/
theorem tryCatch {g : Fault → HeapM Obj α} (hact : MakesAtMost n act)
    (hg : ∀ fault, MakesAtMost 0 (g fault)) : MakesAtMost n (tryCatch act g) :=
  fun h ↦ Ends.tryCatch (hact h) fun fault t ht ↦
    (hg fault t).mono (fun _ _ hu ↦ hu.trans ht) fun _ _ hu ↦ hu.trans ht

end MakesAtMost

/-! ## Operations that make none -/

theorem makesAtMost_look (f : Heap Obj → Option α) : MakesAtMost 0 (look f) := by
  intro h
  refine Ends.after (Scene.get_eq h) ?_
  split
  · exact .pure (Nat.le_refl _)
  · exact .throw (Nat.le_refl _)

theorem makesAtMost_hold (xs : List Hold) : MakesAtMost 0 (hold xs : HeapM Obj Unit) :=
  .modifyGet fun h ↦ (h.sameNotes_retain xs).next

theorem makesAtMost_letGo (xs : List Hold) : MakesAtMost 0 (letGo xs : HeapM Obj Unit) :=
  .modifyGet fun h ↦ (h.sameNotes_release xs).next

theorem makesAtMost_newList (is : List HandleId) :
    MakesAtMost 0 (newList is : HeapM Obj ListId) :=
  .modifyGet fun _ ↦ rfl

variable [HostObject Obj]

theorem makesAtMost_allocate (v : Value Obj) : MakesAtMost 0 (allocate v) := by
  intro h
  cases hfull : (h.pools.get (PoolName.ofKind v.kind)).isExhausted with
  | true =>
    exact .of_error (Scene.allocate_of_exhausted hfull) (Nat.le_of_eq (h.sameNotes_release _).next)
  | false => exact .of_ok (Scene.allocate_of_free hfull) (Nat.le_refl _)

theorem makesAtMost_place (v : Value Obj) : MakesAtMost 0 (place v) := by
  rw [place]
  split
  · intro h
    refine Ends.after (Scene.get_eq h) ?_
    split
    · exact ((makesAtMost_hold _).bind fun _ ↦ .pure _) h
    · exact ((makesAtMost_allocate _).bind fun b ↦ (makesAtMost_hold _).bind fun _ ↦
        MakesAtMost.bind (.modifyGet fun _ ↦ rfl) fun _ ↦ .pure b) h
  · exact makesAtMost_allocate v

/-! ## Data brought in -/

/-- Here a handle is made, and nowhere else. -/
theorem makesAtMost_newHandle (b : BlockId) :
    MakesAtMost 1 (newHandle b : HeapM Obj HandleId) := by
  have hadd (v : Value Obj) :
      MakesAtMost 1 (modifyGet fun h ↦ h.addHandle b v.kind : HeapM Obj HandleId) :=
    Within.modifyGet fun _ ↦ Nat.le_of_eq (Table.next_insert _ _)
  exact (makesAtMost_look _).bind hadd

theorem makesAtMost_bindNew (v : Value Obj) : MakesAtMost 1 (bindNew v) :=
  (makesAtMost_place v).bind makesAtMost_newHandle

/-- Bringing in data makes a handle for each element, and no other. -/
theorem additive_makesAtMost : Additive fun n α (act : HeapM Obj α) ↦ MakesAtMost n act where
  pure := .pure
  bind hact hf := hact.bindKnown hf
  passing hact hg := hact.tryCatch fun fault ↦ (hg fault).bind fun _ ↦ .throw fault
  letGo := makesAtMost_letGo
  newList := makesAtMost_newList
  bindNew := makesAtMost_bindNew

open Packed in
/-- **Bytes make no more handles than are read of them.** -/
theorem makesAtMost_unpack (bytes : List UInt8) :
    MakesAtMost (consumed Obj bytes)
      (unpack bytes : HeapM Obj (Except DecodeError (Value Obj))) :=
  (additive_makesAtMost.unpack bytes).mono (innerParts_complete_le bytes)

end Heap
end ScriptHeap
