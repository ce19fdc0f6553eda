import ScriptHeap.Heap.Unpack
import ScriptHeap.Proofs.Heap.Making

/-!
# What bringing in data is made of

Data are brought into the heap by very few operations: a handle is bound for each element, a list is
made of the handles, and what is held meanwhile is given up after a fault.  So whatever holds of
these few, and adds up when operations follow each other, holds of data and packed values, too.

## What is here

* `Heap.Additive` — properties of operations that add up.
* `Heap.Additive.plant`, `Heap.Additive.unpack` — they hold of bringing in data and packed values,
  with the number of elements that these have.
-/

set_option autoImplicit false
namespace ScriptHeap

open Packed

variable {Obj : Type}

/-- The data that come of bytes: the value, or what was complete before an error. -/
def Packed.complete : Except (DecodeFailure Obj) (Datum Obj) → List (Datum Obj)
  | .ok d => [d]
  | .error failure => failure.completed

namespace Heap

variable [HostObject Obj]

/-- A property of operations, with a number for each, that adds up where they follow each other and
is not lost where errors are passed on.  New handles have it with one, lists without. -/
structure Additive (P : Nat → (α : Type) → HeapM Obj α → Prop) : Prop where
  pure : ∀ {α : Type} (a : α), P 0 α (Pure.pure a)
  bind : ∀ {α β : Type} {m n : Nat} {act : HeapM Obj α} {f : α → HeapM Obj β}, P m α act →
    (∀ h a t, act h = .ok a t → P n β (f a)) → P (m + n) β (act >>= f)
  passing : ∀ {α : Type} {n : Nat} {act : HeapM Obj α} {g : Fault → HeapM Obj Unit}, P n α act →
    (∀ fault, P 0 Unit (g fault)) → P n α (tryCatch act fun fault ↦ do g fault; throw fault)
  letGo : ∀ xs, P 0 Unit (Heap.letGo xs)
  newList : ∀ is, P 0 ListId (Heap.newList is)
  bindNew : ∀ v, P 1 HandleId (Heap.bindNew v)

theorem length_of_plantAll {ds : List (Datum Obj)} {vs : List (Value Obj)} {h t : Heap Obj}
    (hrun : plantAll ds h = .ok vs t) : vs.length = ds.length := by
  induction ds generalizing vs h with
  | nil =>
    cases hrun
    rfl
  | cons d ds ih =>
    obtain ⟨v, h₁, -, hrest⟩ := bind_eq_ok_iff.1 hrun
    obtain ⟨ws, h₂, hall, hpure⟩ := bind_eq_ok_iff.1 hrest
    cases hpure
    exact congrArg (· + 1) (ih (ok_of_holding hall))

namespace Additive

variable {P : Nat → (α : Type) → HeapM Obj α → Prop} (hP : Additive P)
include hP

theorem holding {α : Type} {n : Nat} {act : HeapM Obj α} (xs : List Hold) (hact : P n α act) :
    P n α (Heap.holding xs act) :=
  hP.passing hact fun _ ↦ hP.letGo xs

theorem bindAllAfter (first : List HandleId) (vs : List (Value Obj)) :
    P vs.length _ (Heap.bindAllAfter first vs) := by
  induction vs generalizing first with
  | nil => exact hP.pure _
  | cons v vs ih =>
    have hfault (_ : Fault) :
        P 0 Unit (do Heap.letGo (handleHolds first); Heap.letGo (vs.flatMap Value.holds)) :=
      hP.bind (hP.letGo _) fun _ _ _ _ ↦ hP.letGo _
    have hone := hP.passing (hP.bindNew v) hfault
    simp only [bind_assoc] at hone
    rw [List.length_cons, Nat.add_comm]
    exact hP.bind hone fun _ i _ _ ↦ ih (i :: first)

theorem newArray (vs : List (Value Obj)) : P vs.length _ (Heap.newArray vs) :=
  hP.bind (hP.bindAllAfter [] vs) fun _ _ _ _ ↦ hP.bind (hP.newList _) fun _ _ _ _ ↦ hP.pure _

theorem newStruct (names : List String) (vs : List (Value Obj)) :
    P vs.length _ (Heap.newStruct names vs) :=
  hP.bind (hP.bindAllAfter [] vs) fun _ _ _ _ ↦ hP.bind (hP.newList _) fun _ _ _ _ ↦ hP.pure _

/-- Data brought in one after another, when each can be. -/
theorem plantAll_of {ds : List (Datum Obj)} (hds : ∀ d ∈ ds, P d.parts _ (Heap.plant d)) :
    P (Datum.innerParts ds) _ (Heap.plantAll ds) := by
  induction ds with
  | nil => exact hP.pure _
  | cons d ds ih =>
    refine hP.bind (hds d List.mem_cons_self) fun _ v _ _ ↦ ?_
    have hrest := ih fun e he ↦ hds e (List.mem_cons_of_mem _ he)
    exact hP.bind (hP.holding _ hrest) fun _ _ _ _ ↦ hP.pure _

/-- **A datum brought in**, with the number of its elements. -/
theorem plant (d : Datum Obj) : P d.parts _ (Heap.plant d) := by
  induction d using Datum.inductionOn with
  | h d ih =>
    cases d with
    | scalar s => exact hP.pure _
    | array ds =>
      rw [Heap.plant, Datum.parts, Datum.partsOfAll_eq]
      refine hP.bind (hP.plantAll_of ih) fun _ vs _ hrun ↦ ?_
      exact length_of_plantAll hrun ▸ hP.newArray vs
    | struct ms ds =>
      have hmembers := hP.plantAll_of fun e he ↦ ih e (List.mem_append_left _ he)
      have hall := hP.plantAll_of fun e he ↦ ih e (List.mem_append_right _ he)
      have hnew {vs ws : List (Value Obj)} (hvs : vs.length = (ms.map (·.2)).length)
          (hws : ws.length = ds.length) : P ((ms.map (·.2)).length + ds.length) _
            (Heap.newStruct (ms.map (·.1)) (vs ++ ws)) := by
        rw [← hvs, ← hws, ← List.length_append]
        exact hP.newStruct _ _
      have hboth := hP.bind hmembers fun _ vs _ hvs ↦
        hP.bind (hP.holding (vs.flatMap Value.holds) hall) fun _ ws _ hws ↦
          hnew (length_of_plantAll hvs) (length_of_plantAll (ok_of_holding hws))
      have hparts : (Datum.struct ms ds).parts = Datum.innerParts (ms.map (·.2)) +
          (Datum.innerParts ds + ((ms.map (·.2)).length + ds.length)) := by
        rw [Datum.parts, Datum.partsOfMembers_eq, Datum.partsOfAll_eq, Datum.partsOfAll_eq]
        omega
      rw [Heap.plant, plantMembers_eq, hparts]
      exact hboth

theorem plantAll (ds : List (Datum Obj)) : P (Datum.innerParts ds) _ (Heap.plantAll ds) :=
  hP.plantAll_of fun d _ ↦ hP.plant d

/-- Also of bytes that hold no value the parts that could be read are brought in. -/
theorem plantDecoded (r : Except (DecodeFailure Obj) (Datum Obj)) :
    P (Datum.innerParts (complete r)) _ (Heap.plantDecoded r) := by
  cases r with
  | ok d => exact hP.bind (n := 0) (hP.plant d) fun _ _ _ _ ↦ hP.pure _
  | error failure =>
    exact hP.bind (n := 0) (hP.plantAll failure.completed) fun _ _ _ _ ↦
      hP.bind (hP.letGo _) fun _ _ _ _ ↦ hP.pure _

/-- **A packed value**, with the number of elements that are complete in it. -/
theorem unpack (bytes : List UInt8) :
    P (Datum.innerParts (complete (Packed.unpack bytes : Except (DecodeFailure Obj) (Datum Obj)))) _
      (Heap.unpack bytes) :=
  hP.plantDecoded _

end Additive

end Heap
end ScriptHeap
