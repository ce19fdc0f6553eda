import ScriptHeap.Proofs.Session.Frame
import ScriptHeap.Proofs.Session.Wellformed

/-!
# Steps for which there is no block

A step makes all the blocks that it needs before it writes anything that others can see, and it
fills and empties registers only when it needs no more.  So where a pool has no block to give, the
step ends without a trace: the registers are as they were, all that they lead to shows what it
showed, and of what the step had made for itself the blocks are given back.

## What is here

* `Session.SameRegisters` — two sessions that differ in their heaps alone.
* `Session.Leaves`, `Session.Retreats` — operations that leave the registers alone, always or where
  they end for want of a block; with a rule for each part of a step.
* `Session.Arises` — the sessions that steps and packed values lead to.
* `Session.Untouched` — what is left of a session after a step for which there was no block.
* `Session.exhausted_untouched` — that is how every such step leaves it.
-/

set_option autoImplicit false
namespace ScriptHeap

variable {Obj : Type}

namespace Session

/-! ## Registers left alone -/

/-- Two sessions that differ in their heaps alone. -/
def SameRegisters (s t : Session Obj) : Prop :=
  t = { s with heap := t.heap }

variable {α β : Type} {act : SessionM Obj α} {f : α → SessionM Obj β}

theorem SameRegisters.trans {s t u : Session Obj} (ht : s.SameRegisters t) (hu : t.SameRegisters u) :
    s.SameRegisters u := by
  rw [SameRegisters] at ht hu ⊢
  rw [hu, ht]

instance : IsPreorder (Session Obj) SameRegisters where
  refl _ := rfl
  trans _ _ _ := SameRegisters.trans

/-- An operation that leaves the registers alone. -/
def Leaves (act : SessionM Obj α) : Prop :=
  ∀ s, Ends act s (fun _ t ↦ s.SameRegisters t) fun _ t ↦ s.SameRegisters t

/-- An operation that leaves the registers alone where it ends for want of a block. -/
def Retreats (act : SessionM Obj α) : Prop :=
  ∀ s pool capacity t, act s = .error (.exhausted pool capacity) t → s.SameRegisters t

theorem Leaves.pure (a : α) : Leaves (pure a : SessionM Obj α) :=
  Within.pure a

theorem Leaves.throw (e : Fault) : Leaves (throw e : SessionM Obj α) :=
  Within.throw e

theorem Leaves.get : Leaves (get : SessionM Obj (Session Obj)) :=
  Within.get

theorem Leaves.bind (hact : Leaves act) (hf : ∀ a, Leaves (f a)) : Leaves (act >>= f) :=
  Within.bind hact hf

theorem Leaves.mapM {γ : Type} {g : γ → SessionM Obj α} (hg : ∀ x, Leaves (g x)) (xs : List γ) :
    Leaves (xs.mapM g) :=
  Within.mapM hg xs

theorem leaves_onHeap (act : HeapM Obj α) : Leaves (onHeap act) := by
  intro s
  cases hrun : act s.heap with
  | ok a h => exact Ends.of_ok (onHeap_of_ok hrun) rfl
  | error e h => exact Ends.of_error (onHeap_of_error hrun) rfl

theorem Leaves.holding (xs : List Hold) (hact : Leaves act) : Leaves (holding xs act) :=
  Within.tryCatch hact fun e ↦ (leaves_onHeap (Heap.letGo xs)).bind fun _ ↦ .throw e

theorem Leaves.retreats (hact : Leaves act) : Retreats act := by
  intro s pool capacity t hrun
  have hs := hact s
  rwa [Ends, hrun] at hs

/-- An operation that needs no block does not end for want of one. -/
theorem retreats_of_frugal (hact : Frugal act) : Retreats act :=
  fun s pool capacity t hrun ↦ (hact s ⟨pool, capacity, t, hrun⟩).elim

theorem Leaves.andThen (hact : Leaves act) (hf : ∀ a, Retreats (f a)) : Retreats (act >>= f) := by
  intro s pool capacity u hrun
  have hs := hact s
  cases ha : act s with
  | ok a t =>
    rw [Ends, ha] at hs
    exact hs.trans (hf a t pool capacity u ((bind_of_ok ha).symm.trans hrun))
  | error e t =>
    rw [Ends, ha] at hs
    cases (bind_of_error ha).symm.trans hrun
    exact hs

theorem Retreats.andThen (hact : Retreats act) (hf : ∀ a, Frugal (f a)) : Retreats (act >>= f) := by
  intro s pool capacity u hrun
  cases ha : act s with
  | ok a t => exact (hf a t ⟨pool, capacity, u, (bind_of_ok ha).symm.trans hrun⟩).elim
  | error e t =>
    cases (bind_of_error ha).symm.trans hrun
    exact hact s pool capacity u ha

theorem Retreats.during (xs : List Hold) (hact : Retreats act) : Retreats (during xs act) := by
  refine Retreats.andThen (fun s pool capacity u hrun ↦ ?_) fun a ↦ ?_
  · cases ha : act s with
    | ok a t => cases (tryCatch_of_ok ha).symm.trans hrun
    | error e t =>
      cases (tryCatch_of_error ha).symm.trans hrun
      exact (hact s pool capacity t ha).trans rfl
  · exact fun s ↦ not_exhausts_of_ok rfl

/-! ## Parts of steps -/

theorem leaves_reference (name : String) : Leaves (reference name : SessionM Obj _) :=
  Leaves.get.bind fun _ ↦ .pure _

theorem leaves_deref (name : String) : Leaves (deref name : SessionM Obj _) := by
  refine (leaves_reference name).bind fun r ↦ ?_
  cases r with
  | some i => exact .pure i
  | none => exact .throw _

theorem leaves_shareReference (name : String) : Leaves (shareReference name : SessionM Obj _) :=
  (leaves_reference name).bind fun _ ↦ (leaves_onHeap _).bind fun _ ↦ .pure _

theorem leaves_storedValue (x : Stored Obj) : Leaves (storedValue x) := by
  cases x with
  | own v => exact .pure v
  | snapshot b => exact leaves_onHeap _

/-- An operation on the heap, and what comes after it. -/
theorem retreats_onHeap (act : HeapM Obj α) (hf : ∀ a, Retreats (f a)) :
    Retreats (onHeap act >>= f) :=
  (leaves_onHeap act).andThen hf

/-- An operation on the variable of a step. -/
theorem retreats_deref {f : HandleId → SessionM Obj α} (r : String) (hf : ∀ i, Retreats (f i)) :
    Retreats (deref r >>= f) :=
  (leaves_deref r).andThen hf

theorem frugal_keepReference (name : String) (r : Option HandleId) :
    Frugal (keepReference name r : SessionM Obj Unit) :=
  fun _ ↦ not_exhausts_of_ok rfl

theorem frugal_keepValue (name : String) (x : Stored Obj) : Frugal (keepValue name x) :=
  fun _ ↦ not_exhausts_of_ok rfl

theorem frugal_keepBlock (name : String) (b : BlockId) :
    Frugal (keepBlock name b : SessionM Obj Unit) :=
  fun _ ↦ not_exhausts_of_ok rfl

theorem frugal_keepCursor (name : String) (c : Cursor) :
    Frugal (keepCursor name c : SessionM Obj Unit) :=
  fun _ ↦ not_exhausts_of_ok rfl

/-- A register that is filled when no more blocks are needed. -/
theorem retreats_thenPure {act : SessionM Obj Unit} (hact : Frugal act) (a : α) :
    Retreats (do act; return a) :=
  retreats_of_frugal (hact.bind fun _ ↦ .pure a)

theorem retreats_deliver (into : Option String) (r : Option HandleId) :
    Retreats (deliver into r : SessionM Obj (Answer Obj)) :=
  retreats_of_frugal (frugal_deliver into r)

/-! ## Elements -/

theorem leaves_listOf? (i : HandleId) : Leaves (listOf? i : SessionM Obj _) :=
  (leaves_onHeap _).bind fun _ ↦ .pure _

theorem leaves_elementsOf (i : HandleId) : Leaves (elementsOf i : SessionM Obj _) := by
  refine (leaves_listOf? i).bind fun l ↦ ?_
  cases l with
  | some l => exact leaves_onHeap _
  | none => exact .pure []

theorem leaves_elementAt (i : HandleId) (place : Option Nat) :
    Leaves (elementAt i place : SessionM Obj _) :=
  (leaves_elementsOf i).bind fun _ ↦ (leaves_onHeap _).bind fun _ ↦ .pure _

theorem leaves_placeOf? (i : HandleId) (name : String) :
    Leaves (placeOf? i name : SessionM Obj _) :=
  (leaves_onHeap _).bind fun _ ↦ .pure _

variable [HostObject Obj]

theorem leaves_ownElementAt (i : HandleId) (place : Option Nat) :
    Leaves (ownElementAt i place : SessionM Obj _) := by
  refine (leaves_onHeap _).bind fun b ↦ ?_
  cases place with
  | none => exact .pure none
  | some place =>
    refine (leaves_elementsOf i).bind fun is ↦ ?_
    dsimp only
    split
    · refine (leaves_onHeap _).bind fun l ↦ ?_
      cases l with
      | some l => exact (leaves_onHeap _).bind fun _ ↦ (leaves_onHeap _).bind fun _ ↦ .pure _
      | none => exact .pure none
    · exact .pure none

/-! ## Operands -/

theorem leaves_operandValue (x : Operand Obj) : Leaves (operandValue x) := by
  cases x with
  | literal d => exact (leaves_onHeap _).bind fun _ ↦ .pure _
  | reference name =>
    exact (leaves_deref name).bind fun _ ↦ (leaves_onHeap _).bind fun _ ↦
      (leaves_onHeap _).bind fun _ ↦ .pure _
  | register name =>
    refine Leaves.get.bind fun s ↦ ?_
    cases s.values.get? name with
    | some x => exact (leaves_storedValue x).bind fun _ ↦ .pure _
    | none => exact .pure _

theorem leaves_operandCopy (x : Operand Obj) : Leaves (operandCopy x) :=
  (leaves_operandValue x).bind fun _ ↦ (leaves_onHeap _).bind fun _ ↦
    (leaves_onHeap _).bind fun _ ↦ .pure _

theorem retreats_withOperand {x : Operand Obj} {f : Value Obj → SessionM Obj α}
    (hf : ∀ v, Retreats (f v)) : Retreats (withOperand x f) := by
  refine (leaves_operandValue x).andThen ?_
  rintro ⟨v, zs⟩
  exact (hf v).during zs

theorem retreats_withOperands {x y : Operand Obj} {f : Value Obj → Value Obj → SessionM Obj α}
    (hf : ∀ v w, Retreats (f v w)) : Retreats (withOperands x y f) :=
  retreats_withOperand fun v ↦ retreats_withOperand fun w ↦ hf v w

theorem retreats_withArguments {xs : List (Argument Obj)}
    {f : List (Option HandleId) → SessionM Obj α} (hf : ∀ rs, Retreats (f rs)) :
    Retreats (withArguments xs f) := by
  induction xs generalizing f with
  | nil => exact hf []
  | cons x xs ih =>
    cases x with
    | reference name =>
      exact (leaves_shareReference name).andThen fun r ↦ (ih fun rs ↦ hf (r :: rs)).during _
    | operand x =>
      refine (leaves_operandCopy x).andThen fun v ↦ retreats_onHeap _ fun i ↦ ?_
      exact (ih fun rs ↦ hf (some i :: rs)).during _

theorem retreats_applyCall {r : String} {args : List (Argument Obj)}
    {answers : Option (List (Method × Datum Obj))} {target : Option String}
    {act : HandleId → Heap.Caller Obj → HeapM Obj (Heap.CallOutcome Obj)} :
    Retreats (applyCall r args answers target act) := by
  refine retreats_onHeap _ fun vs ↦ Retreats.during _ (retreats_withArguments fun rs ↦ ?_)
  refine retreats_deref r fun i ↦ retreats_onHeap _ fun outcome ↦ retreats_of_frugal ?_
  obtain ⟨asked, result⟩ := outcome
  cases result with
  | ok v => exact (frugal_deliverValue target v).bind fun _ ↦ .pure _
  | error e => exact .pure _

/-! ## Every step -/

/-- Steps on elements leave the registers alone where there is no block. -/
theorem retreats_applyElements (r : String) (into : Option String) (x : ElementStep Obj) :
    Retreats (applyElements r into x) := by
  cases x with
  | position n =>
    exact retreats_deref r fun i ↦ (leaves_elementAt i _).andThen fun e ↦ retreats_deliver into e
  | member name =>
    exact retreats_deref r fun i ↦ (leaves_placeOf? i name).andThen fun place ↦
      (leaves_elementAt i place).andThen fun e ↦ retreats_deliver into e
  | values =>
    refine retreats_deref r fun i ↦ Leaves.retreats ?_
    exact (leaves_elementsOf i).bind fun is ↦
      (Leaves.mapM (fun _ ↦ leaves_onHeap _) is).bind fun _ ↦ .pure _
  | names =>
    refine retreats_deref r fun i ↦ retreats_onHeap _ fun v ↦ Leaves.retreats ?_
    split
    · exact .pure _
    · exact .pure _
  | positionOf v =>
    rw [applyElements]
    refine retreats_withOperand fun needle ↦ retreats_deref r fun i ↦ Leaves.retreats ?_
    refine (leaves_listOf? i).bind fun l ↦ ?_
    cases l with
    | some l => exact Leaves.get.bind fun _ ↦ .pure _
    | none => exact .pure _
  | isShared =>
    refine retreats_deref r fun i ↦ Leaves.retreats ((leaves_listOf? i).bind fun l ↦ ?_)
    cases l with
    | some l => exact (leaves_onHeap _).bind fun _ ↦ .pure _
    | none => exact .pure _
  | ownPosition n =>
    exact retreats_deref r fun i ↦ (leaves_ownElementAt i _).andThen fun e ↦ retreats_deliver into e
  | ownMember name =>
    exact retreats_deref r fun i ↦ (leaves_placeOf? i name).andThen fun place ↦
      (leaves_ownElementAt i place).andThen fun e ↦ retreats_deliver into e
  | renew =>
    exact retreats_deref r fun i ↦ retreats_onHeap _ fun _ ↦ retreats_deliver into none
  | extend v =>
    rw [applyElements]
    exact retreats_withOperand fun v ↦ retreats_deref r fun i ↦ retreats_onHeap _ fun _ ↦
      retreats_deliver into none
  | rotate =>
    exact retreats_deref r fun i ↦ retreats_onHeap _ fun _ ↦ retreats_deliver into none
  | remove place =>
    exact retreats_deref r fun i ↦ retreats_onHeap _ fun e ↦ retreats_deliver into e

/-- A register that is emptied, if it is there. -/
theorem retreats_drop (r : String) : Retreats (apply (.drop r : Step Obj)) := by
  refine Leaves.get.andThen fun s ↦ retreats_of_frugal ?_
  cases s.references.get? r with
  | some old => exact fun _ ↦ not_exhausts_of_ok rfl
  | none => exact .pure _

@[inherit_doc retreats_drop]
theorem retreats_dropValue (target : String) : Retreats (apply (.dropValue target : Step Obj)) := by
  refine Leaves.get.andThen fun s ↦ retreats_of_frugal ?_
  cases s.values.get? target with
  | some old => exact fun _ ↦ not_exhausts_of_ok rfl
  | none => exact .pure _

@[inherit_doc retreats_drop]
theorem retreats_dropBlock (target : String) : Retreats (apply (.dropBlock target : Step Obj)) := by
  refine Leaves.get.andThen fun s ↦ retreats_of_frugal ?_
  cases s.blocks.get? target with
  | some old => exact fun _ ↦ not_exhausts_of_ok rfl
  | none => exact .pure _

@[inherit_doc retreats_drop]
theorem retreats_dropCursor (target : String) :
    Retreats (apply (.dropCursor target : Step Obj)) := by
  refine Leaves.get.andThen fun s ↦ retreats_of_frugal ?_
  cases s.cursors.get? target with
  | some old => exact fun _ ↦ not_exhausts_of_ok rfl
  | none => exact .pure _

theorem retreats_duplicate (r source : String) :
    Retreats (apply (.duplicate r source : Step Obj)) := by
  refine (leaves_reference source).andThen fun i ↦ ?_
  refine Leaves.andThen ?_ fun _ ↦ retreats_thenPure (frugal_keepReference r _) _
  cases i with
  | some i => exact (leaves_onHeap _).bind fun _ ↦ .pure _
  | none => exact .pure _

theorem retreats_incrementValue (target : String) :
    Retreats (apply (.incrementValue target : Step Obj)) := by
  refine Leaves.get.andThen fun s ↦ retreats_of_frugal ?_
  split
  · exact fun _ ↦ not_exhausts_of_ok rfl
  · exact .pure _

theorem retreats_copyInto (target : String) (v : Operand Obj) :
    Retreats (apply (.copyInto target v)) := by
  rw [apply]
  refine retreats_withOperand fun v ↦ Leaves.get.andThen fun s ↦ ?_
  split
  · split
    · exact retreats_onHeap _ fun _ ↦ retreats_thenPure (frugal_keepValue target _) _
    · exact (Leaves.pure _).retreats
  · exact (Leaves.pure _).retreats

theorem retreats_pack (v : Operand Obj) : Retreats (apply (.pack v)) := by
  rw [apply]
  refine retreats_withOperand fun v ↦ Leaves.retreats ((leaves_onHeap _).bind fun d ↦ ?_)
  cases d.pack with
  | ok bytes => exact .pure _
  | error e => exact .pure _

theorem retreats_displayBlock (target : String) :
    Retreats (apply (.displayBlock target : Step Obj)) := by
  refine Leaves.retreats (Leaves.get.bind fun s ↦ ?_)
  cases s.blocks.get? target with
  | some b => exact (leaves_onHeap _).bind fun _ ↦ (leaves_onHeap _).bind fun _ ↦ .pure _
  | none => exact .pure _

theorem retreats_sameBlock (target other : String) :
    Retreats (apply (.sameBlock target other : Step Obj)) := by
  refine Leaves.retreats (Leaves.get.bind fun s ↦ Leaves.get.bind fun t ↦ ?_)
  split
  · exact .pure _
  · exact .pure _

theorem retreats_rebind (r source : String) : Retreats (apply (.rebind r source : Step Obj)) := by
  refine Leaves.get.andThen fun s ↦ ?_
  cases s.blocks.get? source with
  | some b => exact retreats_deref r fun i ↦ retreats_onHeap _ fun _ ↦ (Leaves.pure _).retreats
  | none => exact (Leaves.pure _).retreats

theorem retreats_newHandle (r source : String) :
    Retreats (apply (.newHandle r source : Step Obj)) := by
  refine Leaves.get.andThen fun s ↦ ?_
  cases s.blocks.get? source with
  | some b => exact retreats_onHeap _ fun i ↦ retreats_thenPure (frugal_keepReference r _) _
  | none => exact (Leaves.pure _).retreats

theorem retreats_instances : Retreats (apply (.instances : Step Obj)) := by
  refine Leaves.retreats (Leaves.get.bind fun s ↦ ?_)
  cases s.heap.registry with
  | some r => exact .pure _
  | none => exact .pure _

theorem retreats_newCursor (r target bound : String) :
    Retreats (apply (.newCursor r target bound : Step Obj)) := by
  refine retreats_deref r fun i ↦ (leaves_reference bound).andThen fun j ↦
    retreats_onHeap _ fun k ↦ retreats_of_frugal ?_
  cases k with
  | some k => exact (frugal_keepCursor target k).bind fun _ ↦ .pure _
  | none => exact .pure _

theorem retreats_advance (target bound : String) (into : Option String) :
    Retreats (apply (.advance target bound into : Step Obj)) := by
  refine Leaves.get.andThen fun s ↦ ?_
  cases s.cursors.get? target with
  | none => exact (Leaves.pure _).retreats
  | some k =>
    refine retreats_onHeap _ ?_
    rintro ⟨e, k⟩
    refine retreats_of_frugal ?_
    -- from here on registers change, but no more blocks are needed
    refine Frugal.bind (fun _ ↦ not_exhausts_of_ok rfl) fun _ ↦ ?_
    have hwritten : Frugal (do
        return (← writtenReference e, ← writtenReference (← reference bound)) :
        SessionM Obj _) :=
      (frugal_writtenReference e).bind fun _ ↦ (frugal_reference bound).bind fun j ↦
        (frugal_writtenReference j).bind fun _ ↦ .pure _
    refine (frugal_holding _ hwritten).bind fun _ ↦ ?_
    cases e with
    | none => exact (frugal_letGo _).bind fun _ ↦ .pure _
    | some e =>
      cases into with
      | some name => exact (frugal_keepReference name _).bind fun _ ↦ .pure _
      | none => exact (frugal_letGo _).bind fun _ ↦ .pure _

/-- **Every step** leaves the registers alone where there is no block. -/
theorem retreats_apply (x : Step Obj) : Retreats (apply x) := by
  cases x with
  | bind r v =>
    rw [apply]
    exact (leaves_operandCopy v).andThen fun v ↦ retreats_onHeap _ fun i ↦
      retreats_thenPure (frugal_keepReference r _) _
  | uninit r => exact retreats_onHeap _ fun i ↦ retreats_thenPure (frugal_keepReference r _) _
  | null r => exact retreats_thenPure (frugal_keepReference r _) _
  | «alias» r source =>
    exact (leaves_shareReference source).andThen fun i ↦
      retreats_thenPure (frugal_keepReference r _) _
  | duplicate r source => exact retreats_duplicate r source
  | drop r => exact retreats_drop r
  | dropAll => exact retreats_of_frugal fun _ ↦ not_exhausts_of_ok rfl
  | same r other =>
    exact ((leaves_reference r).bind fun _ ↦ (leaves_reference other).bind fun _ ↦ .pure _).retreats
  | info r =>
    exact retreats_deref r fun i ↦
      ((leaves_onHeap _).bind fun _ ↦ (leaves_onHeap _).bind fun _ ↦ .pure _).retreats
  | snapshot r target =>
    exact retreats_deref r fun i ↦ retreats_onHeap _ fun b ↦
      retreats_thenPure (frugal_keepValue target _) _
  | copy v target =>
    rw [apply]
    exact (leaves_operandCopy v).andThen fun v ↦ retreats_thenPure (frugal_keepValue target _) _
  | dropValue target => exact retreats_dropValue target
  | display v =>
    rw [apply]
    exact retreats_withOperand fun v ↦
      ((leaves_onHeap _).bind fun _ ↦ Leaves.get.bind fun _ ↦ .pure _).retreats
  | incrementValue target => exact retreats_incrementValue target
  | copyInto target v => exact retreats_copyInto target v
  | compare left right =>
    rw [apply]
    exact retreats_withOperands fun v w ↦ (Leaves.get.bind fun _ ↦ .pure _).retreats
  | contains v needle =>
    rw [apply]
    exact retreats_withOperands fun v w ↦ (Leaves.get.bind fun _ ↦ .pure _).retreats
  | operate op left right target =>
    rw [apply]
    exact retreats_withOperands fun v w ↦ retreats_onHeap _ fun u ↦
      retreats_of_frugal ((frugal_deliverValue target u).bind fun _ ↦ .pure _)
  | pack v => exact retreats_pack v
  | allocate v target =>
    rw [apply]
    exact (leaves_operandCopy v).andThen fun v ↦ retreats_onHeap _ fun b ↦
      retreats_thenPure (frugal_keepBlock target _) _
  | blank target => exact retreats_onHeap _ fun b ↦
      retreats_thenPure (frugal_keepBlock target _) _
  | blockOf r target =>
    exact retreats_deref r fun i ↦ retreats_onHeap _ fun b ↦
      retreats_thenPure (frugal_keepBlock target _) _
  | dropBlock target => exact retreats_dropBlock target
  | displayBlock target => exact retreats_displayBlock target
  | sameBlock target other => exact retreats_sameBlock target other
  | rebind r source => exact retreats_rebind r source
  | newHandle r source => exact retreats_newHandle r source
  | poolStats kind => exact (Leaves.get.bind fun _ ↦ .pure _).retreats
  | instances => exact retreats_instances
  | assign r v =>
    rw [apply]
    exact retreats_withOperand fun v ↦ retreats_deref r fun i ↦ retreats_onHeap _ fun _ ↦
      (Leaves.pure _).retreats
  | setValue r v =>
    rw [apply]
    exact (leaves_operandCopy v).andThen fun v ↦ ((leaves_deref r).holding _).andThen fun i ↦
      retreats_onHeap _ fun _ ↦ (Leaves.pure _).retreats
  | overwrite r v =>
    rw [apply]
    exact (leaves_operandCopy v).andThen fun v ↦ ((leaves_deref r).holding _).andThen fun i ↦
      retreats_onHeap _ fun _ ↦ (Leaves.pure _).retreats
  | increment r => exact retreats_deref r fun i ↦ retreats_onHeap _ fun _ ↦ (Leaves.pure _).retreats
  | operateInPlace op r v =>
    rw [apply]
    exact retreats_withOperand fun v ↦ retreats_deref r fun i ↦ retreats_onHeap _ fun _ ↦
      (Leaves.pure _).retreats
  | getMember r name into | getMemberById r number into =>
    exact retreats_deref r fun i ↦ retreats_onHeap _ fun e ↦ retreats_deliver into e
  | addMember r name into =>
    exact retreats_deref r fun i ↦ retreats_onHeap _ fun e ↦ retreats_deliver into _
  | setMember r name v keep into | setMemberById r number v keep into =>
    rw [apply]
    exact retreats_withOperand fun v ↦ retreats_deref r fun i ↦ retreats_onHeap _ fun e ↦
      retreats_deliver into e
  | memberNumber name => exact retreats_onHeap _ fun _ ↦ (Leaves.pure _).retreats
  | memberName number => exact (Leaves.get.bind fun _ ↦ .pure _).retreats
  | removeMember r name =>
    exact retreats_deref r fun i ↦ retreats_onHeap _ fun v ↦
      retreats_of_frugal ((frugal_deliverValue none v).bind fun _ ↦ .pure _)
  | hasMember r name =>
    exact retreats_deref r fun i ↦ retreats_onHeap _ fun v ↦
      ((leaves_onHeap _).bind fun _ ↦ .pure _).retreats
  | subscript r index into =>
    rw [apply]
    exact retreats_withOperand fun v ↦ retreats_deref r fun i ↦ retreats_onHeap _ fun e ↦
      retreats_deliver into _
  | assignElement r index v keep into =>
    rw [apply]
    exact retreats_withOperand fun v ↦ retreats_deref r fun i ↦ retreats_onHeap _ fun e ↦
      retreats_deliver into _
  | elements r x into => exact retreats_applyElements r into x
  | call r name args answers target =>
    rw [apply]
    exact retreats_applyCall
  | callBuiltin r method args force answers target =>
    rw [apply]
    exact retreats_applyCall
  | newCursor r target bound => exact retreats_newCursor r target bound
  | advance target bound into => exact retreats_advance target bound into
  | dropCursor target => exact retreats_dropCursor target

/-- **A packed value** that is put into a register does so too. -/
theorem retreats_receive (name : String) (bytes : List UInt8) :
    Retreats (receive name bytes : SessionM Obj _) := by
  refine retreats_onHeap _ fun r ↦ ?_
  cases r with
  | ok v => exact retreats_thenPure (frugal_keepValue name _) _
  | error e => exact (Leaves.pure _).retreats

/-! ## What is left -/

/-- The sessions that steps and packed values lead to, whatever became of those before. -/
inductive Arises : Session Obj → Prop where
  | start (config : HeapConfig) : Arises (start config)
  | step {s : Session Obj} (hs : Arises s) (x : Step Obj) : Arises (s.step x).2
  | receive {s : Session Obj} (hs : Arises s) (name : String) (bytes : List UInt8) :
    Arises (s.received name bytes)

variable {s t : Session Obj} {pool : PoolName} {capacity : Nat}

theorem Arises.books (hs : s.Arises) : s.Books := by
  induction hs with
  | start config => exact books_start config
  | step _ x ih => exact ih.step x
  | receive _ name bytes ih => exact (Scene.settled_received ih name bytes).done.sound

/-- The faults that a step may end with in a session that is in order, and what they come from. -/
def Usual (s : Session Obj) (x : Step Obj) : Fault → Prop
  | .exhausted _ _ | .busy => True
  | .unnamedPlace _ _ => ¬ (s.Regular ∧ s.Orderly x)
  | .nullReference => ∃ r ∈ x.followed, (s.references.get? r).join = none
  | .dangling => (s.step x).2.heap.Endless

/-- What is left of a session in which a pool had no block to give. -/
structure Untouched (s : Session Obj) (pool : PoolName) (capacity : Nat) (t : Session Obj) :
    Prop where
  /-- The registers are as they were, and so is where cursors stand. -/
  registers : s.SameRegisters t
  /-- What registers hold is there. -/
  there : ∀ r : Root Obj, s.Has r → (∀ y ∈ r.holds, y ∈ s.holds) → t.Has r
  /-- What is there shows what it showed. -/
  same : ∀ r : Root Obj, s.Has r → t.Has r → r.Same s.heap t.heap
  /-- When the pool had no block to give, everything showed what it had shown, and since then holds
  were given up and blocks were given back. -/
  spent : ∃ h, s.heap.Onward h ∧ s.heap.Alike h ∧ h.Spent pool capacity t.heap ∧ h.Returns t.heap
  /-- Counts are right, so later steps find all that they look for. -/
  books : t.Books
  faults : ∀ x f, t.fault? x = some f → t.Usual x f

theorem Books.usual (ht : t.Books) (x : Step Obj) (f : Fault) (hf : t.fault? x = some f) :
    t.Usual x f := by
  rcases Scene.foreseen_step ht hf with ⟨rfl, hends⟩ | hexpected | ⟨rfl, hnone⟩
  · exact hends
  · cases f with
    | exhausted pool capacity => trivial
    | busy => trivial
    | unnamedPlace place names => exact hexpected
    | nullReference => exact hexpected.elim
    | dangling => exact hexpected.elim
  · exact hnone

omit [HostObject Obj] in
/-- A root that registers hold is there when they are as they were. -/
theorem SameRegisters.has (ht : s.SameRegisters t) (hbooks : t.Books) {r : Root Obj} (hr : s.Has r)
    (hheld : ∀ y ∈ r.holds, y ∈ s.holds) : t.Has r := by
  rw [SameRegisters] at ht
  cases r with
  | handle i =>
    have hi : Hold.handle i ∈ t.holds := by
      rw [ht]
      exact hheld _ (List.mem_singleton_self _)
    obtain ⟨k, hk⟩ := hbooks.exists_cell?_of_mem hi
    obtain ⟨cell, hcell, -⟩ := Option.map_eq_some_iff.1 hk
    exact Option.isSome_iff_exists.2 ⟨cell, hcell⟩
  | stored x =>
    rw [ht]
    exact hr
  | block b =>
    rw [ht]
    exact hr

/-- A scene at which nobody is to see a change, and which is over because there was no block. -/
theorem Books.untouched (hs : s.Books) {c : Scene Obj} (hbefore : c.before = s.heap)
    (hunseen : c.unseen) (hsettled : c.Settled [] t)
    (hforeseen : c.Foreseen t.heap (.exhausted pool capacity)) (hregisters : s.SameRegisters t) :
    Untouched s pool capacity t where
  registers := hregisters
  there r hr hheld := hregisters.has hsettled.done.sound hr hheld
  same r hr hr' := by
    refine Root.same_of_shape fun y hy ↦ ?_
    obtain ⟨k, hk⟩ := Option.isSome_iff_exists.1 (hr.isSome hs hy)
    obtain ⟨n, hn⟩ := Heap.exists_cell?_of_content? hk
    have hshown := hsettled.done.shown hunseen
    rw [hbefore] at hshown
    exact (hshown y (Heap.born_of_cell? hs.tidy hn) (hr'.isSome hsettled.done.sound hy)).2
  spent := by
    rcases hforeseen with ⟨he, -⟩ | ⟨h, honward, hshown, hspent⟩ | ⟨he, -⟩
    · cases he
    · obtain ⟨xs, hxs⟩ := hspent.released
      refine ⟨h, hbefore ▸ honward, hbefore ▸ hshown hunseen, hspent, ?_⟩
      rw [hxs]
      exact h.returns_release xs
    · cases he
  books := hsettled.done.sound
  faults := Books.usual hsettled.done.sound

/-- The fault that putting a packed value into a register ends with. -/
def receiveFault? (s : Session Obj) (name : String) (bytes : List UInt8) : Option Fault :=
  match receive name bytes s with
  | .ok _ _ => none
  | .error fault _ => some fault

/-- **Nothing is half done.**  When a step ends because a pool has no block left, or a packed value
does not fit, the registers are as they were, cursors with their places and loop variables among
them; every handle, stored value and block shows what it showed, all the way down; the pool had no
block to give at a moment when nothing had changed for anyone, and since then blocks were given back
and no pool did anything else; and later steps find a session in order. -/
theorem exhausted_untouched (hs : s.Arises) :
    (∀ x, s.fault? x = some (.exhausted pool capacity) → Untouched s pool capacity (s.step x).2) ∧
    (∀ name bytes, s.receiveFault? name bytes = some (.exhausted pool capacity) →
      Untouched s pool capacity (s.received name bytes)) := by
  constructor
  · intro x hf
    have hforeseen := Scene.foreseen_step hs.books hf
    have hrun : apply x s = .error (.exhausted pool capacity) (s.step x).2 := by
      rw [fault?] at hf
      rw [Session.step]
      cases hrun : apply x s with
      | ok a t =>
        rw [hrun] at hf
        cases hf
      | error f t =>
        rw [hrun] at hf
        cases hf
        rfl
    have hunseen : (Scene.ofStep hs.books x).unseen := .inr ⟨pool, capacity, _, hrun⟩
    exact hs.books.untouched rfl hunseen (Scene.settled_step hs.books x) hforeseen
      (retreats_apply x s pool capacity _ hrun)
  · intro name bytes hf
    have hplays := Scene.plays_receive hs.books name bytes
    rw [receiveFault?] at hf
    rw [received]
    cases hrun : receive name bytes s with
    | ok a t =>
      rw [hrun] at hf
      cases hf
    | error f t =>
      rw [hrun] at hf
      cases hf
      rw [Scene.Plays, Ends, hrun] at hplays
      exact hs.books.untouched rfl trivial hplays.1 hplays.2
        (retreats_receive name bytes s pool capacity t hrun)

/-! ## An array that is written where there is no block -/

theorem Arises.run (hs : s.Arises) (xs : List (Step Obj)) : (s.run xs).2.Arises := by
  induction xs generalizing s with
  | nil => exact hs
  | cons x xs ih => exact ih (hs.step x)

/-- An array whose block is shared, and another array in a register, where no pool has more than two
blocks. -/
def cappedArray : Session SampleObject :=
  ((start ⟨false, ⟨1, some 2⟩⟩).run
    [.bind "h" (.literal (.array [.scalar (.integer 1)])), .snapshot "h" "g",
      .copy (.literal (.array [.scalar (.integer 2)])) "x"]).2

/-- The element of the one is to be set to the other. -/
def cappedStep : Step SampleObject :=
  .assignElement "h" 1 (.register "x") false none

theorem arises_cappedArray : cappedArray.Arises := by
  unfold cappedArray
  exact (Arises.start _).run _

/-- Neither is an element set nor a packed array received. -/
theorem exhausted_untouched_array :
    Untouched cappedArray .array 2 (cappedArray.step cappedStep).2 ∧
      Untouched cappedArray .integer 2 (cappedArray.received "p" [5, 1, 0, 0, 0, 3, 7, 0, 0, 0]) := by
  have hstep : cappedArray.fault? cappedStep = some (.exhausted .array 2) := by decide +kernel
  have hreceive : cappedArray.receiveFault? "p" [5, 1, 0, 0, 0, 3, 7, 0, 0, 0] =
      some (.exhausted .integer 2) := by
    decide +kernel
  exact ⟨(exhausted_untouched arises_cappedArray).1 cappedStep hstep,
    (exhausted_untouched arises_cappedArray).2 "p" _ hreceive⟩

/-- The heap of that session when the new element was made, before the array gets a block of its
own. -/
def midwayHeap : Heap SampleObject :=
  match (do Heap.bindNew (← Heap.copy (.array ⟨1⟩)) : HeapM SampleObject HandleId)
    cappedArray.heap with
  | .ok _ h => h
  | .error _ h => h

/-- Blocks are given back after the pool had none to give: both were in use at that moment, and one
is when the step is over. -/
theorem exhausted_counters :
    Exhausts (Heap.own ⟨1⟩) midwayHeap ∧
      (midwayHeap.pools.get .array).stats = ⟨2, 0, 2, 2, 2⟩ ∧
      cappedArray.fault? cappedStep = some (.exhausted .array 2) ∧
      ((cappedArray.step cappedStep).2.heap.pools.get .array).stats = ⟨2, 1, 1, 2, 2⟩ := by
  refine ⟨?_, by decide +kernel, by decide +kernel, by decide +kernel⟩
  have hfault : (match Heap.own ⟨1⟩ midwayHeap with
      | .ok _ _ => none
      | .error f _ => some f) = some (.exhausted .array 2) := by
    decide +kernel
  cases hrun : Heap.own ⟨1⟩ midwayHeap with
  | ok b h =>
    rw [hrun] at hfault
    cases hfault
  | error f h =>
    rw [hrun] at hfault
    cases hfault
    exact ⟨.array, 2, h, hrun⟩

end Session
end ScriptHeap
