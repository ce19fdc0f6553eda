import ScriptHeap.Proofs.Heap.Course
import ScriptHeap.Proofs.Session.Shortage

/-!
# The course of steps

A step is an operation on the heap, together with registers that are read and filled.  So the heap
changes by single changes along every run, and a cursor register changes by the steps that name it
and by the one that empties all registers.

## What is here

* `Session.ComesTo` — the heap in its course, and all cursor registers but certain ones as they
  were.
* `Session.Proceeds` — the same where names are given no numbers.
* `Step.moves`, `Step.numbered?` — the cursor registers that a step may change, and the name that it
  gives a number.
* `Session.within_apply`, `Session.within_receive` — steps and packed values pass like that.
* `Session.Succeeds` — sessions one after another.
-/

set_option autoImplicit false
namespace ScriptHeap

variable {Obj α β : Type} [HostObject Obj]

namespace Session

/-- The heap has gone its course, and all cursor registers but certain ones are as they were. -/
def ComesTo (moves : String → Prop) (s t : Session Obj) : Prop :=
  s.heap.ComesTo t.heap ∧ ∀ name, ¬ moves name → t.cursors.get? name = s.cursors.get? name

variable {moves : String → Prop}

instance : IsPreorder (Session Obj) (ComesTo moves) where
  refl s := ⟨refl_of Heap.ComesTo s.heap, fun _ _ ↦ rfl⟩
  trans _ _ _ h h' :=
    ⟨trans_of Heap.ComesTo h.1 h'.1, fun name hn ↦ (h'.2 name hn).trans (h.2 name hn)⟩

/-- The same, and names have been given no numbers. -/
def Proceeds (moves : String → Prop) (s t : Session Obj) : Prop :=
  s.heap.Proceeds t.heap ∧ ∀ name, ¬ moves name → t.cursors.get? name = s.cursors.get? name

theorem Proceeds.comesTo {s t : Session Obj} (hp : s.Proceeds moves t) : s.ComesTo moves t :=
  ⟨hp.1.1, hp.2⟩

instance : IsPreorder (Session Obj) (Proceeds moves) where
  refl s := ⟨refl_of Heap.Proceeds s.heap, fun _ _ ↦ rfl⟩
  trans _ _ _ h h' :=
    ⟨trans_of Heap.Proceeds h.1 h'.1, fun name hn ↦ (h'.2 name hn).trans (h.2 name hn)⟩

/-- Registers other than those for cursors have been filled or emptied. -/
theorem Proceeds.of_same {s t : Session Obj} (hheap : t.heap = s.heap)
    (hcursors : t.cursors = s.cursors) : s.Proceeds moves t := by
  rw [Proceeds, hheap, hcursors]
  exact ⟨refl_of Heap.Proceeds s.heap, fun _ _ ↦ rfl⟩

/-! ## Registers -/

theorem within_onHeap {act : HeapM Obj α} (hact : Within Heap.Proceeds act) :
    Within (Proceeds moves) (onHeap act) := by
  intro s
  have hs := hact s.heap
  cases hrun : act s.heap with
  | ok a h =>
    rw [Ends, hrun] at hs
    exact .of_ok (onHeap_of_ok hrun) ⟨hs, fun _ _ ↦ rfl⟩
  | error e h =>
    rw [Ends, hrun] at hs
    exact .of_error (onHeap_of_error hrun) ⟨hs, fun _ _ ↦ rfl⟩

theorem within_look (f : Heap Obj → Option α) : Within (Proceeds moves) (onHeap (Heap.look f)) :=
  within_onHeap (Heap.within_look f)

theorem within_letGo (xs : List Hold) : Within (Proceeds moves) (letGo xs : SessionM Obj Unit) :=
  within_onHeap (Heap.within_letGo xs)

theorem within_hold (xs : List Hold) :
    Within (Proceeds moves) (onHeap (Heap.hold xs) : SessionM Obj Unit) :=
  within_onHeap (Heap.within_hold xs)

theorem within_holding {act : SessionM Obj α} (xs : List Hold)
    (hact : Within (Proceeds moves) act) : Within (Proceeds moves) (holding xs act) :=
  hact.tryCatch fun e ↦ (within_letGo xs).bind fun _ ↦ .throw e

theorem within_during {act : SessionM Obj α} (xs : List Hold) (hact : Within (Proceeds moves) act) :
    Within (Proceeds moves) (during xs act) :=
  (within_holding xs hact).bind fun _ ↦ (within_letGo xs).bind fun _ ↦ .pure _

theorem within_keepReference (name : String) (r : Option HandleId) :
    Within (Proceeds moves) (keepReference name r : SessionM Obj Unit) :=
  Within.get.bind fun _ ↦ (Within.modify fun _ ↦ .of_same rfl rfl).bind fun _ ↦ within_letGo _

theorem within_keepValue (name : String) (x : Stored Obj) :
    Within (Proceeds moves) (keepValue name x) :=
  Within.get.bind fun _ ↦ (Within.modify fun _ ↦ .of_same rfl rfl).bind fun _ ↦ within_letGo _

theorem within_keepBlock (name : String) (b : BlockId) :
    Within (Proceeds moves) (keepBlock name b : SessionM Obj Unit) :=
  Within.get.bind fun _ ↦ (Within.modify fun _ ↦ .of_same rfl rfl).bind fun _ ↦ within_letGo _

/-- A cursor register that is to change is filled. -/
theorem within_insertCursor {name : String} (hname : moves name) (c : Cursor) :
    Within (Proceeds moves)
      (modify fun s ↦ { s with cursors := s.cursors.insert name c } : SessionM Obj PUnit) :=
  .modify fun s ↦ ⟨refl_of Heap.Proceeds s.heap, fun other hother ↦
    (Registers.get?_insert ..).trans (if_neg fun he : other = name ↦ hother (he ▸ hname))⟩

/-- A cursor register that is to change is emptied. -/
theorem within_eraseCursor {name : String} (hname : moves name) :
    Within (Proceeds moves)
      (modify fun s ↦ { s with cursors := s.cursors.erase name } : SessionM Obj PUnit) :=
  .modify fun s ↦ ⟨refl_of Heap.Proceeds s.heap, fun other hother ↦
    (Registers.get?_erase ..).trans (if_neg fun he : other = name ↦ hother (he ▸ hname))⟩

theorem within_keepCursor {name : String} (hname : moves name) (c : Cursor) :
    Within (Proceeds moves) (keepCursor name c : SessionM Obj Unit) :=
  Within.get.bind fun _ ↦ (within_insertCursor hname c).bind fun _ ↦ within_letGo _

theorem within_dropAll (hall : ∀ name, moves name) :
    Within (Proceeds moves) (dropAll : SessionM Obj Unit) := by
  refine Within.get.bind fun _ ↦ (Within.modify fun s ↦ ?_).bind fun _ ↦ within_letGo _
  exact ⟨refl_of Heap.Proceeds s.heap, fun name hname ↦ absurd (hall name) hname⟩

theorem within_reference (name : String) :
    Within (Proceeds moves) (reference name : SessionM Obj _) :=
  Within.get.bind fun _ ↦ .pure _

theorem within_deref (name : String) : Within (Proceeds moves) (deref name : SessionM Obj _) := by
  refine (within_reference name).bind fun r ↦ ?_
  cases r with
  | some i => exact .pure i
  | none => exact .throw _

theorem within_shareReference (name : String) :
    Within (Proceeds moves) (shareReference name : SessionM Obj _) :=
  (within_reference name).bind fun _ ↦ (within_hold _).bind fun _ ↦ .pure _

theorem within_storedValue (x : Stored Obj) : Within (Proceeds moves) (storedValue x) := by
  cases x with
  | own v => exact .pure v
  | snapshot b => exact within_look _

theorem within_written (v : Value Obj) : Within (Proceeds moves) (written v) :=
  within_look _

theorem within_writtenReference (r : Option HandleId) :
    Within (Proceeds moves) (writtenReference r : SessionM Obj _) := by
  cases r with
  | none => exact .pure none
  | some i => exact (within_look _).bind fun _ ↦ .pure _

/-! ## Operands -/

theorem within_operandValue (x : Operand Obj) : Within (Proceeds moves) (operandValue x) := by
  cases x with
  | literal d => exact (within_onHeap (Heap.within_plant d)).bind fun _ ↦ .pure _
  | reference name =>
    exact (within_deref name).bind fun i ↦ (within_onHeap (Heap.within_snapshot i)).bind fun _ ↦
      (within_look _).bind fun _ ↦ .pure _
  | register name =>
    refine Within.get.bind fun s ↦ ?_
    split
    · exact (within_storedValue _).bind fun _ ↦ .pure _
    · exact .pure _

theorem within_operandCopy (x : Operand Obj) : Within (Proceeds moves) (operandCopy x) :=
  (within_operandValue x).bind fun _ ↦ (within_hold _).bind fun _ ↦ (within_letGo _).bind
    fun _ ↦ .pure _

theorem within_withOperand {f : Value Obj → SessionM Obj α} (x : Operand Obj)
    (hf : ∀ v, Within (Proceeds moves) (f v)) : Within (Proceeds moves) (withOperand x f) :=
  (within_operandValue x).bind fun r ↦ within_during _ (hf r.1)

theorem within_withOperands {f : Value Obj → Value Obj → SessionM Obj α} (x y : Operand Obj)
    (hf : ∀ a b, Within (Proceeds moves) (f a b)) : Within (Proceeds moves) (withOperands x y f) :=
  within_withOperand x fun a ↦ within_withOperand y (hf a)

theorem within_withArguments (xs : List (Argument Obj))
    {f : List (Option HandleId) → SessionM Obj α} (hf : ∀ rs, Within (Proceeds moves) (f rs)) :
    Within (Proceeds moves) (withArguments xs f) := by
  induction xs generalizing f with
  | nil => exact hf []
  | cons x xs ih =>
    cases x with
    | reference name =>
      exact (within_shareReference name).bind fun r ↦ within_during _ (ih fun rs ↦ hf (r :: rs))
    | operand x =>
      exact (within_operandCopy x).bind fun v ↦ (within_onHeap (Heap.within_bindNew v)).bind
        fun i ↦ within_during _ (ih fun rs ↦ hf (some i :: rs))

theorem within_withData (ds : List (Datum Obj)) {f : List (Value Obj) → SessionM Obj α}
    (hf : ∀ vs, Within (Proceeds moves) (f vs)) : Within (Proceeds moves) (withData ds f) :=
  (within_onHeap (Heap.within_plantAll ds)).bind fun vs ↦ within_during _ (hf vs)

/-! ## Results -/

theorem within_deliver (into : Option String) (r : Option HandleId) :
    Within (Proceeds moves) (deliver into r : SessionM Obj (Answer Obj)) := by
  refine (within_holding _ (within_writtenReference r)).bind fun _ ↦ ?_
  cases into with
  | some name => exact (within_keepReference name r).bind fun _ ↦ .pure _
  | none => exact (within_letGo _).bind fun _ ↦ .pure _

theorem within_deliverValue (target : Option String) (v : Value Obj) :
    Within (Proceeds moves) (deliverValue target v) := by
  refine (within_holding _ (within_written v)).bind fun _ ↦ ?_
  cases target with
  | some name => exact (within_keepValue name _).bind fun _ ↦ .pure _
  | none => exact (within_letGo _).bind fun _ ↦ .pure _

/-! ## Operations on the variable of a step -/

/-- An operation on the heap, and what comes after it. -/
theorem within_onHeapThen {act : HeapM Obj α} {f : α → SessionM Obj β}
    (hact : Within Heap.Proceeds act) (hf : ∀ a, Within (Proceeds moves) (f a)) :
    Within (Proceeds moves) (onHeap act >>= f) :=
  (within_onHeap hact).bind hf

/-- An operation on the variable of a step, and what comes after it. -/
theorem within_onVariable {act : HandleId → HeapM Obj α} {f : α → SessionM Obj β} (r : String)
    (hact : ∀ i, Within Heap.Proceeds (act i)) (hf : ∀ a, Within (Proceeds moves) (f a)) :
    Within (Proceeds moves) (do f (← onHeap (act (← deref r)))) :=
  (within_deref r).bind fun i ↦ within_onHeapThen (hact i) hf

/-- A register that is filled at the end of a step. -/
theorem within_thenPure {act : SessionM Obj Unit} (hact : Within (Proceeds moves) act) (a : α) :
    Within (Proceeds moves) (do act; return a) :=
  hact.bind fun _ ↦ .pure a

/-! ## Elements -/

theorem within_listOf? (i : HandleId) : Within (Proceeds moves) (listOf? i : SessionM Obj _) :=
  (within_look _).bind fun _ ↦ .pure _

theorem within_elementsOf (i : HandleId) :
    Within (Proceeds moves) (elementsOf i : SessionM Obj _) := by
  refine (within_listOf? i).bind fun l ↦ ?_
  cases l with
  | some l => exact within_look _
  | none => exact .pure []

theorem within_elementAt (i : HandleId) (place : Option Nat) :
    Within (Proceeds moves) (elementAt i place : SessionM Obj _) :=
  (within_elementsOf i).bind fun _ ↦ (within_hold _).bind fun _ ↦ .pure _

theorem within_placeOf? (i : HandleId) (name : String) :
    Within (Proceeds moves) (placeOf? i name : SessionM Obj _) :=
  (within_look _).bind fun _ ↦ .pure _

theorem within_ownElementAt (i : HandleId) (place : Option Nat) :
    Within (Proceeds moves) (ownElementAt i place : SessionM Obj _) := by
  refine (within_onHeap (Heap.within_own i)).bind fun b ↦ ?_
  cases place with
  | none => exact .pure none
  | some place =>
    refine (within_elementsOf i).bind fun is ↦ ?_
    split
    · refine (within_onHeap (Heap.within_ownListIn b)).bind fun r ↦ ?_
      cases r with
      | some l => exact (within_look _).bind fun _ ↦ (within_hold _).bind fun _ ↦ .pure _
      | none => exact .pure none
    · exact .pure none

theorem within_renewElements (i : HandleId) :
    Within Heap.Proceeds (renewElements i : HeapM Obj Unit) := by
  refine (Heap.within_own i).bind fun b ↦ (Heap.within_look _).bind fun v ↦ ?_
  split
  · exact (Heap.within_look _).bind fun is ↦ (Heap.within_ensureApart b is).bind fun _ ↦
      (Heap.within_duplicateAll is).bind fun js ↦ (Heap.within_newList js).bind fun _ ↦
        (Heap.within_writeBlock b _).bind fun _ ↦ Heap.within_letGo _
  · exact .pure _

theorem within_extendElements (i : HandleId) (v : Value Obj) :
    Within Heap.Proceeds (extendElements i v) := by
  refine (Heap.within_own i).bind fun b ↦ (Heap.within_look _).bind fun w ↦ ?_
  split
  · refine (Heap.within_look _).bind fun is ↦ (Heap.within_ensureApart b is).bind fun _ ↦
      (Heap.within_duplicateAll is).bind fun added ↦
        (Heap.within_holding _ (Heap.within_ownListIn b)).bind fun r ↦ ?_
    cases r with
    | some l => exact (Heap.within_look _).bind fun _ ↦ Heap.within_setElements l _
    | none => exact Heap.within_letGo _
  · exact .pure _

theorem within_rotateElements (i : HandleId) :
    Within Heap.Proceeds (rotateElements i : HeapM Obj Unit) := by
  refine (Heap.within_ownContainer i).bind fun r ↦ ?_
  cases r with
  | none => exact .pure _
  | some l =>
    refine (Heap.within_look _).bind fun is ↦ ?_
    cases is with
    | nil => exact .pure _
    | cons i is => exact Heap.within_setElements l _

theorem within_removeElement (i : HandleId) (place : Nat) :
    Within Heap.Proceeds (removeElement i place : HeapM Obj (Option HandleId)) := by
  refine (Heap.within_own i).bind fun b ↦ (Heap.within_look _).bind fun v ↦ ?_
  split
  · refine (Heap.within_look _).bind fun is ↦ ?_
    split
    · exact Heap.within_removeAt b place
    · exact .pure none
  · exact .pure none

theorem within_applyElements (r : String) (into : Option String) (x : ElementStep Obj) :
    Within (Proceeds moves) (applyElements r into x) := by
  cases x with
  | position n =>
    exact (within_deref r).bind fun i ↦ (within_elementAt i _).bind fun _ ↦ within_deliver into _
  | member name =>
    exact (within_deref r).bind fun i ↦ (within_placeOf? i name).bind fun place ↦
      (within_elementAt i place).bind fun _ ↦ within_deliver into _
  | values =>
    exact (within_deref r).bind fun i ↦ (within_elementsOf i).bind fun is ↦
      (Within.mapM (fun _ ↦ within_look _) is).bind fun _ ↦ .pure _
  | names =>
    refine (within_deref r).bind fun i ↦ (within_look _).bind fun v ↦ ?_
    split
    · exact .pure _
    · exact .pure _
  | positionOf v =>
    rw [applyElements]
    refine within_withOperand v fun needle ↦ (within_deref r).bind fun i ↦
      (within_listOf? i).bind fun l ↦ ?_
    cases l with
    | some l => exact Within.get.bind fun _ ↦ .pure _
    | none => exact .pure _
  | isShared =>
    refine (within_deref r).bind fun i ↦ (within_listOf? i).bind fun l ↦ ?_
    cases l with
    | some l => exact (within_look _).bind fun _ ↦ .pure _
    | none => exact .pure _
  | ownPosition n =>
    exact (within_deref r).bind fun i ↦ (within_ownElementAt i _).bind fun _ ↦ within_deliver into _
  | ownMember name =>
    exact (within_deref r).bind fun i ↦ (within_placeOf? i name).bind fun place ↦
      (within_ownElementAt i place).bind fun _ ↦ within_deliver into _
  | renew =>
    exact within_onVariable r within_renewElements fun _ ↦ within_deliver into none
  | extend v =>
    rw [applyElements]
    exact within_withOperand v fun w ↦ within_onVariable r (within_extendElements · w) fun _ ↦
      within_deliver into none
  | rotate =>
    exact within_onVariable r within_rotateElements fun _ ↦ within_deliver into none
  | remove place =>
    exact within_onVariable r (within_removeElement · place) fun e ↦ within_deliver into e

/-! ## Steps -/

theorem within_applyCall (r : String) (args : List (Argument Obj))
    (answers : Option (List (Method × Datum Obj))) (target : Option String)
    {f : HandleId → Heap.Caller Obj → HeapM Obj (Heap.CallOutcome Obj)}
    (hf : ∀ i caller, Within Heap.Proceeds (f i caller)) :
    Within (Proceeds moves) (applyCall r args answers target f) := by
  refine within_withData _ fun vs ↦ within_withArguments args fun params ↦
    (within_deref r).bind fun i ↦ (within_onHeap (hf i _)).bind fun outcome ↦ ?_
  dsimp only
  split
  · exact (within_deliverValue target _).bind fun _ ↦ .pure _
  · exact .pure _

end Session

/-- The cursor registers that a step may change. -/
def Step.moves : Step Obj → String → Prop
  | .newCursor _ target _, name | .advance target _ _, name | .dropCursor target, name =>
    name = target
  | .dropAll, _ => True
  | _, _ => False

/-- The name that a step gives a number. -/
def Step.numbered? : Step Obj → Option String
  | .memberNumber name => some name
  | _ => none

namespace Session

variable {moves : String → Prop}

theorem within_drop (r : String) : Within (Proceeds moves) (apply (.drop r : Step Obj)) := by
  refine Within.get.bind fun s ↦ ?_
  split
  · exact (Within.modify fun _ ↦ .of_same rfl rfl).bind fun _ ↦
      (within_letGo _).bind fun _ ↦ .pure _
  · exact .pure _

theorem within_dropValue (target : String) :
    Within (Proceeds moves) (apply (.dropValue target : Step Obj)) := by
  refine Within.get.bind fun s ↦ ?_
  split
  · exact (Within.modify fun _ ↦ .of_same rfl rfl).bind fun _ ↦
      (within_letGo _).bind fun _ ↦ .pure _
  · exact .pure _

theorem within_dropBlock (target : String) :
    Within (Proceeds moves) (apply (.dropBlock target : Step Obj)) := by
  refine Within.get.bind fun s ↦ ?_
  split
  · exact (Within.modify fun _ ↦ .of_same rfl rfl).bind fun _ ↦
      (within_letGo _).bind fun _ ↦ .pure _
  · exact .pure _

theorem within_dropCursor {target : String} (hmoves : moves target) :
    Within (Proceeds moves) (apply (.dropCursor target : Step Obj)) := by
  refine Within.get.bind fun s ↦ ?_
  split
  · exact (within_eraseCursor hmoves).bind fun _ ↦ (within_letGo _).bind fun _ ↦ .pure _
  · exact .pure _

theorem within_newCursor {target : String} (hmoves : moves target) (r bound : String) :
    Within (Proceeds moves) (apply (.newCursor r target bound : Step Obj)) := by
  refine (within_deref r).bind fun i ↦ (within_reference bound).bind fun j ↦
    (within_onHeap (Heap.within_newCursor? i j)).bind fun c ↦ ?_
  cases c with
  | some c => exact (within_keepCursor hmoves c).bind fun _ ↦ .pure _
  | none => exact .pure _

/-- What a walk has come to is put into a register and written out. -/
theorem within_passed (bound : String) (into : Option String) (e : Option HandleId) (k : Cursor) :
    Within (Proceeds moves) (do
      let (contents, loopVariable) ← holding (referenceHolds e) do
        return (← writtenReference e, ← writtenReference (← reference bound))
      match e, into with
      | some e, some name => keepReference name (some e)
      | e, _ => letGo (referenceHolds e)
      return .passed contents k.remaining loopVariable : SessionM Obj (Answer Obj)) := by
  refine (within_holding _ ((within_writtenReference e).bind fun _ ↦ (within_reference bound).bind
    fun j ↦ (within_writtenReference j).bind fun _ ↦ .pure _)).bind fun r ↦ ?_
  dsimp only
  split
  · exact (within_keepReference _ _).bind fun _ ↦ .pure _
  · exact (within_letGo _).bind fun _ ↦ .pure _

theorem within_advance {target : String} (hmoves : moves target) (bound : String)
    (into : Option String) :
    Within (Proceeds moves) (apply (.advance target bound into : Step Obj)) := by
  refine Within.get.bind fun s ↦ ?_
  split
  · exact .pure _
  · exact (within_onHeap (Heap.within_advance _)).bind fun r ↦
      (within_insertCursor hmoves r.2).bind fun _ ↦ within_passed bound into r.1 r.2

theorem within_duplicate (r source : String) :
    Within (Proceeds moves) (apply (.duplicate r source : Step Obj)) := by
  refine (within_reference source).bind fun i ↦ ?_
  refine Within.bind ?_ fun _ ↦ within_thenPure (within_keepReference r _) _
  cases i with
  | none => exact .pure none
  | some i => exact within_onHeapThen (Heap.within_duplicate i) fun _ ↦ .pure _

theorem within_incrementValue (target : String) :
    Within (Proceeds moves) (apply (.incrementValue target : Step Obj)) := by
  refine Within.get.bind fun s ↦ ?_
  split
  · exact (Within.modify fun _ ↦ .of_same rfl rfl).bind fun _ ↦ .pure _
  · exact .pure _

theorem within_copyInto (target : String) (v : Operand Obj) :
    Within (Proceeds moves) (apply (.copyInto target v)) := by
  rw [apply]
  refine within_withOperand v fun w ↦ Within.get.bind fun s ↦ ?_
  split
  · split
    · exact within_onHeapThen (Heap.within_copy w) fun _ ↦
        within_thenPure (within_keepValue target _) _
    · exact .pure _
  · exact .pure _

theorem within_pack (v : Operand Obj) : Within (Proceeds moves) (apply (.pack v)) := by
  rw [apply]
  refine within_withOperand v fun w ↦ (within_written w).bind fun d ↦ ?_
  split
  · exact .pure _
  · exact .pure _

theorem within_displayBlock (target : String) :
    Within (Proceeds moves) (apply (.displayBlock target : Step Obj)) := by
  refine Within.get.bind fun s ↦ ?_
  split
  · exact (within_look _).bind fun _ ↦ (within_written _).bind fun _ ↦ .pure _
  · exact .pure _

theorem within_sameBlock (target other : String) :
    Within (Proceeds moves) (apply (.sameBlock target other : Step Obj)) := by
  refine Within.get.bind fun s ↦ Within.get.bind fun _ ↦ ?_
  split
  · exact .pure _
  · exact .pure _

theorem within_rebind (r source : String) :
    Within (Proceeds moves) (apply (.rebind r source : Step Obj)) := by
  refine Within.get.bind fun s ↦ ?_
  split
  · exact within_onVariable r (fun i ↦ (Heap.within_hold _).bind fun _ ↦ Heap.within_rebind i _)
      fun _ ↦ .pure _
  · exact .pure _

theorem within_newHandle (r source : String) :
    Within (Proceeds moves) (apply (.newHandle r source : Step Obj)) := by
  refine Within.get.bind fun s ↦ ?_
  split
  · exact within_onHeapThen ((Heap.within_hold _).bind fun _ ↦ Heap.within_newHandle _) fun _ ↦
      within_thenPure (within_keepReference r _) _
  · exact .pure _

theorem within_instances : Within (Proceeds moves) (apply (.instances : Step Obj)) := by
  refine Within.get.bind fun s ↦ ?_
  split
  · exact .pure _
  · exact .pure _

/-- **Every step** changes the heap by single changes, and no cursor registers but its own.  Names
are given numbers by the steps that are for it only. -/
theorem within_apply {x : Step Obj} (hnumbered : x.numbered? = none)
    (hmoves : ∀ name, x.moves name → moves name) :
    Within (Proceeds moves) (apply x) := by
  cases x with
  | bind r v =>
    rw [apply]
    exact (within_operandCopy v).bind fun v ↦ within_onHeapThen (Heap.within_bindNew v) fun _ ↦
      within_thenPure (within_keepReference r _) _
  | uninit r =>
    exact within_onHeapThen Heap.within_newUninit fun _ ↦
      within_thenPure (within_keepReference r _) _
  | null r => exact within_thenPure (within_keepReference r none) _
  | «alias» r source =>
    exact (within_shareReference source).bind fun _ ↦ within_thenPure (within_keepReference r _) _
  | duplicate r source => exact within_duplicate r source
  | drop r => exact within_drop r
  | dropAll => exact (within_dropAll fun name ↦ hmoves name trivial).bind fun _ ↦ .pure _
  | same r other =>
    exact (within_reference r).bind fun _ ↦ (within_reference other).bind fun _ ↦ .pure _
  | info r =>
    exact (within_deref r).bind fun i ↦ (within_look _).bind fun _ ↦ (within_look _).bind fun _ ↦
      .pure _
  | snapshot r target =>
    exact within_onVariable r Heap.within_snapshot fun _ ↦
      within_thenPure (within_keepValue target _) _
  | copy v target =>
    rw [apply]
    exact (within_operandCopy v).bind fun _ ↦ within_thenPure (within_keepValue target _) _
  | dropValue target => exact within_dropValue target
  | display v =>
    rw [apply]
    exact within_withOperand v fun w ↦ (within_written w).bind fun _ ↦ Within.get.bind fun _ ↦
      .pure _
  | incrementValue target => exact within_incrementValue target
  | copyInto target v => exact within_copyInto target v
  | compare left right =>
    rw [apply]
    exact within_withOperands left right fun _ _ ↦ Within.get.bind fun _ ↦ .pure _
  | contains v needle =>
    rw [apply]
    exact within_withOperands v needle fun _ _ ↦ Within.get.bind fun _ ↦ .pure _
  | operate op left right target =>
    rw [apply]
    exact within_withOperands left right fun a b ↦
      within_onHeapThen (Heap.within_operate op a b) fun w ↦
        (within_deliverValue target w).bind fun _ ↦ .pure _
  | pack v => exact within_pack v
  | allocate v target =>
    rw [apply]
    exact (within_operandCopy v).bind fun v ↦ within_onHeapThen (Heap.within_place v) fun _ ↦
      within_thenPure (within_keepBlock target _) _
  | blank target =>
    exact within_onHeapThen Heap.within_blankBlock fun _ ↦
      within_thenPure (within_keepBlock target _) _
  | blockOf r target =>
    exact within_onVariable r Heap.within_snapshot fun _ ↦
      within_thenPure (within_keepBlock target _) _
  | dropBlock target => exact within_dropBlock target
  | displayBlock target => exact within_displayBlock target
  | sameBlock target other => exact within_sameBlock target other
  | rebind r source => exact within_rebind r source
  | newHandle r source => exact within_newHandle r source
  | poolStats kind => exact Within.get.bind fun _ ↦ .pure _
  | instances => exact within_instances
  | assign r v =>
    rw [apply]
    exact within_withOperand v fun w ↦ within_onVariable r (Heap.within_assign · w) fun _ ↦ .pure _
  | setValue r v =>
    rw [apply]
    exact (within_operandCopy v).bind fun w ↦ (within_holding _ (within_deref r)).bind fun i ↦
      within_onHeapThen (Heap.within_setValue i w) fun _ ↦ .pure _
  | overwrite r v =>
    rw [apply]
    exact (within_operandCopy v).bind fun w ↦ (within_holding _ (within_deref r)).bind fun i ↦
      within_onHeapThen (Heap.within_overwrite i w) fun _ ↦ .pure _
  | increment r => exact within_onVariable r Heap.within_increment fun _ ↦ .pure _
  | operateInPlace op r v =>
    rw [apply]
    exact within_withOperand v fun w ↦
      within_onVariable r (Heap.within_operateInPlace op · w) fun _ ↦ .pure _
  | getMember r name into =>
    exact within_onVariable r (Heap.within_getMember? · name) fun _ ↦ within_deliver into _
  | addMember r name into =>
    exact within_onVariable r (Heap.within_addMember · name) fun _ ↦ within_deliver into _
  | setMember r name v keep into =>
    rw [apply]
    exact within_withOperand v fun w ↦
      within_onVariable r (Heap.within_setMember? · name w keep) fun _ ↦ within_deliver into _
  | getMemberById r number into =>
    exact within_onVariable r (Heap.within_getMemberById? · number) fun _ ↦ within_deliver into _
  | setMemberById r number v keep into =>
    rw [apply]
    exact within_withOperand v fun w ↦
      within_onVariable r (Heap.within_setMemberById? · number w keep) fun _ ↦ within_deliver into _
  | memberNumber name => cases hnumbered
  | memberName number => exact Within.get.bind fun _ ↦ .pure _
  | removeMember r name =>
    exact within_onVariable r (Heap.within_removeMember · name) fun w ↦
      (within_deliverValue none w).bind fun _ ↦ .pure _
  | hasMember r name =>
    exact within_onVariable r (fun _ ↦ Heap.within_look _) fun _ ↦ (within_written _).bind fun _ ↦
      .pure _
  | subscript r index into =>
    rw [apply]
    exact within_withOperand index fun w ↦
      within_onVariable r (Heap.within_subscript · w) fun _ ↦ within_deliver into _
  | assignElement r index v keep into =>
    rw [apply]
    exact within_withOperand v fun w ↦
      within_onVariable r (Heap.within_assignElement · index w keep) fun _ ↦ within_deliver into _
  | elements r x into => exact within_applyElements r into x
  | call r name args answers target =>
    rw [apply]
    exact within_applyCall r args answers target fun i caller ↦ Heap.within_callMethod i name caller
  | callBuiltin r method args force answers target =>
    rw [apply]
    exact within_applyCall r args answers target fun i caller ↦
      Heap.within_callBuiltin i method caller force
  | newCursor r target bound => exact within_newCursor (hmoves target rfl) r bound
  | advance target bound into => exact within_advance (hmoves target rfl) bound into
  | dropCursor target => exact within_dropCursor (hmoves target rfl)

theorem within_receive (name : String) (bytes : List UInt8) :
    Within (Proceeds fun _ ↦ False) (receive name bytes : SessionM Obj _) := by
  refine (within_onHeap (Heap.within_unpack bytes)).bind fun r ↦ ?_
  cases r with
  | ok v => exact (within_keepValue name _).bind fun _ ↦ .pure _
  | error e => exact .pure _

theorem proceeds_step (s : Session Obj) {x : Step Obj} (hnumbered : x.numbered? = none) :
    s.Proceeds x.moves (s.step x).2 := by
  rw [step]
  cases hrun : apply x s with
  | ok a t => exact (within_apply hnumbered fun _ hname ↦ hname).of_ok hrun
  | error e t => exact (within_apply hnumbered fun _ hname ↦ hname).of_error hrun

/-- A name is given a number. -/
theorem step_memberNumber (s : Session Obj) (name : String) :
    s.step (.memberNumber name) =
      (.number (s.heap.members.intern name).1,
        { s with heap := { s.heap with members := (s.heap.members.intern name).2 } }) :=
  rfl

theorem comesTo_step (s : Session Obj) (x : Step Obj) : s.ComesTo x.moves (s.step x).2 := by
  cases hnumbered : x.numbered? with
  | none => exact (s.proceeds_step hnumbered).comesTo
  | some name =>
    cases x with
    | memberNumber name => exact ⟨(Heap.Alters.named _).comesTo, fun _ _ ↦ rfl⟩
    | _ => cases hnumbered

theorem proceeds_received (s : Session Obj) (name : String) (bytes : List UInt8) :
    s.Proceeds (fun _ ↦ False) (s.received name bytes) := by
  rw [received]
  cases hrun : receive name bytes s with
  | ok a t => exact (within_receive name bytes).of_ok hrun
  | error e t => exact (within_receive name bytes).of_error hrun

/-! ## Sessions one after another -/

/-- What steps and packed values make of a session. -/
inductive Succeeds (s : Session Obj) : Session Obj → Prop where
  | refl : Succeeds s s
  | step {t : Session Obj} (ht : Succeeds s t) (x : Step Obj) : Succeeds s (t.step x).2
  | receive {t : Session Obj} (ht : Succeeds s t) (name : String) (bytes : List UInt8) :
    Succeeds s (t.received name bytes)

variable {s t : Session Obj}

theorem Succeeds.arises (ht : s.Succeeds t) (hs : s.Arises) : t.Arises := by
  induction ht with
  | refl => exact hs
  | step _ x ih => exact ih.step x
  | receive _ name bytes ih => exact ih.receive name bytes

theorem Succeeds.run (ht : s.Succeeds t) (xs : List (Step Obj)) : s.Succeeds (t.run xs).2 := by
  induction xs generalizing t with
  | nil => exact ht
  | cons x xs ih => exact ih (ht.step x)

theorem Succeeds.comesTo (ht : s.Succeeds t) : s.heap.ComesTo t.heap := by
  induction ht with
  | refl => exact refl_of Heap.ComesTo s.heap
  | step _ x ih => exact trans_of Heap.ComesTo ih (comesTo_step _ x).1
  | receive _ name bytes ih => exact trans_of Heap.ComesTo ih (proceeds_received _ name bytes).1.1

end Session
end ScriptHeap
