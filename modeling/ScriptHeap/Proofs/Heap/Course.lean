import Mathlib.Order.Defs.Unbundled
import ScriptHeap.Heap.Call
import ScriptHeap.Heap.Cursor
import ScriptHeap.Heap.Operate
import ScriptHeap.Proofs.Heap.Bringing
import ScriptHeap.Proofs.Heap.Members

/-!
# The course of operations

Whatever is done to a heap is done in single changes, of which there are ten: holds that come and
go, new blocks, handles and lists, other contents in those that are there, and the two notes that a
heap keeps.  A course is a sequence of such changes, with the kinds of the handles that were made on
the way.  What one change keeps is then kept by every operation, also by one that ends with a fault.

## What is here

* `Heap.Alters`, `Heap.Course` — single changes, and what they lead to.
* `Heap.Proceeds` — a course in which names are given no numbers.
* `within_callMethod`, `within_subscript`, `within_unpack`, … — every operation on a heap is a
  course.
-/

set_option autoImplicit false
namespace ScriptHeap

/-! ## Changes of a heap -/

namespace Heap

variable {Obj : Type} [HostObject Obj] {h t u : Heap Obj} {made more : List Kind}

/-- A single change of a heap.  One that makes a handle is known by the kind of the value that the
handle has then. -/
inductive Alters (h : Heap Obj) : Option Kind → Heap Obj → Prop where
  | retained (x : Hold) : Alters h none (h.retainOne x)
  | dropped (x : Hold) : Alters h none (h.dropOne x).2
  | filled (name : PoolName) (v : Value Obj) : Alters h none (h.filled name v).2
  | listed (is : List HandleId) : Alters h none (h.withList is).2
  | made {b : BlockId} {v : Value Obj} (hb : h.valueAt? b = some v) :
    Alters h (some v.kind) (h.addHandle b v.kind).2
  | valued (b : BlockId) (v : Value Obj) : Alters h none (h.withValue b v)
  | moved (i : HandleId) (b : BlockId) : Alters h none (h.withBlock i b)
  | ordered (l : ListId) (is : List HandleId) : Alters h none (h.withElements l is)
  | blanked (b : Option BlockId) : Alters h none { h with blank := b }
  | named (names : MemberNames) : Alters h none { h with members := names }

/-- One change after another, and the kinds of the handles that were made, the oldest first. -/
inductive Course (h : Heap Obj) : List Kind → Heap Obj → Prop where
  | start : Course h [] h
  | next {made : List Kind} {t u : Heap Obj} {k : Option Kind} (hc : Course h made t)
    (ha : t.Alters k u) : Course h (made ++ k.toList) u

theorem Course.trans (hc : h.Course made t) (hc' : t.Course more u) :
    h.Course (made ++ more) u := by
  induction hc' with
  | start => rwa [List.append_nil]
  | next _ ha ih => exact List.append_assoc .. ▸ ih.next ha

/-- A heap comes to be another one in the course of operations. -/
def ComesTo (h t : Heap Obj) : Prop :=
  ∃ made, h.Course made t

theorem Alters.comesTo {k : Option Kind} (ha : h.Alters k t) : h.ComesTo t :=
  ⟨_, Course.start.next ha⟩

instance : IsPreorder (Heap Obj) ComesTo where
  refl _ := ⟨[], .start⟩
  trans _ _ _ := fun ⟨_, hc⟩ ⟨_, hc'⟩ ↦ ⟨_, hc.trans hc'⟩

/-- A heap comes to be another one, and has given no names numbers on the way. -/
def Proceeds (h t : Heap Obj) : Prop :=
  h.ComesTo t ∧ t.members = h.members

theorem Alters.proceeds {k : Option Kind} (ha : h.Alters k t) (hm : t.members = h.members) :
    h.Proceeds t :=
  ⟨ha.comesTo, hm⟩

instance : IsPreorder (Heap Obj) Proceeds where
  refl h := ⟨refl_of ComesTo h, rfl⟩
  trans _ _ _ h h' := ⟨trans_of ComesTo h.1 h'.1, h'.2.trans h.2⟩

theorem proceeds_retain (h : Heap Obj) (xs : List Hold) : h.Proceeds (h.retain xs) :=
  retain_of_retainOne (refl_of Proceeds) (trans_of Proceeds)
    (fun h x ↦ (Alters.retained x).proceeds (h.sameNotes_retainOne x).members) h xs

theorem proceeds_release (h : Heap Obj) (xs : List Hold) : h.Proceeds (h.release xs) :=
  release_of_dropOne (refl_of Proceeds) (trans_of Proceeds)
    (fun h x ↦ (Alters.dropped x).proceeds (h.sameNotes_dropOne x).members) h xs

end Heap

/-! ## Holds, blocks and handles -/

namespace Heap

variable {Obj α : Type} [HostObject Obj] {act : HeapM Obj α}

theorem within_look (f : Heap Obj → Option α) : Within Proceeds (look f) := by
  refine Within.get.bind fun h ↦ ?_
  split
  · exact .pure _
  · exact .throw _

theorem within_hold (xs : List Hold) : Within Proceeds (hold xs : HeapM Obj Unit) :=
  .modify fun h ↦ h.proceeds_retain xs

theorem within_letGo (xs : List Hold) : Within Proceeds (letGo xs : HeapM Obj Unit) :=
  .modify fun h ↦ h.proceeds_release xs

theorem within_holding (xs : List Hold) (hact : Within Proceeds act) :
    Within Proceeds (holding xs act) :=
  hact.tryCatch fun e ↦ (within_letGo xs).bind fun _ ↦ .throw e

theorem within_copy (v : Value Obj) : Within Proceeds (copy v) :=
  (within_hold _).bind fun _ ↦ .pure v

theorem within_allocate (v : Value Obj) : Within Proceeds (allocate v) := by
  refine Within.get.bind fun h ↦ ?_
  split
  · exact Within.get.bind fun _ ↦ (within_letGo _).bind fun _ ↦ .throw _
  · exact .modifyGet fun h ↦ (Alters.filled _ v).proceeds rfl

theorem within_blankBlock : Within Proceeds (blankBlock : HeapM Obj BlockId) := by
  refine Within.get.bind fun h ↦ ?_
  split
  · exact (within_hold _).bind fun _ ↦ .pure _
  · exact (within_allocate _).bind fun b ↦ (within_hold _).bind fun _ ↦
      (Within.modify fun h ↦ (Alters.blanked (some b)).proceeds rfl).bind fun _ ↦ .pure b

theorem within_place (v : Value Obj) : Within Proceeds (place v) := by
  rw [place]
  split
  · exact within_blankBlock
  · exact within_allocate v

theorem within_isSole (b : BlockId) : Within Proceeds (isSole b : HeapM Obj Bool) :=
  Within.get.bind fun _ ↦ .pure _

theorem within_writeBlock (b : BlockId) (v : Value Obj) : Within Proceeds (writeBlock b v) :=
  .modify fun _ ↦ (Alters.valued b v).proceeds rfl

omit [HostObject Obj] in
theorem look_eq_ok {f : Heap Obj → Option α} {h t : Heap Obj} {a : α}
    (hrun : look f h = .ok a t) : f h = some a ∧ t = h := by
  cases hf : f h with
  | none =>
    rw [look, bind_of_ok (Scene.get_eq h)] at hrun
    simp only [hf] at hrun
    cases hrun
  | some a' =>
    cases (look_eq hf).symm.trans hrun
    exact ⟨rfl, rfl⟩

/-- Here a handle is made, and nowhere else. -/
theorem within_newHandle (b : BlockId) : Within Proceeds (newHandle b : HeapM Obj HandleId) := by
  intro h
  refine Ends.bind (Ends.known (within_look (·.valueAt? b) h)) fun v t ⟨_, hrun⟩ ↦ ?_
  obtain ⟨hv, rfl⟩ := look_eq_ok hrun
  exact .of_ok rfl ((Alters.made hv).proceeds rfl)

theorem within_bindNew (v : Value Obj) : Within Proceeds (bindNew v) :=
  (within_place v).bind within_newHandle

theorem within_newUninit : Within Proceeds (newUninit : HeapM Obj HandleId) :=
  within_blankBlock.bind within_newHandle

theorem within_duplicate (i : HandleId) : Within Proceeds (duplicate i : HeapM Obj HandleId) :=
  (within_look _).bind fun b ↦ (within_hold _).bind fun _ ↦ within_newHandle b

theorem within_snapshot (i : HandleId) : Within Proceeds (snapshot i : HeapM Obj BlockId) :=
  (within_look _).bind fun b ↦ (within_hold _).bind fun _ ↦ .pure b

theorem within_rebind (i : HandleId) (b : BlockId) :
    Within Proceeds (rebind i b : HeapM Obj Unit) :=
  (within_look _).bind fun _ ↦ (Within.modify fun _ ↦ (Alters.moved i b).proceeds rfl).bind fun _ ↦
    within_letGo _

theorem within_own (i : HandleId) : Within Proceeds (own i : HeapM Obj BlockId) := by
  refine (within_look _).bind fun b ↦ (within_isSole b).bind fun sole ↦ ?_
  split
  · exact .pure b
  · exact (within_look _).bind fun v ↦ (within_copy v).bind fun w ↦ (within_allocate w).bind
      fun fresh ↦ (within_rebind i fresh).bind fun _ ↦ .pure fresh

theorem within_setValue (i : HandleId) (v : Value Obj) : Within Proceeds (setValue i v) := by
  refine (within_look _).bind fun b ↦ (within_look _).bind fun old ↦
    (within_isSole b).bind fun sole ↦ ?_
  split
  · exact (within_writeBlock b v).bind fun _ ↦ within_letGo _
  · exact (within_place v).bind fun fresh ↦ within_rebind i fresh

theorem within_assign (i : HandleId) (v : Value Obj) : Within Proceeds (assign i v) :=
  (within_copy v).bind fun w ↦ within_setValue i w

theorem within_overwrite (i : HandleId) (v : Value Obj) : Within Proceeds (overwrite i v) :=
  (within_holding _ (within_own i)).bind fun b ↦ (within_look _).bind fun _ ↦
    (within_writeBlock b v).bind fun _ ↦ within_letGo _

theorem within_increment (i : HandleId) : Within Proceeds (increment i : HeapM Obj Unit) := by
  refine (within_look _).bind fun v ↦ ?_
  split
  · exact (within_own i).bind fun b ↦ (within_look _).bind fun _ ↦ within_writeBlock b _
  · exact .pure _

/-! ## Element lists -/

theorem within_newList (is : List HandleId) : Within Proceeds (newList is : HeapM Obj ListId) :=
  .modifyGet fun _ ↦ (Alters.listed is).proceeds rfl

theorem within_setElements (l : ListId) (is : List HandleId) :
    Within Proceeds (setElements l is : HeapM Obj Unit) :=
  .modify fun _ ↦ (Alters.ordered l is).proceeds rfl

theorem within_duplicateAll (is : List HandleId) :
    Within Proceeds (duplicateAll is : HeapM Obj (List HandleId)) :=
  .mapM within_duplicate is

theorem within_ownList (l : ListId) : Within Proceeds (ownList l : HeapM Obj ListId) := by
  refine (within_look _).bind fun c ↦ ?_
  split
  · exact .pure l
  · exact (within_duplicateAll _).bind fun is ↦ (within_newList is).bind fun fresh ↦
      (within_letGo _).bind fun _ ↦ .pure fresh

theorem within_ensureApart (b : BlockId) (is : List HandleId) :
    Within Proceeds (ensureApart b is : HeapM Obj Unit) := by
  refine Within.get.bind fun h ↦ ?_
  split
  · exact .throw _
  · exact .pure _

theorem within_ownListFor (b : BlockId) (l : ListId) :
    Within Proceeds (ownListFor b l : HeapM Obj ListId) := by
  refine (within_look _).bind fun c ↦ ?_
  split
  · exact (within_ensureApart b _).bind fun _ ↦ within_ownList l
  · exact within_ownList l

theorem within_ownListIn (b : BlockId) :
    Within Proceeds (ownListIn b : HeapM Obj (Option ListId)) := by
  refine (within_look _).bind fun v ↦ ?_
  split
  · exact .pure none
  · exact (within_ownListFor b _).bind fun fresh ↦ (within_writeBlock b _).bind fun _ ↦ .pure _

theorem within_ownContainer (i : HandleId) :
    Within Proceeds (ownContainer i : HeapM Obj (Option ListId)) :=
  (within_own i).bind within_ownListIn

theorem within_share (i : HandleId) : Within Proceeds (share i : HeapM Obj HandleId) :=
  (within_hold _).bind fun _ ↦ .pure i

/-! ## Data brought in -/

theorem additive_within : Additive fun _ α (act : HeapM Obj α) ↦ Within Proceeds act where
  pure := .pure
  bind hact hf := hact.bindKnown hf
  passing hact hg := hact.tryCatch fun fault ↦ (hg fault).bind fun _ ↦ .throw fault
  letGo := within_letGo
  newList := within_newList
  bindNew := within_bindNew

theorem within_newArray (vs : List (Value Obj)) : Within Proceeds (newArray vs) :=
  additive_within.newArray vs

theorem within_plant (d : Datum Obj) : Within Proceeds (plant d) :=
  additive_within.plant d

theorem within_plantAll (ds : List (Datum Obj)) : Within Proceeds (plantAll ds) :=
  additive_within.plantAll ds

theorem within_unpack (bytes : List UInt8) :
    Within Proceeds (unpack bytes : HeapM Obj (Except Packed.DecodeError (Value Obj))) :=
  additive_within.unpack bytes

/-! ## Members and subscripts -/

theorem within_element? (i : HandleId) (place : Nat) :
    Within Proceeds (element? i place : HeapM Obj (Option HandleId)) := by
  refine (within_ownContainer i).bind fun r ↦ ?_
  cases r with
  | none => exact .pure none
  | some l =>
    refine (within_look _).bind fun is ↦ ?_
    split
    · exact .pure none
    · exact (within_share _).bind fun _ ↦ .pure _

theorem within_getMember? (i : HandleId) (name : String) :
    Within Proceeds (getMember? i name : HeapM Obj (Option HandleId)) := by
  refine (within_look _).bind fun v ↦ ?_
  split
  · split
    · exact within_element? i _
    · exact .pure none
  · split
    · exact (within_bindNew _).bind fun _ ↦ .pure _
    · exact .pure none
  · split
    · exact (within_bindNew _).bind fun _ ↦ .pure _
    · exact .pure none
  · exact .pure none

theorem within_appendMember (b : BlockId) (name : String) (e : HandleId) :
    Within Proceeds (appendMember b name e : HeapM Obj Unit) := by
  refine (within_look _).bind fun v ↦ ?_
  split
  · exact (within_holding _ (within_ownListFor b _)).bind fun fresh ↦
      (within_writeBlock b _).bind fun _ ↦ (within_look _).bind fun is ↦ within_setElements fresh _
  · exact within_letGo _

theorem within_replaceElement (l : ListId) (place : Nat) (e : HandleId) :
    Within Proceeds (replaceElement l place e : HeapM Obj Unit) := by
  refine (within_look _).bind fun is ↦ ?_
  split
  · exact (within_setElements l _).bind fun _ ↦ within_letGo _
  · exact within_letGo _

theorem within_assignExisting (e fresh : HandleId) (v : Value Obj) :
    Within Proceeds (assignExisting e fresh v) :=
  (within_holding _ (within_assign e v)).bind fun _ ↦ (within_letGo _).bind fun _ ↦ .pure e

theorem within_setMember? (i : HandleId) (name : String) (v : Value Obj) (keep : Bool) :
    Within Proceeds (setMember? i name v keep) := by
  refine (within_look _).bind fun old ↦ ?_
  split
  · refine (within_copy v).bind fun w ↦ (within_bindNew w).bind fun fresh ↦
      (within_holding _ (within_own i)).bind fun b ↦ ?_
    split
    · exact (within_holding _ ((within_share fresh).bind fun _ ↦
        within_appendMember b name _)).bind fun _ ↦ .pure _
    · refine (within_holding _ (within_ownListIn b)).bind fun r ↦ ?_
      cases r with
      | none => exact .pure _
      | some l =>
        dsimp only
        split
        · refine (within_look _).bind fun is ↦ ?_
          split
          · exact (within_share _).bind fun e ↦ (within_assignExisting e fresh v).bind
              fun _ ↦ .pure _
          · exact .pure _
        · exact (within_share fresh).bind fun _ ↦ (within_replaceElement l _ _).bind
            fun _ ↦ .pure _
  · exact .pure none

theorem within_getMemberById? (i : HandleId) (n : Nat) :
    Within Proceeds (getMemberById? i n : HeapM Obj (Option HandleId)) := by
  refine Within.get.bind fun h ↦ ?_
  split
  · exact within_getMember? i _
  · exact .pure none

theorem within_setMemberById? (i : HandleId) (n : Nat) (v : Value Obj) (keep : Bool) :
    Within Proceeds (setMemberById? i n v keep) := by
  refine Within.get.bind fun h ↦ ?_
  split
  · exact within_setMember? i _ v keep
  · exact .pure none

theorem within_addMember (i : HandleId) (name : String) :
    Within Proceeds (addMember i name : HeapM Obj HandleId) := by
  refine (within_look _).bind fun old ↦ (within_getMember? i name).bind fun r ↦ ?_
  cases r with
  | some e => exact .pure e
  | none =>
    refine within_newUninit.bind fun member ↦ (within_holding _ (within_own i)).bind fun b ↦
      (within_look _).bind fun v ↦ ?_
    split
    · exact (within_holding _ ((within_share member).bind fun _ ↦
        within_appendMember b name _)).bind fun _ ↦ .pure _
    · exact (within_holding _ (within_bindNew _)).bind fun e ↦ (within_letGo _).bind fun _ ↦ .pure e

theorem within_removeAt (b : BlockId) (place : Nat) :
    Within Proceeds (removeAt b place : HeapM Obj (Option HandleId)) := by
  have htake (l : ListId) : Within Proceeds (do
      let is ← elements l
      setElements l (is.eraseIdx place)
      return is[place]? : HeapM Obj (Option HandleId)) :=
    (within_look _).bind fun is ↦ (within_setElements l _).bind fun _ ↦ .pure _
  refine (within_look _).bind fun v ↦ ?_
  dsimp only
  split
  · exact .throwThen _ _
  · refine (within_ownListIn b).bind fun r ↦ ?_
    cases r with
    | none => exact .pure none
    | some l =>
      refine (within_look _).bind fun v ↦ ?_
      split
      · exact (within_writeBlock b _).bind fun _ ↦ htake l
      · exact (Within.pure ()).bind fun _ ↦ htake l

theorem within_removeMember (i : HandleId) (name : String) :
    Within Proceeds (removeMember i name : HeapM Obj (Value Obj)) := by
  refine (within_look _).bind fun v ↦ ?_
  split
  · refine (within_own i).bind fun b ↦ ?_
    split
    · exact (within_removeAt b _).bind fun _ ↦ (within_letGo _).bind fun _ ↦ .pure _
    · exact .pure _
  · exact .pure _

theorem within_subscript (i : HandleId) (index : Value Obj) :
    Within Proceeds (subscript i index) := by
  refine (within_look _).bind fun v ↦ ?_
  split
  · refine (within_own i).bind fun b ↦ (within_look _).bind fun w ↦ ?_
    split
    · refine (within_look _).bind fun is ↦ ?_
      split
      · refine (within_ownListIn b).bind fun r ↦ ?_
        cases r with
        | none => exact within_bindNew _
        | some l =>
          refine (within_look _).bind fun js ↦ ?_
          split
          · exact within_share _
          · exact within_bindNew _
      · exact within_bindNew _
    · exact within_bindNew _
  · exact within_bindNew _
  · refine (within_getMember? i _).bind fun r ↦ ?_
    cases r with
    | some e => exact .pure e
    | none => exact within_bindNew _
  · refine (within_getMember? i _).bind fun r ↦ ?_
    cases r with
    | some e => exact .pure e
    | none => exact within_bindNew _
  · exact within_bindNew _
  · split
    · exact within_bindNew _
    · exact within_bindNew _
  · exact within_bindNew _
  · exact within_bindNew _

theorem within_newUninits (n : Nat) :
    Within Proceeds (newUninits n : HeapM Obj (List HandleId)) := by
  cases n with
  | zero => exact .pure []
  | succ n =>
    exact within_newUninit.bind fun first ↦ (within_duplicateAll _).bind fun _ ↦ .pure _

theorem within_putElement (l : ListId) (place : Nat) (fresh : HandleId) (keep : Bool) :
    Within Proceeds (putElement l place fresh keep : HeapM Obj (Option HandleId)) := by
  refine (within_look _).bind fun is ↦ ?_
  split
  · have hreplace : Within Proceeds (do
        replaceElement l place (← share fresh)
        return none : HeapM Obj (Option HandleId)) :=
      (within_share fresh).bind fun _ ↦ (within_replaceElement l place _).bind fun _ ↦ .pure none
    split
    · exact (within_share _).bind fun _ ↦ .pure _
    · exact hreplace
  · exact (within_newUninits _).bind fun _ ↦ (within_share fresh).bind fun _ ↦
      (within_setElements l _).bind fun _ ↦ .pure none

/-- The element is put in place if its place is found to be within the limit. -/
theorem within_assignAt (i : HandleId) (place size : Nat) (v : Value Obj) (keep : Bool) :
    Within Proceeds (if fillLimit < place - size then
        bindNew (.error indexTooFar)
      else do
        let fresh ← bindNew (← copy v)
        let b ← holding [.handle fresh] (own i)
        match ← readBlock b with
        | .array _ =>
          match ← holding [.handle fresh] (ownListIn b) with
          | none => return fresh
          | some l =>
            match ← holding [.handle fresh] (putElement l place fresh keep) with
            | some e => assignExisting e fresh v
            | none => return fresh
        | _ => return fresh) := by
  split
  · exact within_bindNew _
  refine (within_copy v).bind fun w ↦ (within_bindNew w).bind fun fresh ↦
    (within_holding _ (within_own i)).bind fun b ↦ (within_look _).bind fun w ↦ ?_
  split
  · refine (within_holding _ (within_ownListIn b)).bind fun r ↦ ?_
    cases r with
    | none => exact .pure fresh
    | some l =>
      refine (within_holding _ (within_putElement l place fresh keep)).bind fun r ↦ ?_
      cases r with
      | some e => exact within_assignExisting e fresh v
      | none => exact .pure fresh
  · exact .pure fresh

theorem within_assignElement (i : HandleId) (index : Int32) (v : Value Obj) (keep : Bool) :
    Within Proceeds (assignElement i index v keep) := by
  refine (within_look _).bind fun old ↦ ?_
  dsimp only
  split
  · exact within_bindNew _
  split
  · exact within_bindNew _
  · refine (within_look _).bind fun w ↦ ?_
    split
    · exact (within_look _).bind fun _ ↦ (Within.pure _).bind fun size ↦
        within_assignAt i _ size v keep
    · exact (Within.pure _).bind fun size ↦ within_assignAt i _ size v keep

/-! ## Operators -/

theorem within_addition (v : Value Obj) : Within Proceeds (addition v) := by
  rw [addition.eq_def]
  split
  · exact (within_look _).bind within_duplicateAll
  · exact (within_copy _).bind fun w ↦ (within_bindNew w).bind fun _ ↦ .pure _

theorem within_extended (l : ListId) (added : List HandleId) :
    Within Proceeds (extended l added : HeapM Obj (Value Obj)) :=
  (within_hold _).bind fun _ ↦ (within_ownList l).bind fun fresh ↦ (within_look _).bind fun _ ↦
    (within_setElements fresh _).bind fun _ ↦ .pure _

theorem within_operate (op : Operator) (a b : Value Obj) : Within Proceeds (operate op a b) := by
  rw [operate.eq_def]
  split
  · exact .pure _
  · exact .pure _
  · split
    · exact (within_addition _).bind fun _ ↦ within_extended _ _
    · exact .pure _
  · exact Within.get.bind fun _ ↦ .pure _

theorem within_operateInPlace (op : Operator) (i : HandleId) (v : Value Obj) :
    Within Proceeds (operateInPlace op i v) := by
  refine (within_look _).bind fun old ↦ ?_
  split
  · refine (within_addition v).bind fun added ↦ (within_holding _ (within_own i)).bind fun b ↦
      (within_look _).bind fun w ↦ ?_
    split
    · refine (within_holding _ (within_ownListIn b)).bind fun r ↦ ?_
      cases r with
      | some l => exact (within_look _).bind fun _ ↦ within_setElements l _
      | none => exact within_letGo _
    · exact within_letGo _
  · exact (within_look _).bind fun a ↦ (within_operate op a v).bind fun w ↦ within_setValue i w

/-! ## Cursors -/

theorem within_newCursor? (i : HandleId) (bound : Option HandleId) :
    Within Proceeds (newCursor? i bound : HeapM Obj (Option Cursor)) := by
  refine (within_look _).bind fun v ↦ ?_
  dsimp only
  split
  · refine (within_own i).bind fun b ↦ (within_ownListIn b).bind fun r ↦ ?_
    cases r with
    | none => exact .pure none
    | some l =>
      exact (within_look _).bind fun is ↦ (within_look _).bind fun w ↦ (within_hold _).bind
        fun _ ↦ .pure _
  · exact .pure none

theorem within_advance (c : Cursor) :
    Within Proceeds (advance c : HeapM Obj (Option HandleId × Cursor)) := by
  rw [advance]
  split
  · exact .pure _
  · refine (within_share _).bind fun e ↦ ?_
    split
    · exact (within_holding _ (within_setValue _ _)).bind fun _ ↦ .pure _
    · exact (Within.pure ()).bind fun _ ↦ .pure _

/-! ## Calls -/

theorem within_reorder (b : BlockId) (compares : Bool)
    (f : Heap Obj → List HandleId → List HandleId) : Within Proceeds (reorder b compares f) := by
  refine (within_ownListIn b).bind fun r ↦ ?_
  cases r with
  | none => exact .pure _
  | some l =>
    have hput (is : List HandleId) : Within Proceeds (do
        setElements l (f (← get) is)
        return .ofBool true : HeapM Obj (Value Obj)) :=
      Within.get.bind fun _ ↦ (within_setElements l _).bind fun _ ↦ .pure _
    refine (within_look _).bind fun is ↦ ?_
    dsimp only
    split
    · exact (within_ensureApart b is).bind fun _ ↦ hput is
    · exact hput is

theorem within_insertAt (b : BlockId) (place : Nat) (v : Value Obj) :
    Within Proceeds (insertAt b place v) := by
  refine (within_copy v).bind fun w ↦ (within_bindNew w).bind fun e ↦
    (within_holding _ (within_ownListIn b)).bind fun r ↦ ?_
  cases r with
  | none => exact (within_letGo _).bind fun _ ↦ .pure _
  | some l => exact (within_look _).bind fun _ ↦ (within_setElements l _).bind fun _ ↦ .pure _

theorem within_arrayMethod (b : BlockId) (size : Nat) (m : Method) (args : List (Value Obj)) :
    Within Proceeds (arrayMethod b size m args) := by
  cases m with
  | size => exact .pure _
  | append =>
    rw [arrayMethod.eq_def]
    dsimp only
    split
    · exact (within_insertAt b size _).bind fun _ ↦ .pure _
    · exact .pure _
  | insert =>
    rw [arrayMethod.eq_def]
    dsimp only
    split
    · split
      · exact (within_insertAt b _ _).bind fun _ ↦ .pure _
      · exact .pure _
    · exact .pure _
    · exact .pure _
  | erase =>
    rw [arrayMethod.eq_def]
    dsimp only
    split
    · split
      · exact (within_removeAt b _).bind fun _ ↦ (within_letGo _).bind fun _ ↦ .pure _
      · exact .pure _
    · exact .pure _
    · exact .pure _
  | «exists» =>
    rw [arrayMethod.eq_def]
    dsimp only
    split
    · exact .pure _
    · exact .pure _
    · exact .pure _
  | reverse => exact (within_reorder b false _).bind fun _ ↦ .pure _
  | sort => exact (within_reorder b true _).bind fun _ ↦ .pure _
  | _ => exact .pure _

theorem within_structMethod (i : HandleId) (m : Method) (args : List (Value Obj)) :
    Within Proceeds (structMethod i m args) := by
  cases m with
  | size =>
    refine (within_look _).bind fun v ↦ ?_
    split
    · exact (within_look _).bind fun _ ↦ .pure _
    · exact .pure _
  | «exists» =>
    rw [structMethod.eq_def]
    dsimp only
    split
    · exact (within_look _).bind fun _ ↦ .pure _
    · exact .pure _
    · exact .pure _
  | erase =>
    rw [structMethod.eq_def]
    dsimp only
    split
    · exact (within_removeMember i _).bind fun _ ↦ .pure _
    · exact .pure _
    · exact .pure _
  | keys => exact (within_look _).bind fun v ↦ (within_newArray _).bind fun _ ↦ .pure _
  | _ => exact .pure _

theorem within_hostMethod (b : BlockId) (name : String) (args : List (Value Obj)) :
    Within Proceeds (hostMethod b name args) := by
  refine (within_look _).bind fun v ↦ ?_
  split
  · dsimp only
    refine (within_writeBlock b _).bind fun _ ↦ ?_
    split
    · exact .pure _
    · split
      · exact (within_copy _).bind fun _ ↦ .pure _
      · exact .pure _
    · exact .pure _
  · exact .pure _

theorem within_argumentValues (params : List (Option HandleId)) :
    Within Proceeds (argumentValues params : HeapM Obj (List (Value Obj))) := by
  refine .mapM (fun p ↦ ?_) params
  cases p with
  | some i => exact (within_look _).bind within_copy
  | none => exact .pure _

theorem within_withArguments (params : List (Option HandleId)) {f : List (Value Obj) → HeapM Obj α}
    (hf : ∀ args, Within Proceeds (f args)) : Within Proceeds (withArguments params f) :=
  (within_argumentValues params).bind fun args ↦ (within_holding _ (hf args)).bind fun _ ↦
    (within_letGo _).bind fun _ ↦ .pure _

theorem within_dispatch (i : HandleId) (m : Method) (args : List (Value Obj)) :
    Within Proceeds (dispatch i m args) := by
  refine (within_look _).bind fun v ↦ (within_look _).bind fun w ↦ ?_
  split
  · refine (within_own i).bind fun b ↦ (within_look _).bind fun w ↦ ?_
    split
    · exact (within_look _).bind fun is ↦ within_arrayMethod b _ m args
    · exact .pure _
  · exact within_structMethod i m args
  · split
    · exact Within.get.bind fun _ ↦ .pure _
    · exact .pure _
  · exact (within_own i).bind fun b ↦ within_hostMethod b _ args
  · exact .pure _

theorem within_callBuiltin (i : HandleId) (m : Method) (caller : Caller Obj) (force : Bool) :
    Within Proceeds (callBuiltin i m caller force) := by
  refine (within_look _).bind fun v ↦ ?_
  dsimp only
  generalize (if force = true then none else caller.answer? v m) = answer
  cases answer with
  | some w => exact (within_copy w).bind fun _ ↦ .pure _
  | none =>
    refine within_withArguments _ fun args ↦ (within_look _).bind fun w ↦
      (within_dispatch i m args).bind fun r ↦ ?_
    cases r with
    | some w => exact .pure _
    | none => exact .pure _

theorem within_callMethod (i : HandleId) (name : String) (caller : Caller Obj) :
    Within Proceeds (callMethod i name caller) := by
  refine (within_look _).bind fun v ↦ ?_
  split
  · refine within_withArguments _ fun args ↦ (within_own i).bind fun b ↦
      (within_hostMethod b name args).bind fun r ↦ ?_
    cases r with
    | some w => exact .pure _
    | none => exact (within_look _).bind fun _ ↦ .pure _
  · split
    · exact within_callBuiltin i _ caller false
    · exact .pure _

end Heap
end ScriptHeap
