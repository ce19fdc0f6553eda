import ScriptHeap.Proofs.Heap.Lookups
import ScriptHeap.Proofs.Session.InPlace

/-!
# Structs as maps

A struct is a map from names, which are told apart up to case, with its members in the order in
which they came.  All look-ups agree on what is there, and each way to change a member does to the
map what it says and nothing else.

## What is here

* `Heap.Updates` — what the ways to change a struct do to its members.
* `Heap.struct_is_map` — look-ups agree, and changes keep what they promise.
* `Session.member_misplaced` — a struct with an element that has no name gives the wrong one.
-/

set_option autoImplicit false
namespace ScriptHeap

variable {Obj : Type} [HostObject Obj]

namespace Heap

variable {h : Heap Obj} {xs : List Hold} {i : HandleId} {v : Value Obj} {l : ListId}
  {is : List HandleId} {names : List String} {name : String} {ms : List (String × Datum Obj)}
  {ds : List (Datum Obj)} {d : Datum Obj}

/-- **What the ways to change a struct do to its members** where there are blocks enough.  A member
that was set, by its name or by the number of the name, is the one that is found then; so is one
that was added, and nothing changes if it was there before; removing tells whether there was one. -/
structure Updates (h : Heap Obj) (i : HandleId) (ms : List (String × Datum Obj)) (name : String)
    (v : Value Obj) (d : Datum Obj) : Prop where
  puts : ∀ d, Members.Puts ms name d (Members.put ms name d)
  removes : Members.Removes ms name (Members.without ms name)
  set : ∀ keep, h.Leaves i (setMember? i name v keep) (Members.put ms name d)
    fun r g ↦ ∃ e, r = some e ∧ Runs (getMember? i name) g fun r' _ ↦ r' = some e
  setById : ∀ n keep, h.memberName? n = some name →
    h.Leaves i (setMemberById? i n v keep) (Members.put ms name d)
      fun r g ↦ ∃ e, r = some e ∧ Runs (getMember? i name) g fun r' _ ↦ r' = some e
  add : h.Leaves i (addMember i name)
    (if (Members.find? ms name).isSome then ms else Members.put ms name (.scalar .uninit))
    fun e g ↦ Runs (getMember? i name) g (fun r _ ↦ r = some e) ∧
      ((Members.find? ms name).isSome → h.Alike g)
  remove : h.Leaves i (removeMember i name) (Members.without ms name)
    fun r _ ↦ r = .ofBool (Members.find? ms name).isSome
  erase : h.Leaves i (dispatch i .erase [.string name]) (Members.without ms name)
    fun r _ ↦ r = some (.ofBool (Members.find? ms name).isSome)

omit [HostObject Obj] in
theorem Leaves.congr {α : Type} {act act' : HeapM Obj α} {good : α → Heap Obj → Prop}
    (hl : h.Leaves i act ms good) (hsame : act' h = act h) : h.Leaves i act' ms good := by
  rw [Leaves, Exhausts, hsame]
  exact hl

omit [HostObject Obj] in
theorem Leaves.map {α β : Type} {act : HeapM Obj α} {f : α → β} {good : α → Heap Obj → Prop}
    {good' : β → Heap Obj → Prop} (hl : h.Leaves i act ms good)
    (hgood : ∀ r g, good r g → good' (f r) g) :
    h.Leaves i (do return f (← act)) ms good' := by
  intro hplenty
  obtain ⟨r, g, hrun, hcontents, hr⟩ := hl fun hf ↦ hplenty hf.bind
  exact ⟨f r, g, bind_of_ok hrun, hcontents, hgood r g hr⟩

omit [HostObject Obj] in
/-- Where a value may be stored, none may be stored, too. -/
theorem Operands.uninit (ho : h.Operands xs i (.struct names l) v) :
    h.Operands xs i (.struct names l) .uninit where
  sound := ho.sound
  grounded := ho.grounded
  held := ho.held
  left := ho.left
  right _ hy := absurd hy List.not_mem_nil
  apart _ hy := absurd hy List.not_mem_nil

omit [HostObject Obj] in
theorem KnownStruct.uninit (hm : h.KnownStruct xs i names l is v ds d) :
    h.KnownStruct xs i names l is .uninit ds (.scalar .uninit) where
  operands := hm.operands.uninit
  elements := hm.elements
  named := hm.named
  seen := hm.seen
  value depth _ := outline_scalar depth h .uninit

theorem KnownStruct.updates (hm : h.KnownStruct xs i names l is v ds d) (hd : Distinct names)
    (name : String) : h.Updates i (names.zip ds) name v d := by
  have hdistinct : Distinct ((names.zip ds).map (·.1)) := by
    rwa [List.map_fst_zip (Nat.le_of_eq hm.length_eq)]
  have hfound := Members.isSome_find?_zip hm.length_eq name
  have hremove := hm.removeMember hd name
  refine ⟨Members.puts_put hdistinct name, Members.removes_without hdistinct name,
    hm.setMember? name,
    fun n keep hn ↦ (hm.setMember? name keep).congr (setMemberById?_eq hn i v keep), ?_, ?_, ?_⟩
  · rw [hfound]
    exact hm.uninit.addMember name
  · rwa [hfound]
  · rw [hfound]
    exact (hremove.map fun r g hr ↦ congrArg some hr).congr (dispatch_struct hm.operands.left _ _)

/-- **A struct is a map** in the order in which its members came.  All ways to look a name up agree
on whether it is there.  If a struct has one name for each element and no two of them are the same
up to case, its contents are its members.  When one is set, it has the contents that the value had;
every other change, too, keeps the names different and leaves the other members alone. -/
theorem struct_is_map (hs : h.Sound xs) (hi : .handle i ∈ xs)
    (hv : h.valueOf? i = some (.struct names l)) (his : h.elements? l = some is)
    (hle : names.length ≤ is.length) :
    (∀ name, h.Lookups i names l name) ∧
      (is.length = names.length → Distinct names → ∀ v, h.Operands xs i (.struct names l) v →
        ∃ ms d, h.contents? i = some (.struct ms []) ∧ ms.map (·.1) = names ∧
          h.datum? v = some d ∧ ∀ name, h.Updates i ms name v d) := by
  refine ⟨hs.lookups hi hv his hle, fun hnamed hdistinct v ho ↦ ?_⟩
  obtain ⟨ds, hds, -⟩ := hs.exists_seen ho.grounded his
  obtain ⟨d, hd, hdv⟩ := hs.exists_datum ho.grounded ho.isSome.2
  have hm : h.KnownStruct xs i names l is v ds d := ⟨ho, his, hnamed.symm, hds, hdv⟩
  exact ⟨names.zip ds, d, hm.contents, List.map_fst_zip (Nat.le_of_eq hm.length_eq), hd,
    hm.updates hdistinct⟩

end Heap

namespace Session

/-- A struct with two members, and a snapshot of it. -/
def structAndSnapshot : Session SampleObject :=
  ((start ⟨false, ⟨4, none⟩⟩).run
    [.bind "x" (.literal (.struct [("a", .scalar (.integer 1)), ("b", .scalar (.integer 2))] [])),
      .snapshot "x" "before"]).2

/-- One of its members is set to the struct itself, by the name in another spelling: the name is
there, and the member is what the struct was. -/
theorem struct_is_map_self :
    structAndSnapshot.heap.Lookups ⟨2⟩ ["a", "b"] ⟨0⟩ "B" ∧
      ∃ r h', Heap.setMember? ⟨2⟩ "B" (.struct ["a", "b"] ⟨0⟩) true structAndSnapshot.heap =
          .ok r h' ∧
        h'.contents? ⟨2⟩ = some (.struct [("a", .scalar (.integer 1)),
          ("b", .struct [("a", .scalar (.integer 1)), ("b", .scalar (.integer 2))] [])] []) := by
  have hs : structAndSnapshot.Books := (books_start _).run _
  have hends : ¬ structAndSnapshot.heap.Endless := by
    refine Heap.not_endless_of_rank snapshotRank ?_
    decide +kernel
  have ho : structAndSnapshot.heap.Operands structAndSnapshot.holds ⟨2⟩ (.struct ["a", "b"] ⟨0⟩)
      (.struct ["a", "b"] ⟨0⟩) :=
    .ofSnapshot (b := ⟨.array, ⟨0, 0⟩⟩) hs hends (by decide +kernel) (by decide +kernel)
      (by cbv) (by cbv)
  have helements : structAndSnapshot.heap.elements? ⟨0⟩ = some [⟨0⟩, ⟨1⟩] := by
    cbv
  have hplenty : ¬ Exhausts (Heap.setMember? ⟨2⟩ "B" (.struct ["a", "b"] ⟨0⟩) true)
      structAndSnapshot.heap := by
    decide +kernel
  obtain ⟨hlookups, hmap⟩ := Heap.struct_is_map hs ho.held ho.left helements (by decide)
  obtain ⟨ms, d, hcontents, -, hd, hupdates⟩ := hmap rfl (by decide) _ ho
  cases (show structAndSnapshot.heap.contents? ⟨2⟩ = _ by cbv).symm.trans hcontents
  cases (show structAndSnapshot.heap.datum? (.struct ["a", "b"] ⟨0⟩) = _ by cbv).symm.trans hd
  obtain ⟨r, h', hrun, hset, -⟩ := (hupdates "B").set true hplenty
  exact ⟨hlookups "B", r, h', hrun, hset⟩

/-- A struct with two members, and a third element that has no name. -/
def extendedStruct : Session SampleObject :=
  ((start ⟨false, ⟨4, none⟩⟩).run
    [.bind "x" (.literal (.struct [("a", .scalar (.integer 1)), ("b", .scalar (.integer 2))] [])),
      .elements "x" (.extend (.literal (.array [.scalar (.integer 3)]))) none]).2

/-- **A struct with an element that has no name gives the wrong member.**  A new member gets its
name behind the other names and its element behind the other elements, so that its name stands for
the element that had none: the member that was set is not the one that is found. -/
theorem member_misplaced :
    ∃ s, s = (extendedStruct.run
        [.setMember "x" "c" (.literal (.scalar (.integer 4))) true (some "set"),
          .getMember "x" "c" (some "found")]).2 ∧
      ¬ extendedStruct.heap.Endless ∧ Distinct ["a", "b"] ∧
      extendedStruct.references.get? "x" = some (some ⟨2⟩) ∧
      extendedStruct.heap.valueOf? ⟨2⟩ = some (.struct ["a", "b"] ⟨0⟩) ∧
      ∃ e r, s.references.get? "set" = some (some e) ∧ s.references.get? "found" = some (some r) ∧
        s.heap.contents? e = some (.scalar (.integer 4)) ∧
        s.heap.contents? r = some (.scalar (.integer 3)) := by
  refine ⟨_, rfl, ?_, by decide, by cbv, by cbv, ⟨5⟩, ⟨4⟩, by cbv, by cbv, by cbv, by cbv⟩
  refine Heap.not_endless_of_rank snapshotRank ?_
  decide +kernel

end Session
end ScriptHeap
