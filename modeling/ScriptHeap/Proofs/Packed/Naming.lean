import ScriptHeap.Packed.Reading
import ScriptHeap.Proofs.Datum
import ScriptHeap.Proofs.Outcome

/-!
# What is read names its elements

Whatever the bytes are, every struct that is read from them has a name for each element.  That goes
for a value that is read to its end, and as well for those that were complete before the reading
failed.

## What is here

* `Packed.Names` — a reader that gives and leaves behind only such data.
* `Packed.names_decode`, `Packed.named_of_unpack` — reading a value does.
-/

set_option autoImplicit false
namespace ScriptHeap.Packed

variable {Obj α β : Type} {act : Decoder Obj α} {good : α → Prop}

/-- All that a reader had complete when it failed names its elements; what it gives meets a
condition. -/
def Names (act : Decoder Obj α) (good : α → Prop) : Prop :=
  ∀ s, Ends act s (fun a _ ↦ good a) fun failure _ ↦ ∀ d ∈ failure.completed, d.Named

namespace Names

theorem pure {a : α} (ha : good a) : Names (pure a : Decoder Obj α) good :=
  fun _ ↦ Ends.pure ha

theorem refuse (cause : DecodeError) : Names (refuse cause : Decoder Obj α) good :=
  fun _ ↦ Ends.throw fun _ hd ↦ absurd hd List.not_mem_nil

theorem bind {f : α → Decoder Obj β} {next : β → Prop} (hact : Names act good)
    (hf : ∀ a, good a → Names (f a) next) : Names (act >>= f) next :=
  fun s ↦ (hact s).bind fun a t ha ↦ hf a ha t

/-- What was complete before joins what is left behind. -/
theorem completing {ds : List (Datum Obj)} (hds : ∀ d ∈ ds, d.Named) (hact : Names act good) :
    Names (completing ds act) good := by
  refine fun s ↦ Ends.tryCatch (hact s) fun failure t hfailure ↦ Ends.throw fun d hd ↦ ?_
  exact (List.mem_append.1 hd).elim (hds d) (hfailure d)

end Names

theorem names_takeBytes (n : Nat) : Names (takeBytes n : Decoder Obj (List UInt8)) fun _ ↦ True := by
  intro s
  refine Ends.after (t := (s.take n).2) rfl ?_
  split
  · exact Ends.pure trivial
  · exact Names.refuse .unexpectedEnd _
  · exact Names.refuse (.broken _) _

theorem names_takeNumber (width : Nat) : Names (takeNumber width : Decoder Obj Nat) fun _ ↦ True :=
  (names_takeBytes width).bind fun _ _ ↦ .pure trivial

theorem names_takeText : Names (takeText : Decoder Obj String) fun _ ↦ True := by
  refine (names_takeNumber 4).bind fun n _ ↦ (names_takeBytes n).bind fun bytes _ ↦ ?_
  cases Text.ofUtf8? bytes with
  | some s => exact .pure trivial
  | none => exact .refuse .invalidUtf8

theorem names_takeTexts (n : Nat) (read : List String) :
    Names (takeTexts n read : Decoder Obj (List String)) fun _ ↦ True := by
  induction n generalizing read with
  | zero => exact .pure trivial
  | succ n ih => exact names_takeText.bind fun s _ ↦ ih (s :: read)

section
variable {inner : Decoder Obj (Datum Obj)}

theorem names_takeData (hinner : Names inner Datum.Named) (n : Nat) {read : List (Datum Obj)}
    (hread : ∀ d ∈ read, d.Named) :
    Names (takeData inner n read) fun ds ↦ ∀ d ∈ ds, d.Named := by
  induction n generalizing read with
  | zero => exact .pure fun d hd ↦ hread d (List.mem_reverse.1 hd)
  | succ n ih =>
    have hreverse : ∀ d ∈ read.reverse, d.Named := fun d hd ↦ hread d (List.mem_reverse.1 hd)
    refine (hinner.completing hreverse).bind fun d hd ↦ ih fun e he ↦ ?_
    rcases List.mem_cons.1 he with rfl | he
    · exact hd
    · exact hread e he

theorem names_takeArray (hinner : Names inner Datum.Named) :
    Names (takeArray inner) Datum.Named := by
  refine (names_takeNumber 4).bind fun n _ ↦
    (names_takeData hinner n fun d hd ↦ absurd hd List.not_mem_nil).bind fun ds hds ↦ .pure ?_
  exact Datum.named_iff.2 ⟨fun _ _ he ↦ (by cases he), hds⟩

/-- The names of elements that were read. -/
theorem names_takeNames {ds : List (Datum Obj)} (hds : ∀ d ∈ ds, d.Named) (count : Nat) :
    Names (do return .struct ((← takeTexts count []).zip ds) [] : Decoder Obj (Datum Obj))
      Datum.Named := by
  refine (names_takeTexts count []).bind fun names _ ↦ .pure (Datum.named_iff.2 ⟨?_, ?_⟩)
  · rintro _ _ ⟨⟩
    rfl
  · intro e he
    rcases List.mem_append.1 he with he | he
    · obtain ⟨m, hm, rfl⟩ := List.mem_map.1 he
      exact hds m.2 (List.of_mem_zip hm).2
    · cases he

theorem names_takeStruct (hinner : Names inner Datum.Named) :
    Names (takeStruct inner) Datum.Named := by
  refine (names_takeNumber 4).bind fun n _ ↦
    (names_takeData hinner n fun d hd ↦ absurd hd List.not_mem_nil).bind fun ds hds ↦
      .completing hds ((names_takeNumber 4).bind fun count _ ↦ ?_)
  have hrefuse (cause : DecodeError) : Names (refuse cause : Decoder Obj PUnit) fun _ ↦ True :=
    .refuse cause
  split
  · exact (hrefuse _).bind fun _ _ ↦ names_takeNames hds count
  · exact names_takeNames hds count

theorem named_scalar (s : Scalar Obj) : (Datum.scalar s).Named :=
  Datum.named_iff.2 ⟨fun _ _ he ↦ (by cases he), fun _ he ↦ absurd he List.not_mem_nil⟩

theorem names_takeBody {inner : Option (Decoder Obj (Datum Obj))}
    (hinner : ∀ act, inner = some act → Names act Datum.Named) (kind : Kind) :
    Names (takeBody inner kind) Datum.Named := by
  cases kind with
  | integer => exact (names_takeNumber 4).bind fun _ _ ↦ .pure (named_scalar _)
  | double => exact (names_takeNumber 8).bind fun _ _ ↦ .pure (named_scalar _)
  | string => exact names_takeText.bind fun _ _ ↦ .pure (named_scalar _)
  | error => exact names_takeText.bind fun _ _ ↦ .pure (named_scalar _)
  | array =>
    cases inner with
    | some act => exact names_takeArray (hinner act rfl)
    | none => exact .refuse _
  | struct =>
    cases inner with
    | some act => exact names_takeStruct (hinner act rfl)
    | none => exact .refuse _
  | _ => exact .pure (named_scalar _)

theorem names_takeValue {inner : Option (Decoder Obj (Datum Obj))}
    (hinner : ∀ act, inner = some act → Names act Datum.Named) :
    Names (takeValue inner) Datum.Named := by
  refine (names_takeNumber 1).bind fun tag _ ↦ ?_
  dsimp only
  split
  · exact .refuse _
  · split
    · exact names_takeBody hinner _
    · exact .refuse _

end

theorem names_takeNested (levels : Nat) :
    Names (takeNested levels : Decoder Obj (Datum Obj)) Datum.Named := by
  induction levels with
  | zero => exact names_takeValue fun _ he ↦ by cases he
  | succ levels ih =>
    refine names_takeValue fun act he ↦ ?_
    cases he
    exact ih

theorem names_decode : Names (decode : Decoder Obj (Datum Obj)) Datum.Named :=
  names_takeNested nestingLimit

/-- **What bytes hold** names its elements, and so does all that was complete before an error. -/
theorem named_of_unpack (bytes : List UInt8) :
    match (unpack bytes : Except (DecodeFailure Obj) (Datum Obj)) with
    | .ok d => d.Named
    | .error failure => ∀ d ∈ failure.completed, d.Named := by
  have hdecode := @names_decode Obj (.ofBytes bytes)
  rw [unpack]
  unfold Ends at hdecode
  split at hdecode
  · rename_i d rest hrun
    rw [EStateM.run, hrun]
    dsimp only
    by_cases hrest : rest.remaining = 0
    · rw [if_pos hrest]
      exact hdecode
    · rw [if_neg hrest]
      intro e he
      rw [List.mem_singleton.1 he]
      exact hdecode
  · rename_i failure rest hrun
    rw [EStateM.run, hrun]
    exact hdecode

end ScriptHeap.Packed
