import ScriptHeap.Proofs.Packed.Reading

/-!
# Readers that look no further than they read

What a reader does with a stream depends on the bytes it has taken from it and on nothing behind
them.  So there are three things that can come of given bytes: some of them are *accepted*, some of
them are *refused*, whatever follows in either case, or they do not suffice and the reader
*starves*, which is the only way for the ending of the stream to show.  That every reading ends in
one of the three is closed under doing one reading after another, and it settles what happens to
packed values that are cut off, broken off, delivered piecemeal or followed by something else.

## What is here

* `Accepts`, `Refuses`, `Starves` — what can come of bytes, and `Verdict`, one of the three.
* `Incremental` — readers that always come to a verdict; `incremental_decode` for the decoder.
* `decodedFrom` — what the decoder gives at a stream; `decode_congr` says that it does not
  depend on how the bytes are cut into chunks, and `decodedFrom_append` that bytes to come matter
  only to a reader that starves without them.
-/

set_option autoImplicit false
namespace ScriptHeap.Packed

variable {Obj : Type} {α β : Type}

/-! ## Verdicts -/

/-- The errors that bytes themselves are to blame for, and not that there are too few or too many
of them. -/
def DecodeError.IsRefusal : DecodeError → Prop
  | unexpectedEnd | trailing _ | broken _ => False
  | _ => True

theorem Ending.error_ne_trailing (e : Ending) (n : Nat) : e.error ≠ .trailing n := by
  cases e <;> simp [Ending.error]

/-- Whatever follows the bytes, they give a result, and reading stops right behind them. -/
def Accepts (act : Decoder Obj α) (bs : List UInt8) (a : α) : Prop :=
  ∀ ⦃s : Stream⦄ ⦃rest : List UInt8⦄, s.bytes = bs ++ rest → ∃ t, act s = .ok a t ∧ s.Past bs t

/-- Whatever follows the bytes, there is something wrong with them. -/
def Refuses (act : Decoder Obj α) (bs : List UInt8) (failure : DecodeFailure Obj) : Prop :=
  failure.cause.IsRefusal ∧
    ∀ ⦃s : Stream⦄ ⦃rest : List UInt8⦄, s.bytes = bs ++ rest → ∃ t, act s = .error failure t

/-- The bytes do not suffice: what is wrong is that the stream ends behind them. -/
def Starves (act : Decoder Obj α) (bs : List UInt8) (done : List (Datum Obj)) : Prop :=
  ∀ ⦃s : Stream⦄, s.bytes = bs → ∃ t, act s = .error ⟨s.ending.error, done⟩ t

/-- What comes of bytes. -/
inductive Verdict (act : Decoder Obj α) (bs : List UInt8) : Prop
  | accepts (cs rest : List UInt8) (a : α) (hbs : bs = cs ++ rest) (h : Accepts act cs a)
  | refuses (cs rest : List UInt8) (failure : DecodeFailure Obj) (hbs : bs = cs ++ rest)
      (h : Refuses act cs failure)
  | starves (done : List (Datum Obj)) (h : Starves act bs done)

/-- A reader that comes to a verdict on all bytes. -/
def Incremental (act : Decoder Obj α) : Prop :=
  ∀ bs, Verdict act bs

namespace Incremental

theorem pure (a : α) : Incremental (Pure.pure a : Decoder Obj α) := fun bs ↦
  .accepts [] bs a rfl fun s _ _ ↦ ⟨s, rfl, .refl s⟩

theorem refuse {cause : DecodeError} (h : cause.IsRefusal) :
    Incremental (refuse cause : Decoder Obj α) := fun bs ↦
  .refuses [] bs ⟨cause, []⟩ rfl ⟨h, fun s _ _ ↦ ⟨s, rfl⟩⟩

/-- **One reading after another.**  The second is left with what is behind the bytes that the first
accepts. -/
theorem bind {act : Decoder Obj α} {f : α → Decoder Obj β} (h : Incremental act)
    (hf : ∀ a, Incremental (f a)) : Incremental (act >>= f) := by
  intro bs
  cases h bs with
  | starves done h =>
    refine .starves done fun s hs ↦ ?_
    obtain ⟨t, ht⟩ := h hs
    exact ⟨t, bind_of_error ht⟩
  | refuses cs more failure hbs h =>
    refine .refuses cs more failure hbs ⟨h.1, fun s rest hs ↦ ?_⟩
    obtain ⟨t, ht⟩ := h.2 hs
    exact ⟨t, bind_of_error ht⟩
  | accepts cs more a hbs h =>
    -- where the first reading stops in a stream with these bytes and others behind them
    have hmid {s : Stream} {ds : List UInt8} (hs : s.bytes = cs ++ ds) :
        ∃ t, act s = .ok a t ∧ s.Past cs t ∧ t.bytes = ds := by
      obtain ⟨t, ht, hp⟩ := h hs
      exact ⟨t, ht, hp, List.append_cancel_left (hp.bytes.symm.trans hs)⟩
    subst hbs
    cases hf a more with
    | accepts ds left b hmore h' =>
      refine .accepts (cs ++ ds) left b (by rw [hmore, List.append_assoc]) fun s rest hs ↦ ?_
      obtain ⟨t, ht, hp, hrest⟩ := hmid (hs.trans (List.append_assoc _ _ _))
      obtain ⟨u, hu, hq⟩ := h' hrest
      exact ⟨u, (bind_of_ok ht).trans hu, hp.trans hq⟩
    | refuses ds left failure hmore h' =>
      refine .refuses (cs ++ ds) left failure (by rw [hmore, List.append_assoc])
        ⟨h'.1, fun s rest hs ↦ ?_⟩
      obtain ⟨t, ht, -, hrest⟩ := hmid (hs.trans (List.append_assoc _ _ _))
      obtain ⟨u, hu⟩ := h'.2 hrest
      exact ⟨u, (bind_of_ok ht).trans hu⟩
    | starves done h' =>
      refine .starves done fun s hs ↦ ?_
      obtain ⟨t, ht, hp, hrest⟩ := hmid hs
      obtain ⟨u, hu⟩ := h' hrest
      exact ⟨u, (bind_of_ok ht).trans (hp.ending ▸ hu)⟩

/-- Adding to the report of a failure does not change the verdict. -/
theorem tryCatch {act : Decoder Obj α} (h : Incremental act)
    (g : List (Datum Obj) → List (Datum Obj)) :
    Incremental (tryCatch act fun failure ↦
      throw { failure with completed := g failure.completed }) := by
  intro bs
  cases h bs with
  | accepts cs more a hbs h =>
    refine .accepts cs more a hbs fun s rest hs ↦ ?_
    obtain ⟨t, ht, hp⟩ := h hs
    exact ⟨t, tryCatch_of_ok ht, hp⟩
  | refuses cs more failure hbs h =>
    refine .refuses cs more { failure with completed := g failure.completed } hbs
      ⟨h.1, fun s rest hs ↦ ?_⟩
    obtain ⟨t, ht⟩ := h.2 hs
    exact ⟨t, tryCatch_of_error ht⟩
  | starves done h =>
    refine .starves (g done) fun s hs ↦ ?_
    obtain ⟨t, ht⟩ := h hs
    exact ⟨t, tryCatch_of_error ht⟩

end Incremental

/-! ## The parts of the decoder -/

theorem incremental_takeBytes (n : Nat) : Incremental (takeBytes n : Decoder Obj (List UInt8)) := by
  intro bs
  by_cases hn : n ≤ bs.length
  · refine .accepts (bs.take n) (bs.drop n) (bs.take n) (List.take_append_drop n bs).symm
      fun s rest hs ↦ ?_
    obtain ⟨t, ht, hp, -⟩ := (reads_takeBytes n).past (List.length_take_of_le hn) hs
    exact ⟨t, ht, hp⟩
  · refine .starves [] fun s hs ↦ ?_
    have hlt : s.remaining < n := by
      rw [Stream.remaining, hs]
      exact Nat.lt_of_not_le hn
    have htake : s.take n = (.error s.ending, (s.take n).2) :=
      Prod.ext (Stream.take_of_lt hlt) rfl
    exact ⟨(s.take n).2, by rw [takeBytes_eq, htake]⟩

theorem incremental_takeNumber (width : Nat) :
    Incremental (takeNumber width : Decoder Obj Nat) :=
  (incremental_takeBytes width).bind fun _ ↦ .pure _

theorem incremental_takeText : Incremental (takeText : Decoder Obj String) := by
  refine (incremental_takeNumber 4).bind fun n ↦ (incremental_takeBytes n).bind fun bs ↦ ?_
  cases Text.ofUtf8? bs with
  | some s => exact .pure s
  | none => exact .refuse trivial

theorem incremental_takeTexts (n : Nat) (read : List String) :
    Incremental (takeTexts n read : Decoder Obj (List String)) := by
  induction n generalizing read with
  | zero => exact .pure _
  | succ n ih => exact incremental_takeText.bind fun s ↦ ih (s :: read)

section Inner

variable {act : Decoder Obj (Datum Obj)}

theorem incremental_takeData (h : Incremental act) (n : Nat) (read : List (Datum Obj)) :
    Incremental (takeData act n read) := by
  induction n generalizing read with
  | zero => exact .pure _
  | succ n ih => exact (h.tryCatch _).bind fun d ↦ ih (d :: read)

theorem incremental_takeArray (h : Incremental act) : Incremental (takeArray act) :=
  (incremental_takeNumber 4).bind fun n ↦ (incremental_takeData h n []).bind fun _ ↦ .pure _

theorem incremental_takeNames (ds : List (Datum Obj)) :
    Incremental (takeNames ds : Decoder Obj (List String)) := by
  refine (incremental_takeNumber 4).bind fun n ↦ ?_
  split
  · exact incremental_takeTexts n []
  · exact .refuse trivial

theorem incremental_takeStruct (h : Incremental act) : Incremental (takeStruct act) := by
  rw [takeStruct_eq]
  refine (incremental_takeNumber 4).bind fun n ↦ (incremental_takeData h n []).bind fun ds ↦ ?_
  exact ((incremental_takeNames ds).bind fun _ ↦ .pure _).tryCatch _

end Inner

variable {inner : Option (Decoder Obj (Datum Obj))}

theorem incremental_takeBody (h : ∀ act, inner = some act → Incremental act) (kind : Kind) :
    Incremental (takeBody inner kind) := by
  cases kind with
  | integer => exact (incremental_takeNumber 4).bind fun _ ↦ .pure _
  | double => exact (incremental_takeNumber 8).bind fun _ ↦ .pure _
  | string => exact incremental_takeText.bind fun _ ↦ .pure _
  | error => exact incremental_takeText.bind fun _ ↦ .pure _
  | array =>
    cases inner with
    | none => exact .refuse trivial
    | some act => exact incremental_takeArray (h act rfl)
  | struct =>
    cases inner with
    | none => exact .refuse trivial
    | some act => exact incremental_takeStruct (h act rfl)
  | _ => exact .pure _

theorem incremental_takeValue (h : ∀ act, inner = some act → Incremental act) :
    Incremental (takeValue inner) := by
  refine (incremental_takeNumber 1).bind fun n ↦ ?_
  dsimp only
  split
  · exact .refuse trivial
  · split
    · exact incremental_takeBody h _
    · exact .refuse trivial

theorem incremental_takeNested (levels : Nat) :
    Incremental (takeNested levels : Decoder Obj (Datum Obj)) := by
  induction levels with
  | zero => exact incremental_takeValue fun act hact ↦ nomatch hact
  | succ levels ih =>
    refine incremental_takeValue fun act hact ↦ ?_
    cases hact
    exact ih

/-- **The decoder looks no further than it reads.** -/
theorem incremental_decode : Incremental (decode : Decoder Obj (Datum Obj)) :=
  incremental_takeNested nestingLimit

/-! ## What the decoder gives -/

/-- The datum at the beginning of a stream, or what is wrong there. -/
def decodedFrom (s : Stream) : Except (DecodeFailure Obj) (Datum Obj) :=
  match decode s with
  | .ok d _ => .ok d
  | .error failure _ => .error failure

theorem decodedFrom_of_ok {s t : Stream} {d : Datum Obj} (h : decode s = .ok d t) :
    decodedFrom s = .ok d := by
  rw [decodedFrom, h]

theorem decodedFrom_of_error {s t : Stream} {failure : DecodeFailure Obj}
    (h : decode s = .error failure t) : decodedFrom s = .error failure := by
  rw [decodedFrom, h]

/-- **How bytes are cut into chunks makes no difference**, neither to what is read nor to where
reading stops. -/
theorem decode_congr {s s' : Stream} (hbytes : s'.bytes = s.bytes) (hending : s'.ending = s.ending) :
    (decodedFrom s' : Except (DecodeFailure Obj) (Datum Obj)) = decodedFrom s ∧
      ∀ (d : Datum Obj) (t : Stream), decode s = .ok d t →
        ∃ t', decode s' = .ok d t' ∧ t'.bytes = t.bytes := by
  cases (incremental_decode : Incremental (decode : Decoder Obj (Datum Obj))) s.bytes with
  | accepts cs rest d hbs h =>
    obtain ⟨t, ht, hp⟩ := h hbs
    obtain ⟨t', ht', hp'⟩ := h (hbytes.trans hbs)
    refine ⟨(decodedFrom_of_ok ht').trans (decodedFrom_of_ok ht).symm, fun e u hu ↦ ?_⟩
    cases ht.symm.trans hu
    exact ⟨t', ht', List.append_cancel_left (hp'.bytes.symm.trans (hbytes.trans hp.bytes))⟩
  | refuses cs rest failure hbs h =>
    obtain ⟨t, ht⟩ := h.2 hbs
    obtain ⟨t', ht'⟩ := h.2 (hbytes.trans hbs)
    refine ⟨(decodedFrom_of_error ht').trans (decodedFrom_of_error ht).symm, fun e u hu ↦ ?_⟩
    cases ht.symm.trans hu
  | starves done h =>
    obtain ⟨t, ht⟩ := h rfl
    obtain ⟨t', ht'⟩ := h hbytes
    rw [hending] at ht'
    refine ⟨(decodedFrom_of_error ht').trans (decodedFrom_of_error ht).symm, fun e u hu ↦ ?_⟩
    cases ht.symm.trans hu

/-- **Bytes to come** do not matter to a reader, unless it has nothing but the ending of its stream
to report without them. -/
theorem decodedFrom_append {s s' : Stream} {more : List UInt8} (h : s'.bytes = s.bytes ++ more) :
    (decodedFrom s' : Except (DecodeFailure Obj) (Datum Obj)) = decodedFrom s ∨
      Fails (decode : Decoder Obj (Datum Obj)) s.ending.error s := by
  cases (incremental_decode : Incremental (decode : Decoder Obj (Datum Obj))) s.bytes with
  | accepts cs rest d hbs hd =>
    obtain ⟨t, ht, -⟩ := hd hbs
    obtain ⟨t', ht', -⟩ := hd (h.trans (by rw [hbs, List.append_assoc]))
    exact .inl ((decodedFrom_of_ok ht').trans (decodedFrom_of_ok ht).symm)
  | refuses cs rest failure hbs hf =>
    obtain ⟨t, ht⟩ := hf.2 hbs
    obtain ⟨t', ht'⟩ := hf.2 (h.trans (by rw [hbs, List.append_assoc]))
    exact .inl ((decodedFrom_of_error ht').trans (decodedFrom_of_error ht).symm)
  | starves done hs =>
    obtain ⟨t, ht⟩ := hs rfl
    exact .inr ⟨done, t, ht⟩

/-- Too many bytes are nothing that the decoder itself complains about. -/
theorem decode_ne_trailing {s t : Stream} {failure : DecodeFailure Obj}
    (h : (decode : Decoder Obj (Datum Obj)) s = .error failure t) (n : Nat) :
    failure.cause ≠ .trailing n := by
  cases (incremental_decode : Incremental (decode : Decoder Obj (Datum Obj))) s.bytes with
  | accepts cs rest d hbs hd =>
    obtain ⟨u, hu, -⟩ := hd hbs
    cases hu.symm.trans h
  | refuses cs rest failure hbs hf =>
    obtain ⟨u, hu⟩ := hf.2 hbs
    cases hu.symm.trans h
    intro hcause
    exact (hcause ▸ hf.1 : (DecodeError.trailing n).IsRefusal)
  | starves done hs =>
    obtain ⟨u, hu⟩ := hs rfl
    cases hu.symm.trans h
    exact s.ending.error_ne_trailing n

end ScriptHeap.Packed
