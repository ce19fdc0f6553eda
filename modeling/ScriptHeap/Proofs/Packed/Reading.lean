import ScriptHeap.Packed.Reading
import ScriptHeap.Proofs.Outcome
import ScriptHeap.Proofs.Packed.Writing

/-!
# Exact readers

A reader is *exact* for a set of results and a way to spell each of them when it accepts precisely
the spellings: what it accepts is the spelling of its result, and at every spelling of a result in
the set it gives that result and stops right behind it.  Both halves together are closed under
doing one reading after another, so the exactness of the whole decoder is put together from that
of its parts.

## What is here

* `Stream.Past` — one position in a stream lies some bytes behind another; how the chunks are cut
  plays no role.
* `Reads` — exact readers; `Reads.bind` and `Reads.loop` put them together.
* `reads_takeText`, `reads_takeNested` — texts and values are read exactly.
* `Fails` — a reader gives up with an error at some bytes; `fails_takeNested` does so for values
  nested too deep.
-/

set_option autoImplicit false
namespace ScriptHeap
namespace Packed

/-! ## Positions in a stream -/

namespace Stream

/-- The second position lies behind the first, with the given bytes in between. -/
structure Past (s : Stream) (bs : List UInt8) (t : Stream) : Prop where
  bytes : s.bytes = bs ++ t.bytes
  ending : t.ending = s.ending
  consumed : t.consumed = s.consumed + bs.length

theorem Past.refl (s : Stream) : s.Past [] s :=
  ⟨rfl, rfl, rfl⟩

theorem Past.trans {s t u : Stream} {bs cs : List UInt8} (h : s.Past bs t) (k : t.Past cs u) :
    s.Past (bs ++ cs) u where
  bytes := by rw [h.bytes, k.bytes, List.append_assoc]
  ending := k.ending.trans h.ending
  consumed := by rw [k.consumed, h.consumed, List.length_append, Nat.add_assoc]

/-- Chunks are split like the bytes in them. -/
theorem splitChunks?_of_le {n : Nat} {chunks : List (List UInt8)} (h : n ≤ chunks.flatten.length) :
    ∃ rest, splitChunks? n chunks = some (chunks.flatten.take n, rest) ∧
      rest.flatten = chunks.flatten.drop n := by
  induction chunks generalizing n with
  | nil =>
    obtain rfl : n = 0 := Nat.le_zero.1 h
    exact ⟨[], rfl, rfl⟩
  | cons chunk chunks ih =>
    cases n with
    | zero => exact ⟨chunk :: chunks, rfl, rfl⟩
    | succ n =>
      rw [splitChunks?, List.flatten_cons]
      split
      · -- the chunk reaches beyond what is asked for
        rename_i b rest hrest
        have hlt : n < chunk.length := by
          refine Nat.lt_of_not_le fun hle ↦ ?_
          rw [List.drop_eq_nil_of_le hle] at hrest
          cases hrest
        have htail : chunk.drop (n + 1) = rest := by
          rw [← List.drop_drop, hrest, List.drop_one, List.tail_cons]
        refine ⟨rest :: chunks, ?_, ?_⟩
        · rw [List.take_append_of_le_length hlt]
        · rw [List.drop_append_of_le_length hlt, htail, List.flatten_cons]
      · rename_i hdrop
        have hle : chunk.length ≤ n := List.drop_eq_nil_iff.1 hdrop
        rw [List.flatten_cons, List.length_append] at h
        obtain ⟨rest, hsplit, hrest⟩ := ih (n := n + 1 - chunk.length) (by omega)
        have hchunk : chunk.length ≤ n + 1 := Nat.le_succ_of_le hle
        refine ⟨rest, ?_, ?_⟩
        · rw [hsplit, Option.map_some, List.take_append, List.take_of_length_le hchunk]
        · rw [hrest, List.drop_append, List.drop_eq_nil_of_le hchunk, List.nil_append]

theorem splitChunks?_of_lt {n : Nat} {chunks : List (List UInt8)} (h : chunks.flatten.length < n) :
    splitChunks? n chunks = none := by
  induction chunks generalizing n with
  | nil =>
    obtain ⟨m, rfl⟩ := Nat.exists_eq_add_of_lt h
    simp [splitChunks?]
  | cons chunk chunks ih =>
    rw [List.flatten_cons, List.length_append] at h
    obtain ⟨m, rfl⟩ : ∃ m, n = m + 1 := ⟨n - 1, by omega⟩
    rw [splitChunks?, List.drop_eq_nil_of_le (by omega)]
    simp only
    rw [ih (by omega), Option.map_none]

theorem take_of_le {s : Stream} {n : Nat} (h : n ≤ s.remaining) :
    ∃ t, s.take n = (.ok (s.bytes.take n), t) ∧ s.Past (s.bytes.take n) t := by
  obtain ⟨rest, hsplit, hrest⟩ := splitChunks?_of_le h
  refine ⟨⟨rest, s.ending, s.consumed + n⟩, by rw [take, hsplit]; rfl, ?_, rfl, ?_⟩
  · change _ = _ ++ rest.flatten
    rw [hrest]
    exact (List.take_append_drop n _).symm
  · rw [List.length_take_of_le h]

theorem take_of_lt {s : Stream} {n : Nat} (h : s.remaining < n) :
    (s.take n).1 = .error s.ending := by
  rw [take, splitChunks?_of_lt h]

@[simp] theorem bytes_ofBytes (bs : List UInt8) : (ofBytes bs).bytes = bs := by
  simp [bytes, ofBytes, ofChunks]

end Stream

/-! ## Exact readers -/

variable {Obj : Type} {α β : Type}

/-- A reader that gives exactly the results with a property, each at its own spelling. -/
structure Reads (act : Decoder Obj α) (good : α → Prop) (spell : α → List UInt8) : Prop where
  /-- What is accepted is the spelling of the result. -/
  sound : ∀ {s t : Stream} {a : α}, act s = .ok a t → good a ∧ s.Past (spell a) t
  /-- Every spelling is accepted, whatever follows it. -/
  complete : ∀ {s : Stream} {a : α} {rest : List UInt8}, good a → s.bytes = spell a ++ rest →
    ∃ t, act s = .ok a t

namespace Reads

variable {act : Decoder Obj α} {good : α → Prop} {spell : α → List UInt8}

theorem congr {good' : α → Prop} {spell' : α → List UInt8} (h : Reads act good spell)
    (hgood : ∀ a, good a ↔ good' a) (hspell : ∀ a, good a → spell a = spell' a) :
    Reads act good' spell' where
  sound hs := by
    obtain ⟨ha, hp⟩ := h.sound hs
    exact ⟨(hgood _).1 ha, hspell _ ha ▸ hp⟩
  complete ha hs := h.complete ((hgood _).2 ha) (hspell _ ((hgood _).2 ha) ▸ hs)

/-- A reader stops right behind the spelling of its result. -/
theorem past (h : Reads act good spell) {s : Stream} {a : α} {rest : List UInt8} (ha : good a)
    (hs : s.bytes = spell a ++ rest) :
    ∃ t, act s = .ok a t ∧ s.Past (spell a) t ∧ t.bytes = rest := by
  obtain ⟨t, ht⟩ := h.complete ha hs
  have hp := (h.sound ht).2
  exact ⟨t, ht, hp, List.append_cancel_left (hp.bytes.symm.trans hs)⟩

theorem pure (a : α) : Reads (pure a : Decoder Obj α) (· = a) (fun _ ↦ []) where
  sound h := by
    cases h
    exact ⟨rfl, .refl _⟩
  complete := by
    rintro s a rest rfl hs
    exact ⟨s, rfl⟩

theorem refuse (cause : DecodeError) :
    Reads (refuse cause : Decoder Obj α) (fun _ ↦ False) (fun _ ↦ []) where
  sound h := by cases h
  complete h := h.elim

/-- **One reading after another.**  The final result determines what the first reading gave. -/
theorem bind {f : α → Decoder Obj β} {good' : β → Prop} (h : Reads act good spell)
    (spell' : β → List UInt8) (key : β → α) (hkey : ∀ b, good' b → good (key b))
    (hf : ∀ a, good a → Reads (f a) (fun b ↦ good' b ∧ key b = a) spell') :
    Reads (act >>= f) good' (fun b ↦ spell (key b) ++ spell' b) where
  sound {s u b} hs := by
    obtain ⟨a, t, ht, hu⟩ := bind_eq_ok_iff.1 hs
    obtain ⟨ha, hp⟩ := h.sound ht
    obtain ⟨⟨hb, rfl⟩, hq⟩ := (hf a ha).sound hu
    exact ⟨hb, hp.trans hq⟩
  complete {s b rest} hb hs := by
    rw [List.append_assoc] at hs
    obtain ⟨t, ht, -, hrest⟩ := h.past (hkey b hb) hs
    obtain ⟨u, hu⟩ := (hf _ (hkey b hb)).complete ⟨hb, rfl⟩ hrest
    exact ⟨u, bind_eq_ok_iff.2 ⟨_, t, ht, hu⟩⟩

/-- A result put into another shape. -/
theorem map {f : α → β} {good' : β → Prop} {spell' : β → List UInt8} (h : Reads act good spell)
    (hgood : ∀ b, good' b ↔ ∃ a, good a ∧ f a = b) (hspell : ∀ a, good a → spell' (f a) = spell a) :
    Reads (act >>= fun a ↦ Pure.pure (f a)) good' spell' where
  sound hs := by
    obtain ⟨a, t, ht, hu⟩ := bind_eq_ok_iff.1 hs
    cases hu
    obtain ⟨ha, hp⟩ := h.sound ht
    exact ⟨(hgood _).2 ⟨a, ha, rfl⟩, hspell a ha ▸ hp⟩
  complete hb hs := by
    obtain ⟨a, ha, rfl⟩ := (hgood _).1 hb
    obtain ⟨t, ht⟩ := h.complete ha (hspell a ha ▸ hs)
    exact ⟨t, bind_eq_ok_iff.2 ⟨a, t, ht, rfl⟩⟩

/-- Adding to the report of a failure does not change what is read. -/
theorem tryCatch (h : Reads act good spell) (g : DecodeFailure Obj → DecodeFailure Obj) :
    Reads (tryCatch act fun failure ↦ throw (g failure)) good spell where
  sound {s t a} hs := by
    cases hact : act s with
    | ok b u =>
      rw [tryCatch_of_ok hact] at hs
      cases hs
      exact h.sound hact
    | error e u =>
      rw [tryCatch_of_error hact] at hs
      cases hs
  complete {s a rest} ha hs := by
    obtain ⟨t, ht⟩ := h.complete ha hs
    exact ⟨t, tryCatch_of_ok ht⟩

/-- **A counted reading.**  So many things, one after another, follow those already read. -/
theorem loop {body : Nat → List α → Decoder Obj (List α)} {item : List α → Decoder Obj α}
    (h : ∀ read, Reads (item read) good spell)
    (hzero : ∀ read, body 0 read = Pure.pure read.reverse)
    (hsucc : ∀ n read, body (n + 1) read = item read >>= fun a ↦ body n (a :: read)) (n : Nat)
    (read : List α) :
    Reads (body n read)
      (fun r ↦ ∃ as, r = read.reverse ++ as ∧ as.length = n ∧ ∀ a ∈ as, good a)
      (fun r ↦ (r.drop read.length).flatMap spell) := by
  induction n generalizing read with
  | zero =>
    rw [hzero]
    refine (pure read.reverse).congr (fun r ↦ ?_) ?_
    · constructor
      · rintro rfl
        exact ⟨[], by simp⟩
      · rintro ⟨as, rfl, has, -⟩
        rw [List.length_eq_zero_iff.1 has, List.append_nil]
    · intro r hr
      rw [hr, List.drop_eq_nil_of_le (Nat.le_of_eq List.length_reverse), List.flatMap_nil]
  | succ n ih =>
    have hdrop (as : List α) : (read.reverse ++ as).drop read.length = as := by
      rw [← List.length_reverse, List.drop_left]
    rw [hsucc]
    constructor
    · intro s u r hs
      obtain ⟨a, t, ht, hu⟩ := bind_eq_ok_iff.1 hs
      obtain ⟨ha, hp⟩ := (h read).sound ht
      obtain ⟨⟨as, rfl, hn, has⟩, hq⟩ := (ih (a :: read)).sound hu
      rw [List.reverse_cons, List.append_assoc, List.singleton_append]
      refine ⟨⟨a :: as, rfl, congrArg (· + 1) hn, List.forall_mem_cons.2 ⟨ha, has⟩⟩, ?_⟩
      rw [← List.length_reverse, List.drop_left] at hq
      rw [hdrop, List.flatMap_cons]
      exact hp.trans hq
    · rintro s _ rest ⟨as, rfl, hn, has⟩ hs
      obtain ⟨a, as, rfl⟩ := List.exists_cons_of_length_eq_add_one hn
      rw [List.forall_mem_cons] at has
      rw [hdrop, List.flatMap_cons, List.append_assoc] at hs
      obtain ⟨t, ht, -, hrest⟩ := (h read).past has.1 hs
      have hbytes : t.bytes = (((a :: read).reverse ++ as).drop (a :: read).length).flatMap spell
          ++ rest := by
        rw [hrest, ← List.length_reverse, List.drop_left]
      obtain ⟨u, hu⟩ := (ih (a :: read)).complete ⟨as, rfl, Nat.succ.inj hn, has.2⟩ hbytes
      rw [List.reverse_cons, List.append_assoc, List.singleton_append] at hu
      exact ⟨u, bind_eq_ok_iff.2 ⟨a, t, ht, hu⟩⟩

end Reads

/-! ## Numbers and texts -/

/-- The error that shows at the end of a stream. -/
def Ending.error : Ending → DecodeError
  | .finished => .unexpectedEnd
  | .broken reason => .broken reason

theorem takeBytes_eq (n : Nat) (s : Stream) :
    (takeBytes n : Decoder Obj (List UInt8)) s =
      match s.take n with
      | (.ok bs, t) => .ok bs t
      | (.error e, t) => .error ⟨e.error, []⟩ t := by
  have hget : (modifyGet fun s ↦ s.take n : Decoder Obj (Except Ending (List UInt8))) s =
      .ok (s.take n).1 (s.take n).2 := rfl
  rw [takeBytes, bind_of_ok hget]
  rcases s.take n with ⟨_ | bs, t⟩
  · rename_i e
    cases e <;> rfl
  · rfl

theorem reads_takeBytes (n : Nat) :
    Reads (takeBytes n : Decoder Obj (List UInt8)) (·.length = n) id where
  sound {s t bs} h := by
    rw [takeBytes_eq] at h
    by_cases hn : n ≤ s.remaining
    · obtain ⟨u, hu, hp⟩ := Stream.take_of_le hn
      rw [hu] at h
      cases h
      exact ⟨List.length_take_of_le hn, hp⟩
    · have he := Stream.take_of_lt (Nat.lt_of_not_le hn)
      split at h <;> rename_i ht <;> rw [ht] at he <;> cases he
      cases h
  complete {s bs rest} hbs hs := by
    have hn : n ≤ s.remaining := by
      rw [Stream.remaining, hs, List.length_append, id, hbs]
      omega
    obtain ⟨t, ht, hp⟩ := Stream.take_of_le hn
    rw [hs, id, ← hbs, List.take_left] at ht
    exact ⟨t, by rw [takeBytes_eq, ← hbs, ht]⟩

theorem pow_four : Nat.pow 256 4 = lengthLimit := by
  decide

theorem reads_takeNumber (width : Nat) :
    Reads (takeNumber width : Decoder Obj Nat) (· < Nat.pow 256 width) (littleEndian width) := by
  refine (reads_takeBytes width).map (fun n ↦ ⟨fun hn ↦ ?_, ?_⟩) ?_
  · exact ⟨littleEndian width n, length_littleEndian width n, by
      rw [ofLittleEndian_littleEndian, Nat.mod_eq_of_lt hn]⟩
  · rintro ⟨bs, rfl, rfl⟩
    rw [← littleEndian_ofLittleEndian bs, ofLittleEndian_littleEndian, length_littleEndian]
    exact Nat.mod_lt _ (Nat.pow_pos (by decide))
  · rintro bs rfl
    exact littleEndian_ofLittleEndian bs

theorem reads_takeCount :
    Reads (takeNumber 4 : Decoder Obj Nat) (· < lengthLimit) (littleEndian 4) :=
  (reads_takeNumber 4).congr (fun n ↦ by rw [pow_four]) fun _ _ ↦ rfl

/-- A text is read exactly. -/
theorem reads_takeText :
    Reads (takeText : Decoder Obj String) (fun s ↦ (Text.utf8 s).length < lengthLimit)
      packedText := by
  refine reads_takeCount.bind Text.utf8 (fun s ↦ (Text.utf8 s).length) (fun s hs ↦ hs) fun n hn ↦ ?_
  refine (Reads.bind (reads_takeBytes n) (fun _ ↦ []) Text.utf8 (fun s hs ↦ hs.2)
    fun bs hbs ↦ ?_).congr (fun _ ↦ Iff.rfl) fun s _ ↦ ?_
  · cases hs : Text.ofUtf8? bs with
    | some s =>
      refine (Reads.pure s).congr (fun t ↦ ?_) fun _ _ ↦ rfl
      have hbs' := Text.utf8_of_ofUtf8? hs
      constructor
      · rintro rfl
        rw [hbs', hbs]
        exact ⟨⟨hn, rfl⟩, rfl⟩
      · rintro ⟨-, ht⟩
        rw [← ht, Text.ofUtf8?_utf8] at hs
        exact Option.some.inj hs
    | none =>
      refine (Reads.refuse _).congr (fun t ↦ ⟨False.elim, ?_⟩) fun _ _ ↦ rfl
      rintro ⟨-, rfl⟩
      rw [Text.ofUtf8?_utf8] at hs
      cases hs
  · rw [List.append_nil, id]

theorem reads_takeTexts (n : Nat) :
    Reads (takeTexts n [] : Decoder Obj (List String))
      (fun ss ↦ ss.length = n ∧ ∀ s ∈ ss, (Text.utf8 s).length < lengthLimit)
      (·.flatMap packedText) :=
  (Reads.loop (fun _ ↦ reads_takeText) (fun _ ↦ rfl) (fun _ _ ↦ rfl) n []).congr
    (fun ss ↦ by simp) fun _ _ ↦ rfl

theorem reads_takeData {inner : Decoder Obj (Datum Obj)} {good : Datum Obj → Prop}
    {spell : Datum Obj → List UInt8} (h : Reads inner good spell) (n : Nat) :
    Reads (takeData inner n []) (fun ds ↦ ds.length = n ∧ ∀ d ∈ ds, good d)
      (·.flatMap spell) :=
  (Reads.loop (fun _ ↦ h.tryCatch _) (fun _ ↦ rfl) (fun _ _ ↦ rfl) n []).congr
    (fun ds ↦ by simp) fun _ _ ↦ rfl

/-! ## Values -/

end Packed

open Packed

variable {Obj : Type}

namespace Datum

/-- The kind under which a datum is packed. -/
def packedKind : Datum Obj → Kind
  | .scalar (.integer _) => .integer
  | .scalar (.double _) => .double
  | .scalar (.string _) => .string
  | .scalar (.error _) => .error
  | .scalar _ => .uninit
  | .array _ => .array
  | .struct _ _ => .struct

/-- What follows the tag in the packed form. -/
def payload (d : Datum Obj) : List UInt8 :=
  d.packed.tail

theorem packed_eq (d : Datum Obj) : d.packed = d.packedKind.tag :: d.payload := by
  cases d with
  | scalar s => cases s <;> rfl
  | array ds => rw [payload, packed, pieces_array]; rfl
  | struct ms ds => rw [payload, packed, pieces_struct]; rfl

theorem isDecodable_packedKind (d : Datum Obj) : d.packedKind.isDecodable = true := by
  cases d with
  | scalar s => cases s <;> rfl
  | array ds => rfl
  | struct ms ds => rfl

/-- What reading gives when containers may be nested up to so many levels. -/
structure Readable (levels : Nat) (d : Datum Obj) : Prop where
  hostFree : d.HostFree
  named : d.Named
  fits : d.Fits
  nesting_le : d.nesting ≤ levels

theorem readable_succ_iff {levels : Nat} {d : Datum Obj} :
    d.Readable (levels + 1) ↔
      ((∀ s, d = .scalar s → s.isHost = false) ∧ (∀ ms ds, d = .struct ms ds → ds = []) ∧
        d.elements.length < lengthLimit ∧ ∀ t ∈ d.texts, (Text.utf8 t).length < lengthLimit) ∧
      ∀ e ∈ d.elements, e.Readable levels := by
  constructor
  · rintro ⟨hh, hn, hf, hl⟩
    rw [hostFree_iff] at hh
    rw [named_iff] at hn
    rw [fits_iff] at hf
    rw [nesting_le_succ_iff] at hl
    exact ⟨⟨hh.1, hn.1, hf.1⟩, fun e he ↦ ⟨hh.2 e he, hn.2 e he, hf.2 e he, hl e he⟩⟩
  · rintro ⟨⟨hh, hn, hf⟩, hes⟩
    exact ⟨hostFree_iff.2 ⟨hh, fun e he ↦ (hes e he).hostFree⟩,
      named_iff.2 ⟨hn, fun e he ↦ (hes e he).named⟩,
      fits_iff.2 ⟨hf, fun e he ↦ (hes e he).fits⟩,
      nesting_le_succ_iff.2 fun e he ↦ (hes e he).nesting_le⟩

end Datum

namespace Packed

variable {inner : Decoder Obj (Datum Obj)} {levels : Nat}

theorem reads_takeArray (h : Reads inner (Datum.Readable levels) Datum.packed) :
    Reads (takeArray inner) (fun d ↦ d.Readable (levels + 1) ∧ d.packedKind = .array)
      Datum.payload := by
  have hds (n : Nat) (hn : n < lengthLimit) :
      Reads (takeData inner n [] >>= fun ds ↦ Pure.pure (Datum.array ds))
        (fun d ↦ (d.Readable (levels + 1) ∧ d.packedKind = .array) ∧ d.elements.length = n)
        (fun d ↦ d.elements.flatMap Datum.packed) := by
    refine (reads_takeData h n).map (fun d ↦ ⟨?_, ?_⟩) fun _ _ ↦ rfl
    · rintro ⟨⟨hd, hkind⟩, hlen⟩
      refine ⟨d.elements, ⟨hlen, (Datum.readable_succ_iff.1 hd).2⟩, ?_⟩
      cases d with
      | array ds => rfl
      | scalar s => cases s <;> cases hkind
      | struct ms ds => cases hkind
    · rintro ⟨ds, ⟨hlen, hds⟩, rfl⟩
      refine ⟨⟨Datum.readable_succ_iff.2 ⟨⟨?_, ?_, ?_, ?_⟩, hds⟩, rfl⟩, hlen⟩
      · rintro _ ⟨⟩
      · rintro _ _ ⟨⟩
      · exact hlen.symm ▸ hn
      · exact fun t ht ↦ nomatch ht
  refine (reads_takeCount.bind (fun d ↦ d.elements.flatMap Datum.packed) (fun d ↦ d.elements.length)
    (fun d hd ↦ hd.1.fits.length_elements) hds).congr (fun _ ↦ Iff.rfl) ?_
  rintro d ⟨hd, hkind⟩
  cases d with
  | array ds => rw [Datum.payload, Datum.packed_array hd.fits]; rfl
  | scalar s => cases s <;> cases hkind
  | struct ms ds => cases hkind

/-- The names of a struct, read after its elements. -/
def takeNames (ds : List (Datum Obj)) : Decoder Obj (List String) := do
  let count ← takeNumber 4
  if count = ds.length then takeTexts count [] else refuse (.nameCount ds.length count)

theorem takeStruct_eq : takeStruct inner = (do
    let ds ← takeData inner (← takeNumber 4) []
    completing ds (takeNames ds >>= fun names ↦ return .struct (names.zip ds) [])) := by
  unfold takeStruct takeNames
  congr
  funext n
  congr
  funext ds
  congr 1
  rw [bind_assoc]
  congr
  funext count
  by_cases h : count = ds.length
  · simp [h]
  · simp [h, refuse]
    rfl

theorem reads_takeNames (ds : List (Datum Obj)) (hds : ds.length < lengthLimit) :
    Reads (takeNames ds)
      (fun names ↦ names.length = ds.length ∧ ∀ s ∈ names, (Text.utf8 s).length < lengthLimit)
      (fun names ↦ littleEndian 4 names.length ++ names.flatMap packedText) := by
  refine reads_takeCount.bind (·.flatMap packedText) List.length ?_ fun n hn ↦ ?_
  · exact fun names hnames ↦ hnames.1 ▸ hds
  split
  · rename_i hlen
    refine (reads_takeTexts n).congr (fun names ↦ ?_) fun _ _ ↦ rfl
    exact ⟨fun h ↦ ⟨⟨h.1.trans hlen, h.2⟩, h.1⟩, fun h ↦ ⟨h.2, h.1.2⟩⟩
  · rename_i hlen
    refine (Reads.refuse _).congr (fun names ↦ ⟨False.elim, ?_⟩) fun _ h ↦ h.elim
    rintro ⟨⟨h, -⟩, rfl⟩
    exact hlen h

/-- Elements and as many names make up one struct, and it shows both. -/
theorem readable_zip_iff {names : List String} {ds : List (Datum Obj)}
    (hlen : names.length = ds.length) :
    (Datum.struct (names.zip ds) []).Readable (levels + 1) ↔
      ds.length < lengthLimit ∧ (∀ s ∈ names, (Text.utf8 s).length < lengthLimit) ∧
        ∀ d ∈ ds, d.Readable levels := by
  have hnames : (names.zip ds).map (·.1) = names := List.map_fst_zip (Nat.le_of_eq hlen)
  have hds : (names.zip ds).map (·.2) = ds := List.map_snd_zip (Nat.le_of_eq hlen.symm)
  rw [Datum.readable_succ_iff, Datum.elements_struct, hds, List.append_nil, Datum.texts, hnames]
  constructor
  · exact fun h ↦ ⟨h.1.2.2.1, h.1.2.2.2, h.2⟩
  · rintro ⟨hcount, htexts, hes⟩
    refine ⟨⟨?_, ?_, hcount, htexts⟩, hes⟩
    · rintro _ ⟨⟩
    · rintro _ _ ⟨⟩
      rfl

/-- The names complete the struct whose elements are read already. -/
theorem reads_completing_takeNames {ds : List (Datum Obj)} (hcount : ds.length < lengthLimit)
    (hds : ∀ d ∈ ds, d.Readable levels) :
    Reads (completing ds (takeNames ds >>= fun names ↦ pure (Datum.struct (names.zip ds) [])))
      (fun d ↦ (d.Readable (levels + 1) ∧ d.packedKind = .struct) ∧ d.elements = ds)
      (fun d ↦ littleEndian 4 d.texts.length ++ d.texts.flatMap packedText) := by
  refine Reads.tryCatch ((reads_takeNames ds hcount).map (fun d ↦ ⟨?_, ?_⟩) fun names hn ↦ ?_) _
  · rintro ⟨⟨hd, hkind⟩, rfl⟩
    cases d with
    | struct ms ds =>
      obtain rfl := hd.named ms ds (.here _)
      rw [Datum.elements_struct, List.append_nil]
      refine ⟨ms.map Prod.fst, ⟨?_, fun s hs ↦ hd.fits.length_text hs⟩, ?_⟩
      · rw [List.length_map, List.length_map]
      · rw [List.zip_map', List.map_id']
    | array ds => cases hkind
    | scalar s => cases s <;> cases hkind
  · rintro ⟨names, ⟨hlen, htexts⟩, rfl⟩
    refine ⟨⟨(readable_zip_iff hlen).2 ⟨hcount, htexts, hds⟩, rfl⟩, ?_⟩
    rw [Datum.elements_struct, List.append_nil, List.map_snd_zip (Nat.le_of_eq hlen.symm)]
  · rw [Datum.texts, List.map_fst_zip (Nat.le_of_eq hn.1)]

theorem reads_takeStruct (h : Reads inner (Datum.Readable levels) Datum.packed) :
    Reads (takeStruct inner) (fun d ↦ d.Readable (levels + 1) ∧ d.packedKind = .struct)
      Datum.payload := by
  rw [takeStruct_eq]
  refine (reads_takeCount.bind _ (fun d ↦ d.elements.length)
    (fun d hd ↦ hd.1.fits.length_elements) fun n hn ↦ (reads_takeData h n).bind _ Datum.elements ?_
      fun ds hds ↦ (reads_completing_takeNames ?_ hds.2).congr (fun d ↦ ?_)
        fun _ _ ↦ rfl).congr (fun _ ↦ Iff.rfl) ?_
  · rintro d ⟨⟨hd, -⟩, hlen⟩
    exact ⟨hlen, (Datum.readable_succ_iff.1 hd).2⟩
  · exact hds.1 ▸ hn
  · exact ⟨fun hd ↦ ⟨⟨hd.1, hd.2 ▸ hds.1⟩, hd.2⟩, fun hd ↦ ⟨hd.1.1, hd.2⟩⟩
  · rintro d ⟨hd, hkind⟩
    cases d with
    | struct ms ds =>
      rw [Datum.payload, Datum.packed_struct hd.fits, Datum.texts, List.length_map]
      rfl
    | array ds => cases hkind
    | scalar s => cases s <;> cases hkind

theorem readable_scalar_iff {s : Scalar Obj} :
    (Datum.scalar s).Readable levels ↔
      s.isHost = false ∧ ∀ t ∈ (Datum.scalar s).texts, (Text.utf8 t).length < lengthLimit := by
  constructor
  · exact fun h ↦ ⟨h.hostFree s (.here _), fun t ht ↦ h.fits.length_text ht⟩
  · rintro ⟨hs, ht⟩
    refine ⟨Datum.hostFree_iff.2 ⟨?_, fun _ he ↦ nomatch he⟩,
      Datum.named_iff.2 ⟨fun _ _ h ↦ (nomatch h), fun _ he ↦ nomatch he⟩,
      Datum.fits_iff.2 ⟨⟨Nat.pow_pos (n := 32) Nat.two_pos, ht⟩, fun _ he ↦ nomatch he⟩,
      Nat.zero_le _⟩
    rintro _ ⟨⟩
    exact hs

variable {α : Type}

/-- A scalar is read exactly when what it is made of is. -/
theorem Reads.scalar {act : Decoder Obj α} {good : α → Prop} {spell : α → List UInt8}
    {f : α → Scalar Obj} {kind : Kind} (h : Reads act good spell)
    (hcontainer : ∀ d : Datum Obj, d.packedKind = kind → d.isContainer = false)
    (hf : ∀ s, s.isHost = false ∧ (Datum.scalar s).packedKind = kind ∧
      (∀ t ∈ (Datum.scalar s).texts, (Text.utf8 t).length < lengthLimit) ↔ ∃ a, good a ∧ f a = s)
    (hspell : ∀ a, good a → (Datum.scalar (f a)).payload = spell a) :
    Reads (act >>= fun a ↦ Pure.pure (Datum.scalar (f a)))
      (fun d ↦ d.Readable levels ∧ d.packedKind = kind) Datum.payload := by
  refine h.map (fun d ↦ ⟨?_, ?_⟩) hspell
  · rintro ⟨hd, hk⟩
    cases d with
    | scalar s =>
      have hs := readable_scalar_iff.1 hd
      obtain ⟨a, ha, rfl⟩ := (hf s).1 ⟨hs.1, hk, hs.2⟩
      exact ⟨a, ha, rfl⟩
    | array ds => cases hcontainer _ hk
    | struct ms ds => cases hcontainer _ hk
  · rintro ⟨a, ha, rfl⟩
    obtain ⟨hs, hk, ht⟩ := (hf (f a)).2 ⟨a, ha, rfl⟩
    exact ⟨readable_scalar_iff.2 ⟨hs, ht⟩, hk⟩

/-- What reads the elements of a container that may be nested up to so many levels. -/
def ReadsElements : Nat → Option (Decoder Obj (Datum Obj)) → Prop
  | 0, inner => inner = none
  | levels + 1, inner => ∃ act, inner = some act ∧ Reads act (Datum.Readable levels) Datum.packed

theorem reads_refuse_of_isContainer {kind : Kind} (cause : DecodeError)
    (hkind : ∀ d : Datum Obj, d.packedKind = kind → d.isContainer = true) :
    Reads (refuse cause : Decoder Obj (Datum Obj)) (fun d ↦ d.Readable 0 ∧ d.packedKind = kind)
      Datum.payload := by
  refine (Reads.refuse cause).congr (fun d ↦ ⟨False.elim, ?_⟩) fun _ hd ↦ hd.elim
  rintro ⟨hd, hk⟩
  exact Nat.not_lt_of_le hd.nesting_le (Datum.nesting_pos_iff.2 (hkind d hk))

theorem isContainer_eq (d : Datum Obj) :
    d.isContainer = (d.packedKind == .array || d.packedKind == .struct) := by
  cases d with
  | scalar s => cases s <;> rfl
  | array ds => rfl
  | struct ms ds => rfl

/-- The kind in the tag decides how to read on, and each way of reading on is exact. -/
theorem reads_takeBody {inner : Option (Decoder Obj (Datum Obj))} (h : ReadsElements levels inner)
    {kind : Kind} (hkind : kind.isDecodable = true) :
    Reads (takeBody inner kind) (fun d ↦ d.Readable levels ∧ d.packedKind = kind)
      Datum.payload := by
  have hcontainer (d : Datum Obj) (hd : d.packedKind = kind) := hd ▸ isContainer_eq d
  cases kind with
  | uninit =>
    refine (Reads.pure ()).scalar (f := fun _ ↦ .uninit) hcontainer (fun s ↦ ?_) fun _ _ ↦ rfl
    cases s <;> simp [Scalar.isHost, Datum.packedKind, Datum.texts]
  | integer =>
    refine (reads_takeNumber 4).scalar hcontainer (fun s ↦ ?_) fun n hn ↦ ?_
    · cases s with
      | integer n =>
        refine ⟨fun _ ↦ ⟨n.toUInt32.toNat, n.toUInt32.toNat_lt, by simp⟩, fun _ ↦ ⟨rfl, rfl, ?_⟩⟩
        intro _ ht
        cases ht
      | _ => simp [Scalar.isHost, Datum.packedKind]
    · change littleEndian 4 (UInt32.ofNat n).toInt32.toUInt32.toNat ++ [] = littleEndian 4 n
      rw [List.append_nil, UInt32.toUInt32_toInt32, UInt32.toNat_ofNat_of_lt' hn]
  | double =>
    refine (reads_takeNumber 8).scalar hcontainer (fun s ↦ ?_) fun n hn ↦ ?_
    · cases s with
      | double x =>
        refine ⟨fun _ ↦ ⟨x.bits.toNat, x.bits.toNat_lt, by simp⟩, fun _ ↦ ⟨rfl, rfl, ?_⟩⟩
        intro _ ht
        cases ht
      | _ => simp [Scalar.isHost, Datum.packedKind]
    · change littleEndian 8 (UInt64.ofNat n).toNat ++ [] = littleEndian 8 n
      rw [List.append_nil, UInt64.toNat_ofNat_of_lt' hn]
  | string =>
    refine reads_takeText.scalar hcontainer (fun s ↦ ?_) fun _ ↦ spelling_textPieces
    cases s <;> simp [Scalar.isHost, Datum.packedKind, Datum.texts]
  | error =>
    refine reads_takeText.scalar hcontainer (fun s ↦ ?_) fun _ ↦ spelling_textPieces
    cases s <;> simp [Scalar.isHost, Datum.packedKind, Datum.texts]
  | array =>
    cases levels with
    | zero =>
      obtain rfl := h
      exact reads_refuse_of_isContainer _ hcontainer
    | succ levels =>
      obtain ⟨act, rfl, hact⟩ := h
      exact reads_takeArray hact
  | struct =>
    cases levels with
    | zero =>
      obtain rfl := h
      exact reads_refuse_of_isContainer _ hcontainer
    | succ levels =>
      obtain ⟨act, rfl, hact⟩ := h
      exact reads_takeStruct hact
  | _ => cases hkind

theorem reads_takeValue {inner : Option (Decoder Obj (Datum Obj))}
    (h : ReadsElements levels inner) :
    Reads (takeValue inner) (Datum.Readable levels) Datum.packed := by
  refine ((reads_takeNumber 1).bind Datum.payload (fun d ↦ d.packedKind.tag.toNat)
    (fun d _ ↦ d.packedKind.tag.toNat_lt) fun n hn ↦ ?_).congr (fun _ ↦ Iff.rfl) fun d _ ↦ ?_
  · have hkey (d : Datum Obj) : d.packedKind.tag.toNat = n ↔ UInt8.ofNat n = d.packedKind.tag := by
      rw [← UInt8.toNat_inj, UInt8.toNat_ofNat_of_lt' hn, eq_comm]
    dsimp only
    split
    · rename_i hnone
      refine (Reads.refuse _).congr (fun d ↦ ⟨False.elim, ?_⟩) fun _ hd ↦ hd.elim
      rintro ⟨-, hd⟩
      rw [(hkey d).1 hd, Kind.ofTag?_tag] at hnone
      cases hnone
    · rename_i kind hkind
      have htag (d : Datum Obj) : d.packedKind.tag.toNat = n ↔ d.packedKind = kind := by
        rw [hkey, Kind.ofTag?_eq_some_iff.1 hkind]
        exact ⟨fun h ↦ (Kind.tag_injective h).symm, fun h ↦ by rw [h]⟩
      split
      · rename_i hdecodable
        exact (reads_takeBody h hdecodable).congr (fun d ↦ by rw [htag]) fun _ _ ↦ rfl
      · rename_i hdecodable
        refine (Reads.refuse _).congr (fun d ↦ ⟨False.elim, ?_⟩) fun _ hd ↦ hd.elim
        rintro ⟨-, hd⟩
        rw [← (htag d).1 hd, Datum.isDecodable_packedKind] at hdecodable
        exact hdecodable rfl
  · rw [Datum.packed_eq]
    show [UInt8.ofNat (d.packedKind.tag.toNat % 256)] ++ d.payload = _
    rw [Nat.mod_eq_of_lt d.packedKind.tag.toNat_lt, UInt8.ofNat_toNat, List.singleton_append]

/-- **Values are read exactly**, as long as their containers are not nested too deep. -/
theorem reads_takeNested (levels : Nat) :
    Reads (takeNested levels : Decoder Obj (Datum Obj)) (Datum.Readable levels) Datum.packed := by
  induction levels with
  | zero => exact reads_takeValue rfl
  | succ levels ih => exact reads_takeValue ⟨_, rfl, ih⟩

/-! ## Values nested too deep -/

/-- A reader gives up with an error. -/
def Fails (act : Decoder Obj α) (cause : DecodeError) (s : Stream) : Prop :=
  ∃ done t, act s = .error ⟨cause, done⟩ t

namespace Fails

variable {β : Type} {act : Decoder Obj α} {f : α → Decoder Obj β} {cause : DecodeError} {s : Stream}

theorem bind_left (h : Fails act cause s) : Fails (act >>= f) cause s := by
  obtain ⟨done, t, ht⟩ := h
  exact ⟨done, t, bind_of_error ht⟩

theorem bind_right {a : α} {t : Stream} (hact : act s = .ok a t) (h : Fails (f a) cause t) :
    Fails (act >>= f) cause s := by
  obtain ⟨done, u, hu⟩ := h
  exact ⟨done, u, (bind_of_ok hact).trans hu⟩

theorem tryCatch (h : Fails act cause s) (g : List (Datum Obj) → List (Datum Obj)) :
    Fails (tryCatch act fun failure ↦ throw { failure with completed := g failure.completed })
      cause s := by
  obtain ⟨done, t, ht⟩ := h
  exact ⟨g done, t, tryCatch_of_error ht⟩

end Fails

/-- Among the elements of a container, the first at which reading fails makes the container fail;
those before it are read. -/
theorem fails_takeData {good : Datum Obj → Prop} (bad : Datum Obj → Prop)
    {spell : Datum Obj → List UInt8} {cause : DecodeError} (h : Reads inner good spell)
    (hbad : ∀ d s rest, bad d → s.bytes = spell d ++ rest → Fails inner cause s)
    {ds : List (Datum Obj)} (hds : ∀ d ∈ ds, good d ∨ bad d) (hex : ∃ d ∈ ds, bad d) {s : Stream}
    {rest : List UInt8} (hs : s.bytes = ds.flatMap spell ++ rest) (read : List (Datum Obj)) :
    Fails (takeData inner ds.length read) cause s := by
  induction ds generalizing s read with
  | nil =>
    obtain ⟨d, hd, -⟩ := hex
    cases hd
  | cons d ds ih =>
    rw [List.forall_mem_cons] at hds
    rw [List.flatMap_cons, List.append_assoc] at hs
    by_cases hd : bad d
    · exact Fails.bind_left ((hbad d s _ hd hs).tryCatch _)
    · obtain ⟨t, ht, -, hrest⟩ := h.past (hds.1.resolve_right hd) hs
      refine Fails.bind_right (tryCatch_of_ok ht) (ih hds.2 ?_ hrest _)
      obtain ⟨e, he, hbe⟩ := hex
      rcases List.mem_cons.1 he with rfl | he
      · exact absurd hbe hd
      · exact ⟨e, he, hbe⟩

theorem takeValue_of_isDecodable (inner : Option (Decoder Obj (Datum Obj))) {kind : Kind}
    (hkind : kind.isDecodable = true) {s : Stream} {rest : List UInt8}
    (hs : s.bytes = kind.tag :: rest) :
    ∃ t, t.bytes = rest ∧ takeValue inner s = takeBody inner kind t := by
  have htag : s.bytes = littleEndian 1 kind.tag.toNat ++ rest := by
    rw [hs, littleEndian, Nat.mod_eq_of_lt kind.tag.toNat_lt, UInt8.ofNat_toNat]
    rfl
  obtain ⟨t, ht, -, hrest⟩ := (reads_takeNumber 1).past kind.tag.toNat_lt htag
  refine ⟨t, hrest, (bind_of_ok ht).trans ?_⟩
  simp only [UInt8.ofNat_toNat, Kind.ofTag?_tag, hkind, if_true]

/-- A container begins with the count of its elements and the elements. -/
theorem payload_of_isContainer {d : Datum Obj} (hd : d.isContainer = true) (hfits : d.Fits) :
    ∃ more, d.payload =
      littleEndian 4 d.elements.length ++ (d.elements.flatMap Datum.packed ++ more) := by
  cases d with
  | scalar s => cases hd
  | array ds =>
    refine ⟨[], ?_⟩
    rw [Datum.payload, Datum.packed_array hfits, List.append_nil]
    rfl
  | struct ms ds =>
    rw [Datum.payload, Datum.packed_struct hfits]
    exact ⟨_, rfl⟩

/-- Reading a container begins with reading a count and so many elements. -/
theorem takeBody_of_isContainer (inner : Decoder Obj (Datum Obj)) {d : Datum Obj}
    (hd : d.isContainer = true) :
    ∃ finish, takeBody (some inner) d.packedKind =
      takeNumber 4 >>= fun n ↦ takeData inner n [] >>= finish := by
  cases d with
  | scalar s => cases hd
  | array ds => exact ⟨_, rfl⟩
  | struct ms ds => exact ⟨_, rfl⟩

theorem takeBody_none_of_isContainer {d : Datum Obj} (hd : d.isContainer = true) :
    (takeBody none d.packedKind : Decoder Obj (Datum Obj)) = refuse (.tooDeep nestingLimit) := by
  cases d with
  | scalar s => cases hd
  | array ds => rfl
  | struct ms ds => rfl

/-- **A value nested too deep is refused**: the container one level below the last that is allowed
is met before anything else can be wrong. -/
theorem fails_takeNested {d : Datum Obj} {depth : Nat} (hd : d.Readable depth)
    (hdeep : levels < d.nesting) {s : Stream} {rest : List UInt8}
    (hs : s.bytes = d.packed ++ rest) :
    Fails (takeNested levels : Decoder Obj (Datum Obj)) (.tooDeep nestingLimit) s := by
  induction levels generalizing d depth s rest with
  | zero =>
    rw [d.packed_eq] at hs
    obtain ⟨t, -, ht⟩ := takeValue_of_isDecodable _ d.isDecodable_packedKind hs
    rw [takeBody_none_of_isContainer (Datum.nesting_pos_iff.1 hdeep)] at ht
    exact ⟨[], t, ht⟩
  | succ levels ih =>
    have hcontainer := Datum.nesting_pos_iff.1 (Nat.zero_lt_of_lt hdeep)
    obtain ⟨depth, rfl⟩ : ∃ m, depth = m + 1 := by
      have := hd.nesting_le
      exact ⟨depth - 1, by omega⟩
    have hes := (Datum.readable_succ_iff.1 hd).2
    -- one of the elements is itself nested too deep
    have hex := Datum.succ_lt_nesting_iff.1 hdeep
    obtain ⟨more, hmore⟩ := payload_of_isContainer hcontainer hd.fits
    rw [d.packed_eq, hmore, List.cons_append, List.append_assoc, List.append_assoc] at hs
    obtain ⟨t, hrest, ht⟩ :=
      takeValue_of_isDecodable (some (takeNested levels)) d.isDecodable_packedKind hs
    obtain ⟨finish, hfinish⟩ := takeBody_of_isContainer (takeNested levels) hcontainer
    obtain ⟨u, hu, -, hrest⟩ := reads_takeCount.past hd.fits.length_elements hrest
    have hfails :
        Fails (takeData (takeNested levels : Decoder Obj (Datum Obj)) d.elements.length [])
          (.tooDeep nestingLimit) u := by
      refine fails_takeData (fun e ↦ e.Readable depth ∧ levels < e.nesting)
        (reads_takeNested levels) (fun e s rest he hs ↦ ih he.1 he.2 hs) (fun e he ↦ ?_)
        (hex.imp fun e he ↦ ⟨he.1, hes e he.1, he.2⟩) hrest _
      rcases Nat.lt_or_ge levels e.nesting with hlt | hle
      · exact .inr ⟨hes e he, hlt⟩
      · exact .inl ⟨(hes e he).hostFree, (hes e he).named, (hes e he).fits, hle⟩
    obtain ⟨done, v, hv⟩ := hfails.bind_left (f := finish)
    exact ⟨done, v, by rw [takeNested, ht, hfinish, bind_of_ok hu, hv]⟩

end Packed
end ScriptHeap
