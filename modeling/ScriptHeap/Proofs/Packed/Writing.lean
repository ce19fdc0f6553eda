import ScriptHeap.Proofs.Datum

/-!
# What writing a value comes to

Writing goes piece by piece and stops at the first length that four bytes cannot hold.  Seen as a
whole, a value either has one packed form, all its pieces one after another, or it has a text or a
container that is too long.

## What is here

* `spelling`, `firstOversized?` — the bytes of pieces, and the length at which writing them stops.
* `Datum.packed` — the packed form of a value that fits, with an equation for each kind of datum.
* `Datum.pack_of_fits`, `Datum.pack_of_not_fits` — writing succeeds with it when all lengths fit,
  and fails at a length that does not otherwise.
-/

set_option autoImplicit false
namespace ScriptHeap
namespace Packed

/-! ## Pieces -/

/-- The bytes of a piece. -/
def Piece.spelling : Piece → List UInt8
  | .bytes bs => bs
  | .oversized _ => []

/-- The bytes of pieces, one after another. -/
def spelling (ps : List Piece) : List UInt8 :=
  ps.flatMap Piece.spelling

@[simp] theorem spelling_nil : spelling [] = [] :=
  rfl

@[simp] theorem spelling_cons_bytes (bs : List UInt8) (ps : List Piece) :
    spelling (.bytes bs :: ps) = bs ++ spelling ps :=
  rfl

@[simp] theorem spelling_append (ps qs : List Piece) :
    spelling (ps ++ qs) = spelling ps ++ spelling qs :=
  List.flatMap_append

/-- The length of a piece that is too long to be written. -/
def Piece.oversized? : Piece → Option Nat
  | .bytes _ => none
  | .oversized n => some n

/-- The first length among pieces that is too long to be written. -/
def firstOversized? (ps : List Piece) : Option Nat :=
  ps.findSome? Piece.oversized?

theorem firstOversized?_append (ps qs : List Piece) :
    firstOversized? (ps ++ qs) = (firstOversized? ps).or (firstOversized? qs) :=
  List.findSome?_append

/-- Without a limit, writing takes all pieces or stops at the first length that is too long. -/
theorem Sink.writeAll_unlimited (ps : List Piece) (taken : Array UInt8) :
    match firstOversized? ps with
    | none => Sink.writeAll ⟨taken, none⟩ ps = (.ok (), ⟨taken ++ spelling ps, none⟩)
    | some n => (Sink.writeAll ⟨taken, none⟩ ps).1 = .error (.oversized n) := by
  induction ps generalizing taken with
  | nil => simp [firstOversized?, Sink.writeAll]
  | cons p ps ih =>
    cases p with
    | oversized n => rfl
    | bytes bs =>
      have h := ih (taken ++ bs)
      have hjoin : taken ++ bs ++ spelling ps = taken ++ (bs ++ spelling ps) :=
        Array.ext' (by simp)
      rw [hjoin] at h
      exact h

theorem lengthPiece_of_lt {n : Nat} (h : n < lengthLimit) :
    lengthPiece n = .bytes (littleEndian 4 n) :=
  if_pos h

theorem firstOversized?_cons_bytes (bs : List UInt8) (ps : List Piece) :
    firstOversized? (.bytes bs :: ps) = firstOversized? ps :=
  rfl

/-- A length stops the writing when it is too long; otherwise what comes after it may. -/
theorem firstOversized?_cons_lengthPiece (n : Nat) (ps : List Piece) :
    firstOversized? (lengthPiece n :: ps) =
      if n < lengthLimit then firstOversized? ps else some n := by
  unfold lengthPiece
  split <;> rfl

/-- Writing the pieces of many things is stopped in the pieces of one of them. -/
theorem exists_of_firstOversized?_flatMap {α : Type} {f : α → List Piece} {xs : List α} {n : Nat}
    (h : firstOversized? (xs.flatMap f) = some n) : ∃ x ∈ xs, firstOversized? (f x) = some n := by
  induction xs with
  | nil => cases h
  | cons x xs ih =>
    rw [List.flatMap_cons, firstOversized?_append, Option.or_eq_some_iff] at h
    rcases h with h | ⟨-, h⟩
    · exact ⟨x, List.mem_cons_self, h⟩
    · obtain ⟨y, hy, hn⟩ := ih h
      exact ⟨y, List.mem_cons_of_mem _ hy, hn⟩

theorem firstOversized?_flatMap_eq_none_iff {α : Type} {f : α → List Piece} {xs : List α} :
    firstOversized? (xs.flatMap f) = none ↔ ∀ x ∈ xs, firstOversized? (f x) = none := by
  induction xs with
  | nil => simp [firstOversized?]
  | cons x xs ih =>
    rw [List.flatMap_cons, firstOversized?_append, Option.or_eq_none_iff, ih, List.forall_mem_cons]

/-- The packed form of a text: its length and its bytes. -/
def packedText (s : String) : List UInt8 :=
  littleEndian 4 (Text.utf8 s).length ++ Text.utf8 s

theorem spelling_textPieces {s : String} (h : (Text.utf8 s).length < lengthLimit) :
    spelling (textPieces s) = packedText s := by
  simp [textPieces, lengthPiece_of_lt h, packedText]

theorem spelling_flatMap_textPieces {ss : List String}
    (h : ∀ s ∈ ss, (Text.utf8 s).length < lengthLimit) :
    spelling (ss.flatMap textPieces) = ss.flatMap packedText := by
  induction ss with
  | nil => rfl
  | cons s ss ih =>
    rw [List.flatMap_cons, List.flatMap_cons, spelling_append,
      spelling_textPieces (h s List.mem_cons_self),
      ih fun t ht ↦ h t (List.mem_cons_of_mem _ ht)]

theorem firstOversized?_textPieces (s : String) :
    firstOversized? (textPieces s) =
      if (Text.utf8 s).length < lengthLimit then none else some (Text.utf8 s).length :=
  firstOversized?_cons_lengthPiece _ _

theorem firstOversized?_textPieces_eq_none_iff {s : String} :
    firstOversized? (textPieces s) = none ↔ (Text.utf8 s).length < lengthLimit := by
  rw [firstOversized?_textPieces]
  split <;> simp [*]

end Packed

open Packed

variable {Obj : Type}

namespace Datum

/-! ## Pieces of data -/

theorem piecesOfAll_eq (ds : List (Datum Obj)) : piecesOfAll ds = ds.flatMap pieces := by
  induction ds with
  | nil => rfl
  | cons d ds ih => rw [piecesOfAll, ih, List.flatMap_cons]

theorem piecesOfMembers_eq (ms : List (String × Datum Obj)) :
    piecesOfMembers ms = (ms.map (·.2)).flatMap pieces := by
  induction ms with
  | nil => rfl
  | cons m ms ih => rw [piecesOfMembers, ih, List.map_cons, List.flatMap_cons]

/-- A container is written as its tag, its count, its elements and, for a struct, its names. -/
theorem pieces_array (ds : List (Datum Obj)) :
    (array ds).pieces = tagPiece .array :: lengthPiece ds.length :: ds.flatMap pieces := by
  rw [pieces, piecesOfAll_eq]

@[inherit_doc pieces_array]
theorem pieces_struct (ms : List (String × Datum Obj)) (ds : List (Datum Obj)) :
    (struct ms ds).pieces =
      tagPiece .struct :: lengthPiece (struct ms ds).elements.length ::
        ((struct ms ds).elements.flatMap pieces ++
          lengthPiece ms.length :: (ms.map (·.1)).flatMap textPieces) := by
  rw [pieces, piecesOfAll_eq, piecesOfMembers_eq, elements_struct, List.flatMap_append,
    List.length_append, List.length_map]

/-- The packed form of a value that fits. -/
def packed (d : Datum Obj) : List UInt8 :=
  spelling d.pieces

theorem spelling_flatMap_pieces (ds : List (Datum Obj)) :
    spelling (ds.flatMap pieces) = ds.flatMap packed := by
  induction ds with
  | nil => rfl
  | cons d ds ih => rw [List.flatMap_cons, List.flatMap_cons, spelling_append, ih, packed]

theorem packed_array {ds : List (Datum Obj)} (h : (array ds).Fits) :
    (array ds).packed = Kind.array.tag :: (littleEndian 4 ds.length ++ ds.flatMap packed) := by
  rw [packed, pieces_array, lengthPiece_of_lt (by simpa using h.length_elements), tagPiece,
    spelling_cons_bytes, spelling_cons_bytes, spelling_flatMap_pieces, List.singleton_append]

theorem packed_struct {ms : List (String × Datum Obj)} {ds : List (Datum Obj)}
    (h : (struct ms ds).Fits) :
    (struct ms ds).packed =
      Kind.struct.tag :: (littleEndian 4 (struct ms ds).elements.length ++
        ((struct ms ds).elements.flatMap packed ++
          (littleEndian 4 ms.length ++ (ms.map (·.1)).flatMap packedText))) := by
  have hcount : ms.length < lengthLimit := by
    have := h.length_elements
    simp only [elements_struct, List.length_append, List.length_map] at this
    omega
  have hnames : ∀ t ∈ ms.map (·.1), (Text.utf8 t).length < lengthLimit :=
    fun _ ht ↦ h.length_text ht
  rw [packed, pieces_struct, lengthPiece_of_lt h.length_elements, lengthPiece_of_lt hcount,
    tagPiece, spelling_cons_bytes, spelling_cons_bytes, spelling_append, spelling_cons_bytes,
    spelling_flatMap_pieces, spelling_flatMap_textPieces hnames, List.singleton_append]

theorem packed_string {s : String} (h : (scalar (.string s) : Datum Obj).Fits) :
    (scalar (.string s) : Datum Obj).packed = Kind.string.tag :: packedText s := by
  show spelling (tagPiece .string :: textPieces s) = _
  rw [tagPiece, spelling_cons_bytes, spelling_textPieces (h.length_text (by simp [texts])),
    List.singleton_append]

theorem packed_error {s : String} (h : (scalar (.error s) : Datum Obj).Fits) :
    (scalar (.error s) : Datum Obj).packed = Kind.error.tag :: packedText s := by
  show spelling (tagPiece .error :: textPieces s) = _
  rw [tagPiece, spelling_cons_bytes, spelling_textPieces (h.length_text (by simp [texts])),
    List.singleton_append]

/-! ## Success and failure of writing -/

theorem pack_eq (d : Datum Obj) :
    d.pack = match firstOversized? d.pieces with
      | none => .ok d.packed
      | some n => .error (.oversized n) := by
  have h := Sink.writeAll_unlimited d.pieces #[]
  rw [pack, packOnto, Sink.unlimited]
  split at h <;> rename_i hps
  · rw [h]
    simp [packed]
  · split <;> rename_i hw <;> rw [hw] at h
    · cases h
    · cases h
      rfl

/-- Writing stops at the count of the elements, else inside an element, else at a text.  The count
of the names comes between these and never stops it: there are no more names than elements. -/
theorem firstOversized?_pieces (d : Datum Obj) :
    firstOversized? d.pieces =
      if d.elements.length < lengthLimit then
        (firstOversized? (d.elements.flatMap pieces)).or
          (firstOversized? (d.texts.flatMap textPieces))
      else some d.elements.length := by
  cases d with
  | scalar s =>
    have hpos : 0 < lengthLimit := by decide
    rw [elements_scalar, List.length_nil, if_pos hpos]
    cases s <;> rfl
  | array ds =>
    rw [pieces_array, tagPiece, firstOversized?_cons_bytes, firstOversized?_cons_lengthPiece]
    simp [texts, firstOversized?]
  | struct ms ds =>
    rw [pieces_struct, tagPiece, firstOversized?_cons_bytes, firstOversized?_cons_lengthPiece]
    refine ite_congr rfl (fun h ↦ ?_) fun _ ↦ rfl
    have hnames : ms.length < lengthLimit := by
      simp only [elements_struct, List.length_append, List.length_map] at h
      omega
    rw [firstOversized?_append, firstOversized?_cons_lengthPiece, if_pos hnames, texts]

/-- A length at which writing stops is too long, and it is that of a container or of a text in
the datum. -/
theorem of_firstOversized?_pieces {d : Datum Obj} {n : Nat}
    (h : firstOversized? d.pieces = some n) :
    lengthLimit ≤ n ∧ ∃ e, Inside e d ∧
      (n = e.elements.length ∨ ∃ t ∈ e.texts, n = (Text.utf8 t).length) := by
  induction d using inductionOn generalizing n with
  | h d ih =>
    rw [firstOversized?_pieces] at h
    split at h
    · rcases Option.or_eq_some_iff.1 h with h | ⟨-, h⟩
      · obtain ⟨e, he, hn⟩ := exists_of_firstOversized?_flatMap h
        obtain ⟨hle, c, hc, hlen⟩ := ih e he hn
        exact ⟨hle, c, .element he hc, hlen⟩
      · obtain ⟨t, ht, hn⟩ := exists_of_firstOversized?_flatMap h
        rw [firstOversized?_textPieces] at hn
        split at hn <;> cases hn
        exact ⟨Nat.le_of_not_lt ‹_›, d, .here d, .inr ⟨t, ht, rfl⟩⟩
    · cases h
      exact ⟨Nat.le_of_not_lt ‹_›, d, .here d, .inl rfl⟩

theorem firstOversized?_pieces_eq_none_iff {d : Datum Obj} :
    firstOversized? d.pieces = none ↔ d.Fits := by
  induction d using inductionOn with
  | h d ih =>
    have helements : firstOversized? (d.elements.flatMap pieces) = none ↔
        ∀ e ∈ d.elements, e.Fits :=
      firstOversized?_flatMap_eq_none_iff.trans (forall₂_congr ih)
    have htexts : firstOversized? (d.texts.flatMap textPieces) = none ↔
        ∀ t ∈ d.texts, (Text.utf8 t).length < lengthLimit :=
      firstOversized?_flatMap_eq_none_iff.trans
        (forall₂_congr fun _ _ ↦ firstOversized?_textPieces_eq_none_iff)
    rw [firstOversized?_pieces, Fits, everywhere_iff]
    split
    · rename_i hn
      rw [Option.or_eq_none_iff, helements, htexts]
      exact ⟨fun h ↦ ⟨⟨hn, h.2⟩, h.1⟩, fun h ↦ ⟨h.2, h.1.2⟩⟩
    · rename_i hn
      exact ⟨fun h ↦ (nomatch h), fun h ↦ absurd h.1.1 hn⟩

/-- **A value whose lengths all fit has a packed form.** -/
theorem pack_of_fits {d : Datum Obj} (h : d.Fits) : d.pack = .ok d.packed := by
  rw [pack_eq, firstOversized?_pieces_eq_none_iff.2 h]

/-- **Otherwise writing fails** at a text or a container that is too long. -/
theorem pack_of_not_fits {d : Datum Obj} (h : ¬ d.Fits) :
    ∃ n, d.pack = .error (.oversized n) ∧ lengthLimit ≤ n ∧ ∃ e, Inside e d ∧
      (n = e.elements.length ∨ ∃ t ∈ e.texts, n = (Text.utf8 t).length) := by
  cases hd : firstOversized? d.pieces with
  | none => exact absurd (firstOversized?_pieces_eq_none_iff.1 hd) h
  | some n => exact ⟨n, by rw [pack_eq, hd], of_firstOversized?_pieces hd⟩

/-- Only a value that fits has a packed form, and it is this one. -/
theorem pack_eq_ok_iff {d : Datum Obj} {bs : List UInt8} :
    d.pack = .ok bs ↔ d.Fits ∧ d.packed = bs := by
  by_cases h : d.Fits
  · simp [pack_of_fits h, h]
  · obtain ⟨n, hn, -⟩ := pack_of_not_fits h
    simp [hn, h]

end Datum
end ScriptHeap
