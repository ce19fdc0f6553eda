import Mathlib
import ScriptHeap.Proofs.Text.Order
import ScriptHeap.Text.Search

/-!
# Where a text stands in another

Scripts count places in bytes from one.  The bytes of a text that is not empty stand in another text
only where its characters do: a byte that begins a character stands nowhere else.  So the search for
characters finds the first place among bytes, provided that it may begin where it is asked to, which
is anywhere but inside a character.

## What is here

* `StandsAt` — the bytes of a text stand in another at a place; `Torn` — a place inside a character.
* `exists_of_bytes_eq` — bytes stand where characters do.
* `dropBytes?_eq_some_iff`, `torn_of_dropBytes?` — where a search may begin.
* `FirstFrom` — the first place from a start on, or none; `firstFrom_positionFrom?` says that the
  search gives it.
* `utf8_removeFirst`, `removeFirst_append` — a text without the first occurrence of another.
-/

set_option autoImplicit false
namespace ScriptHeap.Text

/-- The bytes of a text stand in another one from a place on, which is counted from one. -/
def StandsAt (needle text : String) (p : Nat) : Prop :=
  ∃ before after, utf8 text = before ++ (utf8 needle ++ after) ∧ p = before.length + 1

/-- A place, counted in bytes from one, that lies inside a character: behind its first byte. -/
def Torn (text : String) (p : Nat) : Prop :=
  ∃ front c rest, text.toList = front ++ c :: rest ∧ byteLength front + 1 < p ∧
    p < byteLength front + c.utf8Size + 1

/-- The first place from a start on at which a text stands in another, zero if there is none. -/
structure FirstFrom (needle text : String) (start p : Nat) : Prop where
  eq_zero_iff : p = 0 ↔ ∀ q, start ≤ q → ¬ StandsAt needle text q
  least : p ≠ 0 → IsLeast {q | start ≤ q ∧ StandsAt needle text q} p

variable {c d : Char} {cs ds front rest : List Char} {needle text : String} {k n p q : Nat}
  {bs bs' before after : List UInt8}

/-! ## Characters and their bytes -/

/-- The bytes of characters, one after the other. -/
def bytes (cs : List Char) : List UInt8 :=
  cs.flatMap String.utf8EncodeChar

@[simp] theorem bytes_nil : bytes [] = [] :=
  rfl

@[simp] theorem bytes_cons (c : Char) (cs : List Char) :
    bytes (c :: cs) = String.utf8EncodeChar c ++ bytes cs :=
  rfl

@[simp] theorem bytes_append (cs ds : List Char) : bytes (cs ++ ds) = bytes cs ++ bytes ds :=
  List.flatMap_append

theorem utf8_eq_bytes (s : String) : utf8 s = bytes s.toList :=
  utf8_eq s

theorem utf8_ofList (cs : List Char) : utf8 (String.ofList cs) = bytes cs := by
  rw [utf8_eq_bytes, String.toList_ofList]

@[simp] theorem byteLength_nil : byteLength [] = 0 :=
  rfl

@[simp] theorem byteLength_cons (c : Char) (cs : List Char) :
    byteLength (c :: cs) = c.utf8Size + byteLength cs := by
  have general (n : Nat) : cs.foldl (fun count c ↦ count + c.utf8Size) n = n + byteLength cs := by
    rw [byteLength]
    induction cs generalizing n with
    | nil => rfl
    | cons d ds ih =>
      rw [List.foldl_cons, List.foldl_cons, ih, ih (0 + d.utf8Size)]
      omega
  rw [byteLength, List.foldl_cons, general, Nat.zero_add]

@[simp] theorem length_bytes (cs : List Char) : (bytes cs).length = byteLength cs := by
  induction cs with
  | nil => rfl
  | cons c cs ih =>
    rw [bytes_cons, List.length_append, String.length_utf8EncodeChar, ih, byteLength_cons]

@[simp] theorem byteLength_append (cs ds : List Char) :
    byteLength (cs ++ ds) = byteLength cs + byteLength ds := by
  rw [← length_bytes, bytes_append, List.length_append, length_bytes, length_bytes]

theorem length_utf8 (s : String) : (utf8 s).length = byteLength s.toList := by
  rw [utf8_eq_bytes, length_bytes]

theorem byteLength_eq_zero_iff : byteLength cs = 0 ↔ cs = [] := by
  cases cs with
  | nil => simp
  | cons c cs =>
    have hpos := c.utf8Size_pos
    simp only [byteLength_cons, reduceCtorEq, iff_false]
    omega

/-- The bytes of a character tell it from all others, whatever stands behind them. -/
theorem utf8EncodeChar_append_inj
    (h : String.utf8EncodeChar c ++ bs = String.utf8EncodeChar d ++ bs') : c = d ∧ bs = bs' := by
  have hread (e : Char) (es : List UInt8) :
      ByteArray.utf8DecodeChar? (String.utf8EncodeChar e ++ es).toByteArray 0 = some e := by
    rw [List.toByteArray_append]
    exact ByteArray.utf8DecodeChar?_utf8EncodeChar_append
  have hc : c = d := by
    have hboth := hread c bs
    rw [h, hread d bs'] at hboth
    exact (Option.some.inj hboth).symm
  subst hc
  exact ⟨rfl, List.append_cancel_left h⟩

/-- The bytes of characters begin other bytes of characters only as the characters do. -/
theorem exists_of_bytes_prefix (h : bytes ds = bytes cs ++ after) : ∃ post, ds = cs ++ post := by
  induction cs generalizing ds with
  | nil => exact ⟨ds, rfl⟩
  | cons c cs ih =>
    cases ds with
    | nil => simp [String.utf8EncodeChar_ne_nil] at h
    | cons d ds =>
      rw [bytes_cons, bytes_cons, List.append_assoc] at h
      obtain ⟨rfl, hrest⟩ := utf8EncodeChar_append_inj h
      obtain ⟨post, rfl⟩ := ih hrest
      exact ⟨post, rfl⟩

/-- What is left of the bytes of a character behind its first does not begin one. -/
theorem eq_nil_of_utf8EncodeChar_eq (hd : String.utf8EncodeChar d = before ++ bs) (hbs : bs ≠ [])
    (h : bs ++ bs' = String.utf8EncodeChar c ++ after) : before = [] := by
  obtain ⟨b, bs, rfl⟩ := List.exists_cons_of_ne_nil hbs
  obtain ⟨e, es, hc⟩ := List.exists_cons_of_ne_nil (String.utf8EncodeChar_ne_nil (c := c))
  have hb : b = e := by
    rw [hc] at h
    exact (List.cons.inj h).1
  have hlt : before.length < (String.utf8EncodeChar d).length := by
    rw [hd, List.length_append, List.length_cons]
    omega
  have hfirst : (String.utf8EncodeChar d)[before.length].IsUTF8FirstByte := by
    have hzero := UInt8.isUTF8FirstByte_getElem_zero_utf8EncodeChar (c := c)
    have hbyte : (String.utf8EncodeChar d)[before.length] = b := by simp [hd]
    rw [hbyte, hb]
    simpa [hc] using hzero
  exact List.length_eq_zero_iff.1 (UInt8.isUTF8FirstByte_getElem_utf8EncodeChar.1 hfirst)

/-- **Bytes stand where characters do**, unless there are none. -/
theorem exists_of_bytes_eq (h : bytes ds = before ++ (bytes (c :: cs) ++ after)) :
    ∃ pre post, ds = pre ++ (c :: cs ++ post) ∧ bytes pre = before := by
  induction ds generalizing before with
  | nil => simp [String.utf8EncodeChar_ne_nil] at h
  | cons d ds ih =>
    have hnext {bs : List UInt8} (hbs : bytes ds = bs ++ (bytes (c :: cs) ++ after)) :
        ∃ pre post, d :: ds = pre ++ (c :: cs ++ post) ∧
          bytes pre = String.utf8EncodeChar d ++ bs := by
      obtain ⟨pre, post, rfl, rfl⟩ := ih hbs
      exact ⟨d :: pre, post, rfl, rfl⟩
    rw [bytes_cons] at h
    rcases List.append_eq_append_iff.1 h with ⟨bs, rfl, hrest⟩ | ⟨bs, hd, hrest⟩
    · exact hnext hrest
    · by_cases hbs : bs = []
      · subst hbs
        rw [List.append_nil] at hd
        have hbs : bytes ds = [] ++ (bytes (c :: cs) ++ after) := hrest.symm
        simpa [hd] using hnext hbs
      · rw [bytes_cons, List.append_assoc] at hrest
        obtain rfl := eq_nil_of_utf8EncodeChar_eq hd hbs hrest.symm
        have hbytes : bytes (d :: ds) = bytes (c :: cs) ++ after := by simpa using h
        obtain ⟨post, hpost⟩ := exists_of_bytes_prefix hbytes
        exact ⟨[], post, hpost, rfl⟩

/-! ## Places -/

/-- Where the characters of a text stand, its bytes do. -/
theorem standsAt_of_toList (h : text.toList = front ++ (needle.toList ++ rest)) :
    StandsAt needle text (byteLength front + 1) := by
  refine ⟨bytes front, bytes rest, ?_, by rw [length_bytes]⟩
  rw [utf8_eq_bytes, utf8_eq_bytes, h, bytes_append, bytes_append]

theorem StandsAt.exists_toList (h : StandsAt needle text p) (hn : needle.toList ≠ []) :
    ∃ front rest, text.toList = front ++ (needle.toList ++ rest) ∧ p = byteLength front + 1 := by
  obtain ⟨before, after, htext, rfl⟩ := h
  obtain ⟨c, cs, hneedle⟩ := List.exists_cons_of_ne_nil hn
  rw [utf8_eq_bytes, utf8_eq_bytes, hneedle] at htext
  obtain ⟨front, rest, hrest, rfl⟩ := exists_of_bytes_eq htext
  exact ⟨front, rest, by rw [hrest, hneedle], by rw [length_bytes]⟩

theorem StandsAt.le (h : StandsAt needle text p) : p ≤ byteLength text.toList + 1 := by
  obtain ⟨before, after, htext, rfl⟩ := h
  have hlength := congrArg List.length htext
  rw [length_utf8, List.length_append] at hlength
  omega

theorem StandsAt.pos (h : StandsAt needle text p) : 0 < p := by
  obtain ⟨before, after, -, rfl⟩ := h
  exact Nat.succ_pos _

/-- A place between two characters, or at an end, is not torn. -/
theorem not_torn (h : text.toList = front ++ rest) : ¬ Torn text (byteLength front + 1) := by
  rintro ⟨pre, c, post, htext, hlt, hgt⟩
  rw [h] at htext
  rcases List.append_eq_append_iff.1 htext with ⟨as, rfl, -⟩ | ⟨as, rfl, has⟩
  · rw [byteLength_append] at hlt
    omega
  · cases as with
    | nil => simp at hlt
    | cons a as =>
      obtain rfl := (List.cons.inj has).1
      simp only [byteLength_append, byteLength_cons] at hgt
      omega

/-- A text starts at the place one. -/
theorem not_torn_one (text : String) : ¬ Torn text 1 :=
  not_torn (List.nil_append text.toList).symm

/-- A text whose first character is a single byte leaves a place behind that byte. -/
theorem StandsAt.not_torn_succ (h : StandsAt needle text p) (hneedle : needle.toList = c :: cs)
    (hc : c.utf8Size = 1) : ¬ Torn text (p + 1) := by
  obtain ⟨front, rest, htext, rfl⟩ := h.exists_toList (by simp [hneedle])
  rw [hneedle] at htext
  have hsplit : text.toList = (front ++ [c]) ++ (cs ++ rest) := by simp [htext]
  simpa [hc] using not_torn hsplit

/-! ## Where a search begins -/

/-- A text can be cut between two characters. -/
theorem dropBytes?_eq_some_iff :
    dropBytes? k cs = some rest ↔ ∃ front, cs = front ++ rest ∧ byteLength front = k := by
  induction cs generalizing k with
  | nil =>
    cases k with
    | zero =>
      simp only [dropBytes?, Option.some.injEq]
      refine ⟨fun h ↦ ⟨[], by simp [h], rfl⟩, fun ⟨front, h, _⟩ ↦ ?_⟩
      exact (List.append_eq_nil_iff.1 h.symm).2.symm
    | succ k =>
      simp only [dropBytes?, reduceCtorEq, false_iff, not_exists, not_and]
      intro front h
      rw [(List.append_eq_nil_iff.1 h.symm).1]
      simp
  | cons c cs ih =>
    have hpos := c.utf8Size_pos
    cases k with
    | zero =>
      simp only [dropBytes?, Option.some.injEq]
      refine ⟨fun h ↦ ⟨[], by simp [h], rfl⟩, fun ⟨front, h, hzero⟩ ↦ ?_⟩
      rw [h, byteLength_eq_zero_iff.1 hzero, List.nil_append]
    | succ k =>
      have hcons (front : List Char) (h : c :: cs = front ++ rest) (hk : byteLength front = k + 1) :
          ∃ tail, front = c :: tail ∧ cs = tail ++ rest ∧ c.utf8Size + byteLength tail = k + 1 := by
        cases front with
        | nil => simp at hk
        | cons d tail =>
          obtain ⟨rfl, hcs⟩ := List.cons.inj h
          exact ⟨tail, rfl, hcs, by rwa [byteLength_cons] at hk⟩
      rw [dropBytes?]
      split
      · rw [ih]
        constructor
        · rintro ⟨tail, rfl, htail⟩
          exact ⟨c :: tail, rfl, by rw [byteLength_cons]; omega⟩
        · rintro ⟨front, h, hk⟩
          obtain ⟨tail, rfl, rfl, htail⟩ := hcons front h hk
          exact ⟨tail, rfl, by omega⟩
      · simp only [reduceCtorEq, false_iff, not_exists, not_and]
        intro front h hk
        obtain ⟨tail, -, -, htail⟩ := hcons front h hk
        omega

/-- A text that cannot be cut at a place is shorter, or the place is inside a character. -/
theorem torn_of_dropBytes? (h : dropBytes? k text.toList = none) (hk : k ≤ byteLength text.toList) :
    Torn text (k + 1) := by
  suffices hlist : ∃ front c rest, text.toList = front ++ c :: rest ∧ byteLength front < k ∧
      k < byteLength front + c.utf8Size by
    obtain ⟨front, c, rest, htext, hlt, hgt⟩ := hlist
    exact ⟨front, c, rest, htext, Nat.succ_lt_succ hlt, Nat.succ_lt_succ hgt⟩
  generalize text.toList = cs at h hk
  induction cs generalizing k with
  | nil =>
    cases k with
    | zero => cases h
    | succ k => simp at hk
  | cons c cs ih =>
    cases k with
    | zero => cases h
    | succ k =>
      rw [dropBytes?] at h
      rw [byteLength_cons] at hk
      split at h
      · obtain ⟨front, d, rest, rfl, hlt, hgt⟩ := ih h (by omega)
        exact ⟨c :: front, d, rest, rfl, by rw [byteLength_cons]; omega,
          by rw [byteLength_cons]; omega⟩
      · exact ⟨[], c, cs, rfl, Nat.succ_pos k, by rw [byteLength_nil]; omega⟩

/-! ## The first place -/

/-- The first place among characters comes before all places of bytes. -/
theorem place?_le (hn : place? needle.toList rest = some n) (htext : text.toList = front ++ rest)
    (hstands : StandsAt needle text q) (hq : byteLength front < q) :
    byteLength front + byteLength (rest.take n) < q := by
  by_cases hempty : needle.toList = []
  · -- an empty text is found where the search begins
    have hzero : n = 0 := by
      by_contra hne
      exact (place?_eq_some_iff.1 hn).2 0 (Nat.pos_of_ne_zero hne) (by simp [hempty])
    simpa [hzero] using hq
  · obtain ⟨pre, post, hpre, rfl⟩ := hstands.exists_toList hempty
    obtain ⟨as, rfl, rfl⟩ : ∃ as, pre = front ++ as ∧ rest = as ++ (needle.toList ++ post) := by
      rcases List.append_eq_append_iff.1 (htext.symm.trans hpre) with
        ⟨as, hfront, hrest⟩ | ⟨as, hfront, hrest⟩
      · exact ⟨as, hfront, hrest⟩
      · have hnil : as = [] := by
          refine byteLength_eq_zero_iff.1 ?_
          rw [hfront, byteLength_append] at hq
          omega
        subst hnil
        exact ⟨[], by simpa using hfront.symm, hrest.symm⟩
    have hle : n ≤ as.length := by
      by_contra hlt
      refine (place?_eq_some_iff.1 hn).2 as.length (Nat.lt_of_not_le hlt) ?_
      rw [List.drop_left]
      exact List.prefix_append _ _
    have htake : byteLength as = byteLength (as.take n) + byteLength (as.drop n) := by
      rw [← byteLength_append, List.take_append_drop]
    rw [List.take_append_of_le_length hle, byteLength_append]
    omega

/-- Where no place is found, the bytes stand nowhere behind the start. -/
theorem not_standsAt_of_place? (hn : place? needle.toList rest = none)
    (htext : text.toList = front ++ rest) (hq : byteLength front < q) :
    ¬ StandsAt needle text q := by
  intro hstands
  have hempty : needle.toList ≠ [] := by
    intro hnil
    exact place?_eq_none_iff.1 hn 0 (by simp [hnil])
  obtain ⟨pre, post, hpre, rfl⟩ := hstands.exists_toList hempty
  rcases List.append_eq_append_iff.1 (htext.symm.trans hpre) with ⟨as, -, rfl⟩ | ⟨as, rfl, hrest⟩
  · refine place?_eq_none_iff.1 hn as.length ?_
    rw [List.drop_left]
    exact List.prefix_append _ _
  · have hnil : as = [] := by
      refine byteLength_eq_zero_iff.1 ?_
      rw [byteLength_append] at hq
      omega
    subst hnil
    refine place?_eq_none_iff.1 hn 0 ?_
    rw [List.drop_zero, ← List.nil_append rest, ← hrest]
    exact List.prefix_append _ _

theorem cut?_eq (needle text : List Char) :
    cut? needle text =
      (place? needle text).map fun n ↦ (text.take n, text.drop (n + needle.length)) :=
  rfl

/-- The characters before and behind a place that was found. -/
theorem eq_of_place? (hn : place? cs rest = some n) :
    rest = rest.take n ++ (cs ++ rest.drop (n + cs.length)) := by
  obtain ⟨post, hpost⟩ := (place?_eq_some_iff.1 hn).1
  have hdrop : rest.drop (n + cs.length) = post := by
    rw [← List.drop_drop, ← hpost, List.drop_left]
  rw [hdrop, hpost, List.take_append_drop]

theorem positionFrom?_eq (needle text : String) (k : Nat) :
    positionFrom? needle text k =
      (dropBytes? k text.toList).bind fun rest ↦
        (place? needle.toList rest).map fun n ↦ k + byteLength (rest.take n) := by
  simp only [positionFrom?, cut?_eq, Option.bind_eq_bind]
  cases dropBytes? k text.toList with
  | none => rfl
  | some rest =>
    rw [Option.bind_some, Option.bind_some]
    cases place? needle.toList rest <;> rfl

/-- Inside a character nothing is found. -/
theorem positionFrom?_of_torn (h : Torn text (k + 1)) : positionFrom? needle text k = none := by
  rw [positionFrom?_eq]
  cases hdrop : dropBytes? k text.toList with
  | none => rfl
  | some rest =>
    obtain ⟨front, htext, rfl⟩ := dropBytes?_eq_some_iff.1 hdrop
    exact absurd h (not_torn htext)

/-- **The search gives the first place**, unless it is to begin inside a character. -/
theorem firstFrom_positionFrom? (h : ¬ Torn text (k + 1)) :
    FirstFrom needle text (k + 1) (((positionFrom? needle text k).map (· + 1)).getD 0) := by
  have hnone (hno : ∀ q, k + 1 ≤ q → ¬ StandsAt needle text q) : FirstFrom needle text (k + 1) 0 :=
    ⟨⟨fun _ ↦ hno, fun _ ↦ rfl⟩, fun hne ↦ absurd rfl hne⟩
  rw [positionFrom?_eq]
  cases hdrop : dropBytes? k text.toList with
  | none =>
    refine hnone fun q hq hstands ↦ h (torn_of_dropBytes? hdrop ?_)
    have hle := hstands.le
    omega
  | some rest =>
    obtain ⟨front, htext, rfl⟩ := dropBytes?_eq_some_iff.1 hdrop
    rw [Option.bind_some]
    cases hplace : place? needle.toList rest with
    | none => exact hnone fun q hq ↦ not_standsAt_of_place? hplace htext hq
    | some n =>
      have hstands : StandsAt needle text (byteLength front + byteLength (rest.take n) + 1) := by
        have hsplit : text.toList = (front ++ rest.take n) ++
            (needle.toList ++ rest.drop (n + needle.toList.length)) := by
          rw [htext, List.append_assoc, ← eq_of_place? hplace]
        rw [← byteLength_append]
        exact standsAt_of_toList hsplit
      refine ⟨⟨fun hzero ↦ absurd hzero (Nat.succ_ne_zero _), fun hno ↦ ?_⟩,
        fun _ ↦ ⟨⟨?_, hstands⟩, ?_⟩⟩
      · exact absurd hstands (hno _ (Nat.succ_le_succ (Nat.le_add_right _ _)))
      · exact Nat.succ_le_succ (Nat.le_add_right _ _)
      · rintro q ⟨hq, hq'⟩
        exact place?_le hplace htext hq' hq

theorem position?_eq (needle text : String) :
    position? needle text = positionFrom? needle text 0 := by
  rw [positionFrom?_eq, position?, cut?_eq, Option.map_map]
  have hdrop : dropBytes? 0 text.toList = some text.toList :=
    dropBytes?_eq_some_iff.2 ⟨[], rfl, rfl⟩
  rw [hdrop, Option.bind_some]
  refine congrArg (Option.map · _) (funext fun n ↦ ?_)
  exact (Nat.zero_add _).symm

/-- **Containment gives the first place** of all. -/
theorem firstFrom_position? (needle text : String) :
    FirstFrom needle text 1 (((position? needle text).map (· + 1)).getD 0) := by
  rw [position?_eq]
  exact firstFrom_positionFrom? (not_torn_one text)

/-! ## The first occurrence taken out -/

theorem removeFirst_of_position? (h : position? needle text = none) :
    removeFirst needle text = text := by
  rw [position?, Option.map_eq_none_iff] at h
  rw [removeFirst, h]

/-- The first occurrence parts the bytes of a text into those before and those behind it, which are
left without it. -/
theorem exists_of_position? (h : position? needle text = some k) :
    ∃ before after, utf8 text = before ++ (utf8 needle ++ after) ∧
      utf8 (removeFirst needle text) = before ++ after ∧ before.length = k := by
  rw [position?, cut?_eq, Option.map_map] at h
  obtain ⟨n, hplace, rfl⟩ := Option.map_eq_some_iff.1 h
  have htext := congrArg bytes (eq_of_place? hplace)
  rw [bytes_append, bytes_append, ← utf8_eq_bytes, ← utf8_eq_bytes needle] at htext
  refine ⟨_, _, htext, ?_, length_bytes _⟩
  rw [removeFirst, cut?_eq, hplace]
  dsimp only [Option.map_some]
  rw [utf8_ofList, bytes_append]

/-- **The bytes before and behind the first occurrence** are left. -/
theorem utf8_removeFirst (h : position? needle text = some k) :
    utf8 (removeFirst needle text) =
      (utf8 text).take k ++ (utf8 text).drop (k + (utf8 needle).length) := by
  obtain ⟨before, after, htext, hrest, rfl⟩ := exists_of_position? h
  rw [hrest, htext, List.take_left, ← List.drop_drop, List.drop_left, List.drop_left]

theorem length_utf8_removeFirst (h : position? needle text = some k) :
    (utf8 (removeFirst needle text)).length + (utf8 needle).length = (utf8 text).length := by
  obtain ⟨before, after, htext, hrest, -⟩ := exists_of_position? h
  rw [hrest, htext, List.length_append, List.length_append, List.length_append]
  omega

/-- A text is found at the start of itself and more. -/
theorem removeFirst_append (needle text : String) : removeFirst needle (needle ++ text) = text := by
  have hplace : place? needle.toList (needle ++ text).toList = some 0 := by
    refine place?_eq_some_iff.2 ⟨?_, fun j hj ↦ absurd hj (Nat.not_lt_zero j)⟩
    rw [String.toList_append]
    exact List.prefix_append _ _
  rw [removeFirst, cut?_eq, hplace]
  dsimp only [Option.map_some]
  rw [String.toList_append, Nat.zero_add, List.drop_left, List.take_zero, List.nil_append,
    String.ofList_toList]

end ScriptHeap.Text
