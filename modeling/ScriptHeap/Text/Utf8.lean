/-!
# Texts as bytes

A text and its UTF-8 bytes, and two ways back: the strict one refuses bytes that are not UTF-8, the
lenient one puts the replacement character in their place.

## What is here

* `utf8`, `ofUtf8?` — bytes of a text and the text of valid bytes; `ofUtf8?_utf8` and
  `utf8_of_ofUtf8?` say that these are inverse to each other.
* `ofUtf8Lenient` — the text of any bytes.  Each longest piece that could still have become a
  character, and each byte that could not even begin one, gives one replacement character.
-/

set_option autoImplicit false
namespace ScriptHeap.Text

/-- The UTF-8 bytes of a text. -/
def utf8 (s : String) : List UInt8 :=
  s.toByteArray.data.toList

/-- The text of valid UTF-8 bytes. -/
def ofUtf8? (bytes : List UInt8) : Option String :=
  String.fromUTF8? ⟨bytes.toArray⟩

@[simp] theorem ofUtf8?_utf8 (s : String) : ofUtf8? (utf8 s) = some s := by
  simp [ofUtf8?, utf8, String.fromUTF8?, String.fromUTF8, s.isValidUTF8]

theorem utf8_of_ofUtf8? {bytes : List UInt8} {s : String} (h : ofUtf8? bytes = some s) :
    utf8 s = bytes := by
  simp only [ofUtf8?, String.fromUTF8?] at h
  split at h
  · cases h
    simp [utf8, String.fromUTF8]
  · cases h

/-! ## Lenient reading -/

/-- What stands for bytes that are no character. -/
def replacement : Char :=
  Char.ofNat 0xFFFD

/-- A character of which some bytes have been read: its number so far, how many bytes are missing,
and the interval the next one must lie in. -/
structure Unfinished where
  number : Nat
  missing : Nat
  lowest : UInt8
  highest : UInt8
  deriving Repr

/-- What one byte adds: the characters it completes and the character it leaves unfinished. -/
abbrev Reading := List Char × Option Unfinished

/-- A byte at the start of a character.  Bytes that only begin overlong forms or numbers past the
last character begin nothing. -/
def readFirst (b : UInt8) : Reading :=
  if b < 0x80 then ([Char.ofNat b.toNat], none)
  else if b < 0xC2 then ([replacement], none)
  else if b < 0xE0 then ([], some ⟨b.toNat % 32, 1, 0x80, 0xBF⟩)
  else if b < 0xF0 then
    ([], some ⟨b.toNat % 16, 2, if b = 0xE0 then 0xA0 else 0x80, if b = 0xED then 0x9F else 0xBF⟩)
  else if b < 0xF5 then
    ([], some ⟨b.toNat % 8, 3, if b = 0xF0 then 0x90 else 0x80, if b = 0xF4 then 0x8F else 0xBF⟩)
  else ([replacement], none)

/-- A byte in any place.  One that does not fit ends the unfinished character and starts anew. -/
def readByte : Option Unfinished → UInt8 → Reading
  | none, b => readFirst b
  | some u, b =>
    if u.lowest ≤ b && b ≤ u.highest then
      let number := u.number * 64 + b.toNat % 64
      if u.missing = 1 then ([Char.ofNat number], none)
      else ([], some ⟨number, u.missing - 1, 0x80, 0xBF⟩)
    else
      let (cs, next) := readFirst b
      (replacement :: cs, next)

/-- The characters of the bytes after an unfinished character. -/
def lenientFrom : Option Unfinished → List UInt8 → List Char
  | none, [] => []
  | some _, [] => [replacement]
  | u, b :: bytes =>
    let (cs, next) := readByte u b
    cs ++ lenientFrom next bytes

/-- The text of any bytes, with replacements. -/
def ofUtf8Lenient (bytes : List UInt8) : String :=
  String.ofList (lenientFrom none bytes)

end ScriptHeap.Text
