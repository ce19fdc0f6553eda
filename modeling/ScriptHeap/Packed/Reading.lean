import ScriptHeap.Packed.Layout
import ScriptHeap.Packed.Stream
import ScriptHeap.Text.Utf8
import ScriptHeap.Value.Basic

/-!
# Reading packed values

A packed value is read from a stream, or from bytes that must hold it and nothing else.  Counts and
lengths are taken at their word only as far as bytes follow.

## What is here

* `DecodeError` — what can be wrong, each with its message.
* `DecodeFailure` — an error together with the data that were complete before it, in the order of
  their completion: elements of containers whose end was not reached.
* `decode` — one value from a stream, with containers nested up to a number of levels.
* `unpack` — the value that bytes hold.
-/

set_option autoImplicit false
namespace ScriptHeap.Packed

/-- What can be wrong with a packed value. -/
inductive DecodeError where
  | unexpectedEnd
  | unknownTag (tag : UInt8)
  | unpackable (kind : Kind)
  | invalidUtf8
  | nameCount (elements names : Nat)
  | trailing (count : Nat)
  | tooDeep (limit : Nat)
  | broken (reason : String)
  deriving DecidableEq, Repr

/-- The message of a decode error. -/
def DecodeError.message : DecodeError → String
  | unexpectedEnd => "Unexpected end of input"
  | unknownTag tag => "Unknown type tag: " ++ Nat.repr tag.toNat
  | unpackable kind => "Values of kind " ++ kind.name ++ " cannot be unpacked"
  | invalidUtf8 => "Invalid UTF-8 in string payload"
  | nameCount elements names =>
    "Struct has " ++ Nat.repr elements ++ " elements but " ++ Nat.repr names ++ " names"
  | trailing count => Nat.repr count ++ " trailing bytes after packed value"
  | tooDeep limit => "Containers nested deeper than " ++ Nat.repr limit ++ " levels"
  | broken reason => "I/O error: " ++ reason

variable {Obj : Type}

/-- An error and the data that were complete before it. -/
structure DecodeFailure (Obj : Type) where
  cause : DecodeError
  completed : List (Datum Obj)
  deriving Repr

/-- Reading from a stream. -/
abbrev Decoder (Obj : Type) := EStateM (DecodeFailure Obj) Stream

/-- Gives up with an error. -/
def refuse {α : Type} (cause : DecodeError) : Decoder Obj α :=
  throw ⟨cause, []⟩

/-- Marks data as complete before whatever fails in the rest of the reading. -/
def completing {α : Type} (ds : List (Datum Obj)) (act : Decoder Obj α) : Decoder Obj α :=
  tryCatch act fun failure ↦ throw { failure with completed := ds ++ failure.completed }

/-- The next `n` bytes. -/
def takeBytes (n : Nat) : Decoder Obj (List UInt8) := do
  match ← modifyGet fun s ↦ s.take n with
  | .ok bytes => return bytes
  | .error .finished => refuse .unexpectedEnd
  | .error (.broken reason) => refuse (.broken reason)

/-- The number in the next `width` bytes. -/
def takeNumber (width : Nat) : Decoder Obj Nat := do
  return ofLittleEndian (← takeBytes width)

/-- A length and then a text of so many bytes. -/
def takeText : Decoder Obj String := do
  let bytes ← takeBytes (← takeNumber 4)
  match Text.ofUtf8? bytes with
  | some s => return s
  | none => refuse .invalidUtf8

/-- So many texts, after those already read. -/
def takeTexts : Nat → List String → Decoder Obj (List String)
  | 0, read => return read.reverse
  | n + 1, read => do takeTexts n ((← takeText) :: read)

/-- So many data, after those already read. -/
def takeData (inner : Decoder Obj (Datum Obj)) :
    Nat → List (Datum Obj) → Decoder Obj (List (Datum Obj))
  | 0, read => return read.reverse
  | n + 1, read => do
    let d ← tryCatch inner fun failure ↦
      throw { failure with completed := read.reverse ++ failure.completed }
    takeData inner n (d :: read)

/-- An array after its tag. -/
def takeArray (inner : Decoder Obj (Datum Obj)) : Decoder Obj (Datum Obj) := do
  return .array (← takeData inner (← takeNumber 4) [])

/-- A struct after its tag.  There must be as many names as elements. -/
def takeStruct (inner : Decoder Obj (Datum Obj)) : Decoder Obj (Datum Obj) := do
  let ds ← takeData inner (← takeNumber 4) []
  completing ds do
    let count ← takeNumber 4
    if count ≠ ds.length then
      refuse (.nameCount ds.length count)
    let names ← takeTexts count []
    return .struct (names.zip ds) []

/-- What follows the tag of a kind.  `inner` reads elements; without it the nesting limit is
reached. -/
def takeBody (inner : Option (Decoder Obj (Datum Obj))) : Kind → Decoder Obj (Datum Obj)
  | .integer => do return .scalar (.integer (UInt32.ofNat (← takeNumber 4)).toInt32)
  | .double => do return .scalar (.double ⟨UInt64.ofNat (← takeNumber 8)⟩)
  | .string => do return .scalar (.string (← takeText))
  | .error => do return .scalar (.error (← takeText))
  | .array =>
    match inner with
    | some inner => takeArray inner
    | none => refuse (.tooDeep nestingLimit)
  | .struct =>
    match inner with
    | some inner => takeStruct inner
    | none => refuse (.tooDeep nestingLimit)
  | _ => return .scalar .uninit

/-- A tag and what follows it. -/
def takeValue (inner : Option (Decoder Obj (Datum Obj))) : Decoder Obj (Datum Obj) := do
  let tag := UInt8.ofNat (← takeNumber 1)
  match Kind.ofTag? tag with
  | none => refuse (.unknownTag tag)
  | some kind =>
    if kind.isDecodable then takeBody inner kind else refuse (.unpackable kind)

/-- A value with containers nested up to so many levels. -/
def takeNested : Nat → Decoder Obj (Datum Obj)
  | 0 => takeValue none
  | levels + 1 => takeValue (some (takeNested levels))

/-- One value from a stream; what comes after it stays unread. -/
def decode : Decoder Obj (Datum Obj) :=
  takeNested nestingLimit

/-- The value that bytes hold.  Bytes after it are an error, before which the value is complete. -/
def unpack (bytes : List UInt8) : Except (DecodeFailure Obj) (Datum Obj) :=
  match decode.run (.ofBytes bytes) with
  | .ok d rest => if rest.remaining = 0 then .ok d else .error ⟨.trailing rest.remaining, [d]⟩
  | .error failure _ => .error failure

end ScriptHeap.Packed
