import ScriptHeap.Settings.Basic
import ScriptHeap.Text.Name
import ScriptHeap.Text.Split

/-!
# Reading settings

A settings file has one property a line: a key, blanks, a value.  Empty lines, comments after `#` or
`//` and lines of a single brace say nothing.  Keys may be written in any case.

## What is here

* `SettingsError` — what can be wrong, each with its message.
* `PropertyLine`, `propertyLines` — the properties of a text, in order.
* `Settings.ofProperties` — the settings that properties stand for.  Every line of the package root
  counts, of any other property the first; unknown properties say nothing.
* `Settings.parse` — the two together.
-/

set_option autoImplicit false
namespace ScriptHeap

/-- What can be wrong with settings. -/
inductive SettingsError where
  | malformed (line : Nat) (text : String)
  | missing (key : String)
  | notASwitch (key value : String)
  deriving DecidableEq, Repr

/-- The message of an error in the settings of the given origin. -/
def SettingsError.message (origin : String) : SettingsError → String
  | malformed line text =>
    origin ++ ":" ++ Nat.repr line ++ ": expected 'Key Value', found '" ++ text ++ "'"
  | missing key => origin ++ ": property '" ++ key ++ "' is required"
  | notASwitch key value =>
    origin ++ ": property '" ++ key ++ "' has invalid boolean value '" ++ value ++ "'"

/-- A key and its value. -/
structure PropertyLine where
  key : String
  value : String
  deriving DecidableEq, Repr

/-- Whether a line without blanks around it says nothing. -/
def isSilent (line : List Char) : Bool :=
  match line with
  | [] | ['\x7b'] | ['\x7d'] | '#' :: _ | '/' :: '/' :: _ => true
  | _ => false

/-- The properties of lines, the first of which has the given number. -/
def propertiesFrom : Nat → List (List Char) → Except SettingsError (List PropertyLine)
  | _, [] => .ok []
  | n, raw :: lines =>
    let line := Text.trim raw
    if isSilent line then propertiesFrom (n + 1) lines
    else
      match Text.splitBlank? line with
      | none => .error (.malformed n (String.ofList line))
      | some (key, value) => do
        let rest ← propertiesFrom (n + 1) lines
        return ⟨String.ofList key, String.ofList (Text.trim value)⟩ :: rest

/-- The properties of a text, in order. -/
def propertyLines (text : String) : Except SettingsError (List PropertyLine) :=
  propertiesFrom 1 (Text.parts '\n' text.toList)

/-- All values of a property, in order. -/
def valuesOf (ps : List PropertyLine) (key : String) : List String :=
  (ps.filter fun p ↦ Text.sameName p.key key).map (·.value)

/-- The words for a switch. -/
def switchOf? (value : String) : Option Bool :=
  let word := Text.lowered value
  if ["1", "true", "yes", "on"].contains word then some true
  else if ["0", "false", "no", "off"].contains word then some false
  else none

/-- The directory a property names, which must be there. -/
def requiredDir (ps : List PropertyLine) (key : String) : Except SettingsError String :=
  match valuesOf ps key with
  | value :: _ => .ok (normalizedDir value)
  | [] => .error (.missing key)

/-- The switch a property sets, or its default. -/
def switch (ps : List PropertyLine) (f : Flag) (byDefault : Bool) : Except SettingsError Bool :=
  match valuesOf ps f.name with
  | [] => .ok byDefault
  | value :: _ =>
    match switchOf? value with
    | some on => .ok on
    | none => .error (.notASwitch f.name value)

namespace Settings

/-- The switches in the order in which they are looked at: one comes first because it is the default
of another. -/
def switchOrder : List Flag :=
  .onlyCompileUpdatedScripts :: Flag.all.filter (· ≠ .onlyCompileUpdatedScripts)

/-- The settings that properties stand for. -/
def ofProperties (ps : List PropertyLine) : Except SettingsError Settings := do
  let moduleDirectory ← requiredDir ps moduleDirectoryKey
  let scriptRoot ← requiredDir ps scriptRootKey
  let onlyUpdated ← switch ps .onlyCompileUpdatedScripts Flag.onlyCompileUpdatedScripts.byDefault
  let switches ← switchOrder.mapM fun f ↦ do
    let byDefault := if f = .generateDependencyInfo then onlyUpdated else f.byDefault
    return (f, ← switch ps f byDefault)
  return {
    packageRoots := (valuesOf ps packageRootKey).map normalizedDir
    includeDirectory := (((valuesOf ps includeDirectoryKey).head?).map normalizedDir).getD ""
    moduleDirectory := moduleDirectory
    scriptRoot := scriptRoot
    isOn := fun f ↦ (switches.lookup f).getD f.byDefault }

/-- The settings in a text. -/
def parse (text : String) : Except SettingsError Settings := do
  ofProperties (← propertyLines text)

end Settings
end ScriptHeap
