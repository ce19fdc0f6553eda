import ScriptHeap.Settings.Basic

/-!
# Writing settings

Settings as the text of a settings file, one property a line in ascending order of the names, and as
a JSON object in the order of the settings.
-/

set_option autoImplicit false
namespace ScriptHeap

namespace Settings

/-- The digit for a switch. -/
def switchDigit (on : Bool) : String :=
  if on then "1" else "0"

/-- The lines of a switch. -/
def switchValues (s : Settings) (f : Flag) : String × List String :=
  (f.name, [switchDigit (s.isOn f)])

/-- The properties in ascending order of their names, each with its values. -/
def entries (s : Settings) : List (String × List String) :=
  [s.switchValues .autoCompileByDefault, s.switchValues .compileAspPages,
    s.switchValues .displaySummary, s.switchValues .displayUpToDateScripts,
    s.switchValues .displayWarnings, s.switchValues .errorOnWarning,
    s.switchValues .generateDebugInfo, s.switchValues .generateDebugTextInfo,
    s.switchValues .generateDependencyInfo, s.switchValues .generateListing,
    (includeDirectoryKey, [s.includeDirectory]), (moduleDirectoryKey, [s.moduleDirectory]),
    s.switchValues .onlyCompileUpdatedScripts, s.switchValues .optimizeObjectMembers,
    (packageRootKey, s.packageRoots), s.switchValues .paranoiaWarnings,
    (scriptRootKey, [s.scriptRoot]), s.switchValues .threadedCompilation,
    s.switchValues .updateOnlyOnAutoCompile]

/-- One line for a property; an empty value has no line. -/
def entryLine (key value : String) : String :=
  if value = "" then "" else key ++ " " ++ value ++ "\n"

/-- The text of a settings file. -/
def render (s : Settings) : String :=
  String.join (s.entries.flatMap fun (key, values) ↦ values.map (entryLine key))

/-! ## JSON -/

/-- A character of a JSON string. -/
def jsonChar (c : Char) : List Char :=
  if c = '"' then ['\\', '"']
  else if c = '\\' then ['\\', '\\']
  else if c.toNat = 8 then ['\\', 'b']
  else if c.toNat = 9 then ['\\', 't']
  else if c.toNat = 10 then ['\\', 'n']
  else if c.toNat = 12 then ['\\', 'f']
  else if c.toNat = 13 then ['\\', 'r']
  else if c.toNat < 32 then
    ['\\', 'u', '0', '0', Nat.digitChar (c.toNat / 16), Nat.digitChar (c.toNat % 16)]
  else [c]

/-- A JSON string. -/
def jsonString (s : String) : String :=
  "\"" ++ String.ofList (s.toList.flatMap jsonChar) ++ "\""

/-- A JSON array of strings, one to a line. -/
def jsonStrings (values : List String) : String :=
  if values.isEmpty then "[]"
  else
    "[\n" ++ String.intercalate ",\n" (values.map fun v ↦ "    " ++ jsonString v) ++ "\n  ]"

/-- The fields of the JSON object. -/
def jsonFields (s : Settings) : List (String × String) :=
  [(packageRootKey, jsonStrings s.packageRoots),
    (includeDirectoryKey, jsonString s.includeDirectory),
    (moduleDirectoryKey, jsonString s.moduleDirectory),
    (scriptRootKey, jsonString s.scriptRoot)] ++
    Flag.all.map fun f ↦ (f.name, if s.isOn f then "true" else "false")

/-- The settings as a JSON object, one field to a line. -/
def json (s : Settings) : String :=
  let fields := s.jsonFields.map fun (key, value) ↦ "  " ++ jsonString key ++ ": " ++ value
  "\x7b\n" ++ String.intercalate ",\n" fields ++ "\n\x7d"

end Settings
end ScriptHeap
