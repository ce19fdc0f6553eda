import ScriptHeap.Text.Blank

/-!
# Compiler settings

The settings of the script compiler, their defaults, and the form of directories.

## What is here

* `Property`, `Flag` — the settings by name: one list of directories, three directories, and the
  switches.
* `Settings` — a value for each of them.
* `normalizedDir` — forward slashes and one at the end; no directory stays no directory.
* `Settings.ofLookup` — settings from two variables of the environment.
-/

set_option autoImplicit false
namespace ScriptHeap

/-- The switches of the compiler. -/
inductive Flag where
  | generateListing
  | generateDebugInfo
  | generateDebugTextInfo
  | displayWarnings
  | compileAspPages
  | autoCompileByDefault
  | updateOnlyOnAutoCompile
  | onlyCompileUpdatedScripts
  | displaySummary
  | optimizeObjectMembers
  | errorOnWarning
  | generateDependencyInfo
  | displayUpToDateScripts
  | threadedCompilation
  | paranoiaWarnings
  deriving DecidableEq, Repr

namespace Flag

/-- All switches, in the order of the settings. -/
def all : List Flag :=
  [generateListing, generateDebugInfo, generateDebugTextInfo, displayWarnings, compileAspPages,
    autoCompileByDefault, updateOnlyOnAutoCompile, onlyCompileUpdatedScripts, displaySummary,
    optimizeObjectMembers, errorOnWarning, generateDependencyInfo, displayUpToDateScripts,
    threadedCompilation, paranoiaWarnings]

/-- The name of a switch in a settings file. -/
def name : Flag → String
  | generateListing => "GenerateListing"
  | generateDebugInfo => "GenerateDebugInfo"
  | generateDebugTextInfo => "GenerateDebugTextInfo"
  | displayWarnings => "DisplayWarnings"
  | compileAspPages => "CompileAspPages"
  | autoCompileByDefault => "AutoCompileByDefault"
  | updateOnlyOnAutoCompile => "UpdateOnlyOnAutoCompile"
  | onlyCompileUpdatedScripts => "OnlyCompileUpdatedScripts"
  | displaySummary => "DisplaySummary"
  | optimizeObjectMembers => "OptimizeObjectMembers"
  | errorOnWarning => "ErrorOnWarning"
  | generateDependencyInfo => "GenerateDependencyInfo"
  | displayUpToDateScripts => "DisplayUpToDateScripts"
  | threadedCompilation => "ThreadedCompilation"
  | paranoiaWarnings => "ParanoiaWarnings"

/-- Whether a switch is on when nothing is said about it. -/
def byDefault : Flag → Bool
  | optimizeObjectMembers | displayUpToDateScripts => true
  | _ => false

end Flag

/-- The names of the settings that are directories. -/
def packageRootKey : String := "PackageRoot"

@[inherit_doc packageRootKey]
def includeDirectoryKey : String := "IncludeDirectory"

@[inherit_doc packageRootKey]
def moduleDirectoryKey : String := "ModuleDirectory"

@[inherit_doc packageRootKey]
def scriptRootKey : String := "PolScriptRoot"

/-- Settings of the compiler. -/
structure Settings where
  packageRoots : List String
  includeDirectory : String
  moduleDirectory : String
  scriptRoot : String
  /-- Whether a switch is on. -/
  isOn : Flag → Bool

theorem Flag.mem_all (f : Flag) : f ∈ Flag.all := by
  cases f <;> decide

/-- Settings are equal when their directories and all switches are. -/
instance : DecidableEq Settings := fun s t ↦
  decidable_of_iff
    (s.packageRoots = t.packageRoots ∧ s.includeDirectory = t.includeDirectory ∧
      s.moduleDirectory = t.moduleDirectory ∧ s.scriptRoot = t.scriptRoot ∧
      ∀ f ∈ Flag.all, s.isOn f = t.isOn f) <| by
    constructor
    · rintro ⟨h1, h2, h3, h4, h5⟩
      cases s
      cases t
      simp only [Settings.mk.injEq]
      exact ⟨h1, h2, h3, h4, funext fun f ↦ h5 f f.mem_all⟩
    · rintro rfl
      exact ⟨rfl, rfl, rfl, rfl, fun _ _ ↦ rfl⟩

/-- A directory with forward slashes and one at the end. -/
def normalizedDir (dir : String) : String :=
  let cs := (Text.trim dir.toList).map fun c ↦ if c = '\\' then '/' else c
  String.ofList (if cs = [] ∨ cs.getLast? = some '/' then cs else cs ++ ['/'])

namespace Settings

/-- No directories, and every switch at its default. -/
def standard : Settings :=
  ⟨[], "", "", "", Flag.byDefault⟩

instance : Inhabited Settings :=
  ⟨standard⟩

/-- One more package root. -/
def withPackageRoot (s : Settings) (dir : String) : Settings :=
  { s with packageRoots := s.packageRoots ++ [normalizedDir dir] }

/-- Another include directory. -/
def withIncludeDirectory (s : Settings) (dir : String) : Settings :=
  { s with includeDirectory := normalizedDir dir }

/-- Another module directory. -/
def withModuleDirectory (s : Settings) (dir : String) : Settings :=
  { s with moduleDirectory := normalizedDir dir }

/-- Another script root. -/
def withScriptRoot (s : Settings) (dir : String) : Settings :=
  { s with scriptRoot := normalizedDir dir }

/-- The variables that name the module and include directories when there is no settings file. -/
def moduleVariable : String := "ECOMPILE_PATH_EM"

@[inherit_doc moduleVariable]
def includeVariable : String := "ECOMPILE_PATH_INC"

/-- Settings without a file: directories from variables, or else the working directory; the script
root is the include directory. -/
def ofLookup (lookup : String → Option String) (workingDir : String) : Settings :=
  let directory (variableName : String) :=
    match lookup variableName with
    | some dir => normalizedDir dir
    | none => workingDir
  let includeDir := directory includeVariable
  ((standard.withModuleDirectory (directory moduleVariable)).withScriptRoot
    includeDir).withIncludeDirectory includeDir

end Settings
end ScriptHeap
