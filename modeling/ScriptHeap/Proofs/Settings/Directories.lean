import ScriptHeap.Proofs.Settings.Values

/-!
# Where directories come from

The directories of settings come from the lines of a file, from variables of the environment, from
the working directory or from a caller.  All of them pass through the normal form, some of them
twice, which makes no difference: no backslash is left, no blank at either end, and a slash ends
what is not empty.  A slash is only put where there is none, however, so a text with two of them at
its end keeps both.

## What is here

* `DirectoryTexts`, `Settings.Made` — settings with the texts that their directories come from.
* `Settings.Made.directories_eq` — every directory is the normal form of its text.
* `EndsInOneSlash`, `EndsInTwoSlashes` — how a directory and its text may end;
  `endsInOneSlash_normalizedDir_iff` says how the one depends on the other.
* `Settings.directories_normalized`, the payoff.
-/

set_option autoImplicit false
namespace ScriptHeap

/-! ## Slashes at the end -/

/-- One slash at the end, and none before it. -/
def EndsInOneSlash (dir : String) : Prop :=
  ∃ front, dir.toList = front ++ ['/'] ∧ front.getLast? ≠ some '/'

/-- Two slashes of either kind at the end, apart from blanks behind them. -/
def EndsInTwoSlashes (text : String) : Prop :=
  ∃ front a b, Text.trim text.toList = front ++ [a, b] ∧ a ∈ ['/', '\\'] ∧ b ∈ ['/', '\\']

theorem endsInOneSlash_iff {dir : String} {front : List Char} (h : dir.toList = front ++ ['/']) :
    EndsInOneSlash dir ↔ front.getLast? ≠ some '/' := by
  refine ⟨fun ⟨front', hdir, hlast⟩ ↦ ?_, fun hlast ↦ ⟨front, h, hlast⟩⟩
  rwa [List.append_cancel_right (h.symm.trans hdir)]

theorem endsInTwoSlashes_iff {text : String} {init : List Char} {b : Char}
    (h : Text.trim text.toList = init ++ [b]) :
    EndsInTwoSlashes text ↔ b ∈ ['/', '\\'] ∧ ∃ a ∈ init.getLast?, a ∈ ['/', '\\'] := by
  constructor
  · rintro ⟨front, a, b', htext, ha, hb⟩
    obtain ⟨rfl, hb'⟩ := List.append_inj' (h.symm.trans
      (htext.trans (List.append_cons front a [b']))) rfl
    cases hb'
    exact ⟨hb, a, List.getLast?_concat .., ha⟩
  · rintro ⟨hb, a, hlast, ha⟩
    obtain ⟨front, rfl⟩ := List.getLast?_eq_some_iff.1 hlast
    exact ⟨front, a, b, h.trans (List.append_cons front a [b]).symm, ha, hb⟩

/-- The characters that stand for slashes in directories. -/
theorem forwardSlash_eq_iff {c : Char} :
    (if c = '\\' then '/' else c) = '/' ↔ c ∈ ['/', '\\'] := by
  split <;> simp_all

/-- **How a directory ends**: in one slash, unless its text ends in two. -/
theorem endsInOneSlash_normalizedDir_iff {text : String} (hne : normalizedDir text ≠ "") :
    EndsInOneSlash (normalizedDir text) ↔ ¬ EndsInTwoSlashes text := by
  rcases List.eq_nil_or_concat (Text.trim text.toList) with htext | ⟨init, b, htext⟩
  · exact absurd (by rw [normalizedDir, htext]; rfl) hne
  rw [List.concat_eq_append] at htext
  rw [endsInTwoSlashes_iff htext]
  by_cases hb : b ∈ ['/', '\\']
  · -- The last slash is there already, and what stands before it decides.
    have hdir : (normalizedDir text).toList =
        init.map (fun c ↦ if c = '\\' then '/' else c) ++ ['/'] := by
      rw [normalizedDir, htext, List.map_append, List.map_singleton, forwardSlash_eq_iff.2 hb,
        if_pos (.inr (List.getLast?_concat ..)), String.toList_ofList]
    rw [endsInOneSlash_iff hdir, List.getLast?_map, and_iff_right hb, Ne, Option.map_eq_some_iff]
    simp only [forwardSlash_eq_iff, Option.mem_def]
  · -- The slash at the end is a new one.
    have hlast : (init.map (fun c ↦ if c = '\\' then '/' else c) ++
        [if b = '\\' then '/' else b]).getLast? ≠ some '/' := by
      rw [List.getLast?_concat, Ne, Option.some_inj, forwardSlash_eq_iff]
      exact hb
    have hdir : (normalizedDir text).toList =
        init.map (fun c ↦ if c = '\\' then '/' else c) ++ [if b = '\\' then '/' else b] ++
          ['/'] := by
      rw [normalizedDir, htext, List.map_append, List.map_singleton,
        if_neg (not_or.2 ⟨by simp, hlast⟩), String.toList_ofList]
    exact iff_of_true ((endsInOneSlash_iff hdir).2 hlast) fun h ↦ hb h.1

/-! ## Settings and their texts -/

/-- The texts that the directories of settings come from, empty where there is none. -/
structure DirectoryTexts where
  packageRoots : List String := []
  includeDirectory : String := ""
  moduleDirectory : String := ""
  scriptRoot : String := ""

namespace DirectoryTexts

/-- All texts, in the order of the settings. -/
def all (ts : DirectoryTexts) : List String :=
  ts.packageRoots ++ [ts.includeDirectory, ts.moduleDirectory, ts.scriptRoot]

/-- The texts that properties give. -/
def ofProperties (ps : List PropertyLine) : DirectoryTexts where
  packageRoots := valuesOf ps packageRootKey
  includeDirectory := (valuesOf ps includeDirectoryKey).headD ""
  moduleDirectory := (valuesOf ps moduleDirectoryKey).headD ""
  scriptRoot := (valuesOf ps scriptRootKey).headD ""

/-- The texts that variables give, or else the working directory. -/
def ofLookup (lookup : String → Option String) (workingDir : String) : DirectoryTexts where
  includeDirectory := (lookup Settings.includeVariable).getD workingDir
  moduleDirectory := (lookup Settings.moduleVariable).getD workingDir
  scriptRoot := (lookup Settings.includeVariable).getD workingDir

end DirectoryTexts

namespace Settings

/-- All directories, in the order of the settings. -/
def directories (s : Settings) : List String :=
  s.packageRoots ++ [s.includeDirectory, s.moduleDirectory, s.scriptRoot]

/-- The ways to make settings, with the texts that their directories come from. -/
inductive Made : DirectoryTexts → Settings → Prop where
  | standard : Made {} standard
  | parse {text : String} {ps : List PropertyLine} {s : Settings}
    (hlines : propertyLines text = .ok ps) (hs : parse text = .ok s) : Made (.ofProperties ps) s
  | ofLookup (lookup : String → Option String) (workingDir : String) :
    Made (.ofLookup lookup workingDir) (ofLookup lookup workingDir)
  | withPackageRoot {ts : DirectoryTexts} {s : Settings} (h : Made ts s) (dir : String) :
    Made { ts with packageRoots := ts.packageRoots ++ [dir] } (s.withPackageRoot dir)
  | withIncludeDirectory {ts : DirectoryTexts} {s : Settings} (h : Made ts s) (dir : String) :
    Made { ts with includeDirectory := dir } (s.withIncludeDirectory dir)
  | withModuleDirectory {ts : DirectoryTexts} {s : Settings} (h : Made ts s) (dir : String) :
    Made { ts with moduleDirectory := dir } (s.withModuleDirectory dir)
  | withScriptRoot {ts : DirectoryTexts} {s : Settings} (h : Made ts s) (dir : String) :
    Made { ts with scriptRoot := dir } (s.withScriptRoot dir)

theorem normalizedDir_empty : normalizedDir "" = "" := by
  decide

theorem eq_normalizedDir_of_requiredDir {ps : List PropertyLine} {key dir : String}
    (h : requiredDir ps key = .ok dir) : dir = normalizedDir ((valuesOf ps key).headD "") := by
  rw [requiredDir] at h
  split at h
  · rename_i value rest hvalues
    rw [hvalues]
    exact (Except.ok.inj h).symm
  · cases h

/-- The directories of settings are the normal forms of texts. -/
structure Normalizes (s : Settings) (ts : DirectoryTexts) : Prop where
  packageRoots : s.packageRoots = ts.packageRoots.map normalizedDir
  includeDirectory : s.includeDirectory = normalizedDir ts.includeDirectory
  moduleDirectory : s.moduleDirectory = normalizedDir ts.moduleDirectory
  scriptRoot : s.scriptRoot = normalizedDir ts.scriptRoot

theorem Normalizes.directories_eq {s : Settings} {ts : DirectoryTexts} (h : s.Normalizes ts) :
    s.directories = ts.all.map normalizedDir := by
  rw [directories, DirectoryTexts.all, List.map_append, h.packageRoots, h.includeDirectory,
    h.moduleDirectory, h.scriptRoot]
  rfl

/-- The directories that properties give. -/
theorem normalizes_of_ofProperties {ps : List PropertyLine} {s : Settings}
    (h : ofProperties ps = .ok s) : s.Normalizes (.ofProperties ps) := by
  obtain ⟨moduleDirectory, hmodule, h⟩ := exists_of_bind_eq_ok h
  obtain ⟨scriptRoot, hroot, h⟩ := exists_of_bind_eq_ok h
  obtain ⟨onlyUpdated, -, h⟩ := exists_of_bind_eq_ok h
  obtain ⟨switches, -, h⟩ := exists_of_bind_eq_ok h
  cases h
  refine ⟨rfl, ?_, eq_normalizedDir_of_requiredDir hmodule, eq_normalizedDir_of_requiredDir hroot⟩
  dsimp only [DirectoryTexts.ofProperties]
  cases valuesOf ps includeDirectoryKey with
  | nil => exact normalizedDir_empty.symm
  | cons value rest => rfl

/-- A directory that has been brought into its normal form once more. -/
theorem normalizedDir_directory (lookup : String → Option String) (workingDir name : String) :
    normalizedDir (match lookup name with
      | some dir => normalizedDir dir
      | none => workingDir) = normalizedDir ((lookup name).getD workingDir) := by
  cases lookup name with
  | some dir => exact normalizedDir_normalizedDir dir
  | none => rfl

/-- **Every directory is the normal form of its text.** -/
theorem Made.normalizes {ts : DirectoryTexts} {s : Settings} (h : Made ts s) : s.Normalizes ts := by
  induction h with
  | standard =>
    exact ⟨rfl, normalizedDir_empty.symm, normalizedDir_empty.symm, normalizedDir_empty.symm⟩
  | parse hlines hs => exact normalizes_of_ofProperties ((parse_eq hlines).symm.trans hs)
  | ofLookup lookup workingDir =>
    exact ⟨rfl, normalizedDir_directory lookup workingDir _,
      normalizedDir_directory lookup workingDir _, normalizedDir_directory lookup workingDir _⟩
  | @withPackageRoot ts s _ dir ih =>
    have hroots : s.packageRoots ++ [normalizedDir dir] =
        (ts.packageRoots ++ [dir]).map normalizedDir := by
      rw [ih.packageRoots, List.map_append, List.map_singleton]
    exact { ih with packageRoots := hroots }
  | withIncludeDirectory _ dir ih => exact { ih with includeDirectory := rfl }
  | withModuleDirectory _ dir ih => exact { ih with moduleDirectory := rfl }
  | withScriptRoot _ dir ih => exact { ih with scriptRoot := rfl }

/-! ## The payoff -/

/-- What a directory is like that comes from a text. -/
structure IsDirOf (dir text : String) : Prop where
  /-- It is the normal form of the text, -/
  eq : dir = normalizedDir text
  /-- which is its own normal form. -/
  kept : normalizedDir dir = dir
  /-- If it is not empty, then no blank stands at either end, no backslash is left, and a slash
  stands at the end: a single one unless the text has two. -/
  form : dir ≠ "" → Text.Bare dir.toList ∧ '\\' ∉ dir.toList ∧ dir.toList.getLast? = some '/' ∧
    (EndsInOneSlash dir ↔ ¬ EndsInTwoSlashes text)

theorem isDirOf_normalizedDir (text : String) : IsDirOf (normalizedDir text) text where
  eq := rfl
  kept := normalizedDir_normalizedDir text
  form hne := by
    rcases isDir_normalizedDir text with hempty | ⟨hbare, hslashes, hlast⟩
    · exact absurd hempty hne
    · exact ⟨hbare, hslashes, hlast, endsInOneSlash_normalizedDir_iff hne⟩

/-- **Directories are in their normal form everywhere**: in all settings that are read from a text,
that come from variables and a working directory, or that were changed by a caller. -/
theorem directories_normalized {ts : DirectoryTexts} {s : Settings} (h : Made ts s) :
    List.Forall₂ IsDirOf s.directories ts.all := by
  rw [h.normalizes.directories_eq, List.forall₂_map_left_iff]
  exact List.forall₂_same.2 fun text _ ↦ isDirOf_normalizedDir text

/-- A file in which backslashes and blanks stand at the ends of directories, and a package root that
a caller added with two slashes at its end. -/
theorem directories_normalized_blanks :
    ∃ ts s, Made ts s ∧ ts.all = ["p", " q\\/ ", "", "m\\", "s t"] ∧
      s.directories = ["p/", "q//", "", "m/", "s t/"] ∧
      List.Forall₂ IsDirOf s.directories ts.all := by
  have hlines : propertyLines "ModuleDirectory m\\ \nPolScriptRoot s t\nPackageRoot p" =
      .ok [⟨moduleDirectoryKey, "m\\"⟩, ⟨scriptRootKey, "s t"⟩, ⟨packageRootKey, "p"⟩] := by
    decide +kernel
  have hread : (parse "ModuleDirectory m\\ \nPolScriptRoot s t\nPackageRoot p").isOk := by
    rw [parse_eq hlines]
    decide +kernel
  cases hs : parse "ModuleDirectory m\\ \nPolScriptRoot s t\nPackageRoot p" with
  | error e =>
    rw [hs] at hread
    cases hread
  | ok s =>
    have hmade := (Made.parse hlines hs).withPackageRoot " q\\/ "
    refine ⟨_, _, hmade, by decide +kernel, ?_, directories_normalized hmade⟩
    rw [hmade.normalizes.directories_eq]
    decide +kernel

/-- A directory may end in two slashes. -/
theorem directory_doubled :
    ∃ s, parse "ModuleDirectory m//\nPolScriptRoot s\n" = .ok s ∧ s.moduleDirectory = "m//" ∧
      ¬ EndsInOneSlash s.moduleDirectory := by
  have hread : (parse "ModuleDirectory m//\nPolScriptRoot s\n").toOption.map moduleDirectory =
      some "m//" := by
    decide +kernel
  cases hs : parse "ModuleDirectory m//\nPolScriptRoot s\n" with
  | error e =>
    rw [hs] at hread
    cases hread
  | ok s =>
    rw [hs] at hread
    have hdir : s.moduleDirectory = "m//" := Option.some.inj hread
    have htwo : s.moduleDirectory.toList = ['m', '/'] ++ ['/'] := by rw [hdir]; rfl
    exact ⟨s, rfl, hdir, fun hone ↦ (endsInOneSlash_iff htwo).1 hone rfl⟩

end Settings
end ScriptHeap
