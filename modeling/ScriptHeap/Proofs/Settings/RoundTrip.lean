import Mathlib
import ScriptHeap.Settings.Reading
import ScriptHeap.Settings.Writing

/-!
# Settings read back as they were written

Settings are written as one line for each value and read back by cutting lines, trimming them and
splitting each at its first blank.  Directories may hold blanks, hashes, braces and slashes in their
middle; none of this matters behind a key, since a directory in its normal form has no blank at
either end and a line is cut at the blank behind the key first.

## What is here

* `Text.Bare`, `Text.trim_of_bare`, `Text.bare_trim` — texts without blanks at their ends are what
  trimming gives.
* `IsDir`, `normalizedDir_eq_self_iff` — the normal form of directories, which is kept.
* `Settings.properties`, `propertyLines_render` — the lines of the settings, and that they are read
  as they were written.
* `Settings.Renderable` — what settings need to be written: `Settings.renderable_of_parse` gives it
  for all settings that were read from a text.
* `Settings.parse_render`, the payoff: such settings are read back from their own text.
-/

set_option autoImplicit false
namespace ScriptHeap

namespace Text

/-! ## Blanks at the ends -/

/-- No blank stands at either end. -/
structure Bare (cs : List Char) : Prop where
  head : ∀ c ∈ cs.head?, isBlank c = false
  last : ∀ c ∈ cs.getLast?, isBlank c = false

theorem bare_singleton {c : Char} (h : isBlank c = false) : Bare [c] :=
  ⟨fun _ hd ↦ Option.some.inj hd ▸ h, fun _ hd ↦ Option.some.inj hd ▸ h⟩

theorem trim_of_bare {cs : List Char} (h : Bare cs) : trim cs = cs := by
  have hstart : cs.dropWhile isBlank = cs := by
    cases cs with
    | nil => rfl
    | cons c cs => rw [List.dropWhile_cons_of_neg (by simp [h.head c rfl])]
  rw [trim, hstart]
  refine List.rdropWhile_eq_self_iff.2 fun hne ↦ ?_
  simp [h.last _ (List.getLast_mem_getLast? hne)]

theorem head?_dropWhile_of_mem {cs : List Char} {c : Char}
    (h : c ∈ (cs.dropWhile isBlank).head?) : isBlank c = false := by
  have hhead := List.head?_dropWhile_not isBlank cs
  rw [Option.mem_def.1 h] at hhead
  exact hhead

theorem bare_trim (cs : List Char) : Bare (trim cs) := by
  refine ⟨fun c hc ↦ ?_, fun c hc ↦ ?_⟩
  · obtain ⟨rest, hrest⟩ := List.rdropWhile_prefix isBlank (cs.dropWhile isBlank)
    have hfirst : c ∈ (cs.dropWhile isBlank).head? := by
      rw [← hrest, List.head?_append, show (List.rdropWhile isBlank _).head? = some c from hc]
      rfl
    exact head?_dropWhile_of_mem hfirst
  · have hne : trim cs ≠ [] := List.ne_nil_of_mem (List.mem_of_mem_getLast? hc)
    have hlast := List.rdropWhile_last_not isBlank (cs.dropWhile isBlank) hne
    obtain rfl : (trim cs).getLast hne = c :=
      Option.some.inj ((List.getLast?_eq_some_getLast hne).symm.trans hc)
    exact Bool.eq_false_iff.2 hlast

theorem mem_of_mem_trim {cs : List Char} {c : Char} (h : c ∈ trim cs) : c ∈ cs :=
  (List.dropWhile_sublist _).mem ((List.rdropWhile_prefix isBlank _).mem h)

theorem isBlank_of_trim_eq_nil {cs : List Char} (h : trim cs = []) :
    ∀ c ∈ cs, isBlank c = true := by
  intro c hc
  rw [← List.takeWhile_append_dropWhile (p := isBlank) (l := cs), List.mem_append] at hc
  rcases hc with hc | hc
  · exact List.mem_takeWhile_imp hc
  · exact List.rdropWhile_eq_nil_iff.1 h c hc

/-- A word of visible characters, a blank and more: the blank is where the line is split. -/
theorem splitBlank?_append {word : List Char} (h : ∀ c ∈ word, isBlank c = false) {b : Char}
    (hb : isBlank b = true) (rest : List Char) :
    splitBlank? (word ++ b :: rest) = some (word, rest) := by
  induction word with
  | nil => exact if_pos hb
  | cons c word ih =>
    rw [List.cons_append, splitBlank?, h c List.mem_cons_self, if_neg Bool.false_ne_true,
      ih fun c hc ↦ h c (List.mem_cons_of_mem _ hc)]
    rfl

theorem eq_append_of_splitBlank? {cs word rest : List Char}
    (h : splitBlank? cs = some (word, rest)) : ∃ b, isBlank b = true ∧ cs = word ++ b :: rest := by
  induction cs generalizing word with
  | nil => cases h
  | cons c cs ih =>
    rw [splitBlank?] at h
    split at h
    · rename_i hc
      cases h
      exact ⟨c, hc, rfl⟩
    · obtain ⟨⟨word', rest'⟩, hsplit, heq⟩ := Option.map_eq_some_iff.1 h
      cases heq
      obtain ⟨b, hb, rfl⟩ := ih hsplit
      exact ⟨b, hb, rfl⟩

/-- Lines, each with its end, are cut into these lines and an empty one behind the last end. -/
theorem parts_flatMap {separator : Char} {lines : List (List Char)}
    (h : ∀ line ∈ lines, separator ∉ line) :
    parts separator (lines.flatMap (· ++ [separator])) = lines ++ [[]] := by
  induction lines with
  | nil => rfl
  | cons line lines ih =>
    rw [List.flatMap_cons, List.append_assoc, List.singleton_append,
      parts_append (h line List.mem_cons_self), ih fun l hl ↦ h l (List.mem_cons_of_mem _ hl)]
    rfl

end Text

/-! ## Directories in their normal form -/

/-- Nothing, or forward slashes with one at the end and no blank at either end. -/
def IsDir (dir : String) : Prop :=
  dir = "" ∨ Text.Bare dir.toList ∧ '\\' ∉ dir.toList ∧ dir.toList.getLast? = some '/'

theorem normalizedDir_eq_self {dir : String} (h : IsDir dir) : normalizedDir dir = dir := by
  rcases h with rfl | ⟨hbare, hslashes, hlast⟩
  · rfl
  · have hmap : (dir.toList.map fun c ↦ if c = '\\' then '/' else c) = dir.toList :=
      (List.map_congr_left fun c hc ↦ if_neg fun (he : c = '\\') ↦ hslashes (he ▸ hc)).trans
        (List.map_id' _)
    rw [normalizedDir, Text.trim_of_bare hbare, hmap, if_pos (.inr hlast), String.ofList_toList]

theorem isDir_normalizedDir (dir : String) : IsDir (normalizedDir dir) := by
  have hbare := Text.bare_trim dir.toList
  rw [normalizedDir]
  generalize Text.trim dir.toList = cs at hbare
  have hslashes : '\\' ∉ cs.map fun c ↦ if c = '\\' then '/' else c := by
    intro hmem
    obtain ⟨c, -, hc⟩ := List.mem_map.1 hmem
    split at hc
    · cases hc
    · contradiction
  have hhead (c : Char) (hc : c ∈ (cs.map fun c ↦ if c = '\\' then '/' else c).head?) :
      Text.isBlank c = false := by
    rw [List.head?_map, Option.mem_def, Option.map_eq_some_iff] at hc
    obtain ⟨b, hb, rfl⟩ := hc
    split
    · rfl
    · exact hbare.head b hb
  have hlast {ds : List Char} (h : ds.getLast? = some '/') (c : Char) (hc : c ∈ ds.getLast?) :
      Text.isBlank c = false := by
    rw [h] at hc
    cases hc
    rfl
  split
  · rename_i hkept
    rcases hkept with hnil | hslash
    · exact .inl (by rw [hnil])
    · exact .inr (by rw [String.toList_ofList]; exact ⟨⟨hhead, hlast hslash⟩, hslashes, hslash⟩)
  · rename_i hended
    have hslash := List.getLast?_concat (a := '/')
      (l := cs.map fun c ↦ if c = '\\' then '/' else c)
    refine .inr ?_
    rw [String.toList_ofList]
    refine ⟨⟨fun c hc ↦ hhead c ?_, hlast hslash⟩, fun hmem ↦ ?_, hslash⟩
    · rwa [List.head?_append_of_ne_nil _ (not_or.1 hended).1] at hc
    · exact hslashes ((List.mem_append.1 hmem).resolve_right (by decide))

/-- The normal form is kept, and only it is. -/
theorem normalizedDir_eq_self_iff {dir : String} : normalizedDir dir = dir ↔ IsDir dir :=
  ⟨fun h ↦ h ▸ isDir_normalizedDir dir, normalizedDir_eq_self⟩

theorem normalizedDir_normalizedDir (dir : String) :
    normalizedDir (normalizedDir dir) = normalizedDir dir :=
  normalizedDir_eq_self (isDir_normalizedDir dir)

theorem normalizedDir_ne_empty {dir : String} (h : Text.trim dir.toList ≠ []) :
    normalizedDir dir ≠ "" := by
  rw [normalizedDir, Ne, ← String.toList_inj]
  split
  · simpa using h
  · simp

theorem mem_normalizedDir {dir : String} {c : Char} (h : c ∈ (normalizedDir dir).toList) :
    c = '/' ∨ c ∈ dir.toList := by
  have hmapped (h : c ∈ (Text.trim dir.toList).map fun c ↦ if c = '\\' then '/' else c) :
      c = '/' ∨ c ∈ dir.toList := by
    obtain ⟨b, hb, rfl⟩ := List.mem_map.1 h
    split
    · exact .inl rfl
    · exact .inr (Text.mem_of_mem_trim hb)
  rw [normalizedDir, String.toList_ofList] at h
  split at h
  · exact hmapped h
  · rcases List.mem_append.1 h with h | h
    · exact hmapped h
    · exact .inl (List.mem_singleton.1 h)

/-! ## The lines of a text -/

namespace PropertyLine

/-- A property as it stands on a line. -/
def text (p : PropertyLine) : List Char :=
  p.key.toList ++ ' ' :: p.value.toList

/-- A value that ends where its line ends. -/
structure PlainValue (value : String) : Prop where
  nonempty : value ≠ ""
  bare : Text.Bare value.toList
  line : '\n' ∉ value.toList

/-- A key of letters only. -/
def IsKey (key : String) : Prop :=
  key ≠ "" ∧ ∀ c ∈ key.toList, c.isAlpha = true

instance (key : String) : Decidable (IsKey key) :=
  decidable_of_iff (key ≠ "" ∧ key.toList.all (·.isAlpha) = true)
    (and_congr_right fun _ ↦ List.all_eq_true)

theorem isBlank_of_isAlpha {c : Char} (h : c.isAlpha = true) : Text.isBlank c = false := by
  have hletter : 65 ≤ c.toNat ∧ c.toNat ≤ 90 ∨ 97 ≤ c.toNat ∧ c.toNat ≤ 122 := by
    simpa [Char.isAlpha, Char.isUpper, Char.isLower, UInt32.le_iff_toNat_le] using h
  simp [Text.isBlank]
  omega

theorem isSilent_cons_of_isAlpha {c : Char} (h : c.isAlpha = true) (cs : List Char) :
    isSilent (c :: cs) = false := by
  unfold isSilent
  split
  case h_1 heq => cases heq
  case h_6 => rfl
  all_goals
    rename_i heq
    cases heq
    cases h

theorem bare_text {p : PropertyLine} (hkey : IsKey p.key) (hvalue : PlainValue p.value) :
    Text.Bare p.text := by
  refine ⟨fun c hc ↦ ?_, fun c hc ↦ ?_⟩
  · have hne : p.key.toList ≠ [] := mt String.toList_eq_nil_iff.1 hkey.1
    rw [text, List.head?_append_of_ne_nil _ hne] at hc
    exact isBlank_of_isAlpha (hkey.2 c (List.mem_of_mem_head? hc))
  · have hne : p.value.toList ≠ [] := mt String.toList_eq_nil_iff.1 hvalue.nonempty
    rw [text, List.getLast?_append_of_ne_nil _ (List.cons_ne_nil _ _),
      List.getLast?_cons_of_ne_nil hne] at hc
    exact hvalue.bare.last c hc

/-- **A line with a key and a value** says what it says. -/
theorem propertiesFrom_text {p : PropertyLine} (hkey : IsKey p.key) (hvalue : PlainValue p.value)
    (n : Nat) (lines : List (List Char)) :
    propertiesFrom n (p.text :: lines) = (propertiesFrom (n + 1) lines).map (p :: ·) := by
  have hsilent : isSilent p.text = false := by
    obtain ⟨c, cs, hcs⟩ := List.exists_cons_of_ne_nil
      (mt String.toList_eq_nil_iff.1 hkey.1)
    rw [text, hcs, List.cons_append]
    exact isSilent_cons_of_isAlpha (hkey.2 c (hcs ▸ List.mem_cons_self)) _
  have hsplit : Text.splitBlank? p.text = some (p.key.toList, p.value.toList) :=
    Text.splitBlank?_append (fun c hc ↦ isBlank_of_isAlpha (hkey.2 c hc)) rfl _
  rw [propertiesFrom]
  simp only [Text.trim_of_bare (bare_text hkey hvalue), hsilent, Bool.false_eq_true, if_false,
    hsplit, Text.trim_of_bare hvalue.bare, String.ofList_toList]
  cases propertiesFrom (n + 1) lines <;> rfl

theorem propertiesFrom_texts {ps : List PropertyLine}
    (h : ∀ p ∈ ps, IsKey p.key ∧ PlainValue p.value) (n : Nat) :
    propertiesFrom n (ps.map text ++ [[]]) = .ok ps := by
  induction ps generalizing n with
  | nil => rfl
  | cons p ps ih =>
    obtain ⟨hkey, hvalue⟩ := h p List.mem_cons_self
    rw [List.map_cons, List.cons_append, propertiesFrom_text hkey hvalue,
      ih fun q hq ↦ h q (List.mem_cons_of_mem _ hq)]
    rfl

theorem line_not_mem_text {p : PropertyLine} (hkey : IsKey p.key) (hvalue : PlainValue p.value) :
    '\n' ∉ p.text := by
  intro hmem
  rcases List.mem_append.1 hmem with hmem | hmem
  · exact absurd (hkey.2 _ hmem) (by decide)
  · exact hvalue.line ((List.mem_cons.1 hmem).resolve_left (by decide))

/-- Properties written one to a line are read as they were. -/
theorem propertyLines_texts {ps : List PropertyLine} {file : String}
    (h : ∀ p ∈ ps, IsKey p.key ∧ PlainValue p.value)
    (hfile : file.toList = ps.flatMap fun p ↦ p.text ++ ['\n']) :
    propertyLines file = .ok ps := by
  have hlines : ∀ line ∈ ps.map text, '\n' ∉ line := by
    intro line hline
    obtain ⟨p, hp, rfl⟩ := List.mem_map.1 hline
    exact line_not_mem_text (h p hp).1 (h p hp).2
  have hcut := Text.parts_flatMap hlines
  rw [List.flatMap_map] at hcut
  rw [propertyLines, hfile, hcut, propertiesFrom_texts h]

end PropertyLine

namespace Settings

/-! ## What is written -/

/-- The lines of a property: one for each value that is not empty. -/
def linesOf (e : String × List String) : List PropertyLine :=
  (e.2.filter (· ≠ "")).map (⟨e.1, ·⟩)

/-- The lines of the settings. -/
def properties (s : Settings) : List PropertyLine :=
  s.entries.flatMap linesOf

theorem toList_flatMap_entryLine (key : String) (values : List String) :
    (values.map (entryLine key)).flatMap String.toList =
      (linesOf (key, values)).flatMap fun p ↦ p.text ++ ['\n'] := by
  induction values with
  | nil => rfl
  | cons value values ih =>
    rw [List.map_cons, List.flatMap_cons, ih, entryLine]
    by_cases hvalue : value = ""
    · simp [linesOf, hvalue]
    · simp [linesOf, hvalue, PropertyLine.text]

theorem toList_render (s : Settings) :
    s.render.toList = s.properties.flatMap fun p ↦ p.text ++ ['\n'] := by
  rw [render, properties, String.toList_join, List.flatMap_assoc, List.flatMap_assoc]
  exact List.flatMap_congr fun e _ ↦ toList_flatMap_entryLine e.1 e.2

/-- The names of the properties, in the order in which they are written. -/
def keys : List String :=
  standard.entries.map (·.1)

theorem map_fst_entries (s : Settings) : s.entries.map (·.1) = keys :=
  rfl

theorem forall_entries {s : Settings} {P : String × List String → Prop}
    (hflag : ∀ f, P (s.switchValues f)) (hinclude : P (includeDirectoryKey, [s.includeDirectory]))
    (hmodule : P (moduleDirectoryKey, [s.moduleDirectory]))
    (hpackages : P (packageRootKey, s.packageRoots)) (hroot : P (scriptRootKey, [s.scriptRoot])) :
    ∀ e ∈ s.entries, P e := by
  simp [entries, hflag, hinclude, hmodule, hpackages, hroot]

/-- **Properties are written in ascending order** of their names. -/
theorem pairwise_keys : keys.Pairwise (· < ·) := by
  decide +kernel

theorem isKey_keys : ∀ key ∈ keys, PropertyLine.IsKey key := by
  decide +kernel

theorem pairwise_sameName_keys : keys.Pairwise (Text.sameName · · = false) := by
  decide +kernel

/-- A directory that stays as it is on a line: in its normal form, without a line end. -/
structure FitsLine (dir : String) : Prop where
  normalized : normalizedDir dir = dir
  line : '\n' ∉ dir.toList

/-- Settings that can be written down: all directories fit a line, and those that must be there or
stand in a list are not empty. -/
structure Renderable (s : Settings) : Prop where
  packageRoots : ∀ dir ∈ s.packageRoots, dir ≠ "" ∧ FitsLine dir
  includeDirectory : FitsLine s.includeDirectory
  moduleDirectory : s.moduleDirectory ≠ "" ∧ FitsLine s.moduleDirectory
  scriptRoot : s.scriptRoot ≠ "" ∧ FitsLine s.scriptRoot

theorem FitsLine.plainValue {dir : String} (h : FitsLine dir) (hne : dir ≠ "") :
    PropertyLine.PlainValue dir := by
  refine ⟨hne, ?_, h.line⟩
  rcases normalizedDir_eq_self_iff.1 h.normalized with hempty | ⟨hbare, -, -⟩
  · exact absurd hempty hne
  · exact hbare

theorem plainValue_switchDigit (on : Bool) : PropertyLine.PlainValue (switchDigit on) := by
  cases on
  · exact ⟨by decide, Text.bare_singleton rfl, by decide⟩
  · exact ⟨by decide, Text.bare_singleton rfl, by decide⟩

variable {s : Settings}

theorem Renderable.plainValue (h : s.Renderable) :
    ∀ e ∈ s.entries, ∀ value ∈ e.2, value ≠ "" → PropertyLine.PlainValue value := by
  refine forall_entries (fun f value hvalue _ ↦ ?_) ?_ ?_ (fun dir hdir hne ↦ ?_) ?_
  · obtain rfl := List.mem_singleton.1 hvalue
    exact plainValue_switchDigit _
  · exact List.forall_mem_singleton.2 h.includeDirectory.plainValue
  · exact List.forall_mem_singleton.2 h.moduleDirectory.2.plainValue
  · exact (h.packageRoots dir hdir).2.plainValue hne
  · exact List.forall_mem_singleton.2 h.scriptRoot.2.plainValue

theorem Renderable.isKey_plainValue (h : s.Renderable) :
    ∀ p ∈ s.properties, PropertyLine.IsKey p.key ∧ PropertyLine.PlainValue p.value := by
  intro p hp
  obtain ⟨e, he, hp⟩ := List.mem_flatMap.1 hp
  obtain ⟨value, hvalue, rfl⟩ := List.mem_map.1 hp
  obtain ⟨hvalue, hne⟩ := List.mem_filter.1 hvalue
  refine ⟨isKey_keys e.1 ?_, h.plainValue e he value hvalue (of_decide_eq_true hne)⟩
  exact s.map_fst_entries ▸ List.mem_map_of_mem he

/-- **The lines that were written are read.** -/
theorem Renderable.propertyLines_render (h : s.Renderable) :
    propertyLines s.render = .ok s.properties :=
  PropertyLine.propertyLines_texts h.isKey_plainValue s.toList_render

/-! ## What is read -/

theorem valuesOf_append (ps qs : List PropertyLine) (key : String) :
    valuesOf (ps ++ qs) key = valuesOf ps key ++ valuesOf qs key := by
  simp [valuesOf]

/-- The lines of a property hold values for its name only. -/
theorem valuesOf_linesOf (e : String × List String) (key : String) :
    valuesOf (linesOf e) key =
      if Text.sameName e.1 key = true then e.2.filter (· ≠ "") else [] := by
  cases hsame : Text.sameName e.1 key <;>
    simp [valuesOf, linesOf, List.filter_map, Function.comp_def, hsame]

/-- Of properties with different names each has its own values. -/
theorem valuesOf_flatMap_linesOf {es : List (String × List String)}
    (hapart : (es.map (·.1)).Pairwise (Text.sameName · · = false)) {e : String × List String}
    (he : e ∈ es) : valuesOf (es.flatMap linesOf) e.1 = e.2.filter (· ≠ "") := by
  have hnone {ds : List (String × List String)}
      (h : ∀ d ∈ ds, Text.sameName d.1 e.1 = false) : valuesOf (ds.flatMap linesOf) e.1 = [] := by
    induction ds with
    | nil => rfl
    | cons d ds ih =>
      rw [List.flatMap_cons, valuesOf_append, valuesOf_linesOf,
        if_neg (Bool.eq_false_iff.1 (h d List.mem_cons_self)),
        ih fun d hd ↦ h d (List.mem_cons_of_mem _ hd)]
      rfl
  induction es with
  | nil => cases he
  | cons d es ih =>
    rw [List.map_cons, List.pairwise_cons] at hapart
    rw [List.flatMap_cons, valuesOf_append, valuesOf_linesOf]
    rcases List.mem_cons.1 he with rfl | he
    · rw [if_pos (Text.sameName_refl _), hnone, List.append_nil]
      intro d hd
      rw [Text.sameName_comm]
      exact hapart.1 _ (List.mem_map_of_mem hd)
    · rw [if_neg (Bool.eq_false_iff.1 (hapart.1 _ (List.mem_map_of_mem he))), ih hapart.2 he]
      rfl

theorem valuesOf_properties {key : String} {values : List String}
    (h : (key, values) ∈ s.entries) : valuesOf s.properties key = values.filter (· ≠ "") :=
  valuesOf_flatMap_linesOf (s.map_fst_entries ▸ pairwise_sameName_keys) h

theorem requiredDir_properties {key dir : String} (h : (key, [dir]) ∈ s.entries) (hne : dir ≠ "")
    (hdir : FitsLine dir) : requiredDir s.properties key = .ok dir := by
  rw [requiredDir, valuesOf_properties h, List.filter_cons_of_pos (by simpa using hne)]
  exact congrArg Except.ok hdir.normalized

theorem switchValues_mem (s : Settings) (f : Flag) : s.switchValues f ∈ s.entries := by
  cases f <;> simp [entries]

theorem switch_properties (s : Settings) (f : Flag) (byDefault : Bool) :
    switch s.properties f byDefault = .ok (s.isOn f) := by
  rw [switch, valuesOf_properties (s.switchValues_mem f), switchDigit]
  cases s.isOn f <;> rfl

theorem mem_switchOrder (f : Flag) : f ∈ switchOrder := by
  cases f <;> decide

/-- **What was written is read back** from its lines. -/
theorem Renderable.ofProperties_properties (h : s.Renderable) :
    ofProperties s.properties = .ok s := by
  have hmodule : requiredDir s.properties moduleDirectoryKey = .ok s.moduleDirectory :=
    requiredDir_properties (by simp [entries]) h.moduleDirectory.1 h.moduleDirectory.2
  have hroot : requiredDir s.properties scriptRootKey = .ok s.scriptRoot :=
    requiredDir_properties (by simp [entries]) h.scriptRoot.1 h.scriptRoot.2
  have hpackages : (valuesOf s.properties packageRootKey).map normalizedDir = s.packageRoots := by
    have hmem : (packageRootKey, s.packageRoots) ∈ s.entries := by simp [entries]
    rw [valuesOf_properties hmem,
      List.filter_eq_self.2 fun dir hdir ↦ decide_eq_true (h.packageRoots dir hdir).1]
    exact (List.map_congr_left fun dir hdir ↦ (h.packageRoots dir hdir).2.normalized).trans
      (List.map_id' _)
  have hinclude : ((valuesOf s.properties includeDirectoryKey).head?.map normalizedDir).getD "" =
      s.includeDirectory := by
    have hmem : (includeDirectoryKey, [s.includeDirectory]) ∈ s.entries := by simp [entries]
    rw [valuesOf_properties hmem]
    by_cases hempty : s.includeDirectory = ""
    · simp [hempty]
    · simp [hempty, h.includeDirectory.normalized]
  have hswitches : (fun f : Flag ↦ ((switchOrder.map fun f ↦ (f, s.isOn f)).lookup f).getD
      f.byDefault) = s.isOn := by
    funext f
    rw [List.lookup_graph s.isOn (mem_switchOrder f)]
    rfl
  have hmap : (switchOrder.mapM fun f ↦ (do
      let on ← .ok (s.isOn f)
      return (f, on) : Except SettingsError (Flag × Bool))) =
      .ok (switchOrder.map fun f ↦ (f, s.isOn f)) :=
    List.mapM_pure
  rw [ofProperties, hmodule, hroot]
  simp only [switch_properties, hpackages, hinclude]
  rw [hmap]
  exact congrArg (fun isOn ↦ Except.ok { s with isOn := isOn }) hswitches

theorem Renderable.reads_back (h : s.Renderable) : parse s.render = .ok s := by
  rw [parse, h.propertyLines_render]
  exact h.ofProperties_properties

/-! ## What a text may give -/

/-- What stands behind the first blank of a line. -/
theorem plainValue_of_splitBlank? {raw key value : List Char} (hraw : '\n' ∉ raw)
    (h : Text.splitBlank? (Text.trim raw) = some (key, value)) :
    PropertyLine.PlainValue (String.ofList (Text.trim value)) := by
  obtain ⟨b, hb, hline⟩ := Text.eq_append_of_splitBlank? h
  have hlast := (Text.bare_trim raw).last
  rw [hline, List.getLast?_append_of_ne_nil _ (List.cons_ne_nil _ _)] at hlast
  have hne : value ≠ [] := by
    rintro rfl
    exact absurd hb (Bool.eq_false_iff.1 (hlast b rfl))
  rw [List.getLast?_cons_of_ne_nil hne, List.getLast?_eq_some_getLast hne] at hlast
  refine ⟨fun hempty ↦ ?_, ?_, fun hmem ↦ hraw ?_⟩
  · have hnil : Text.trim value = [] := by simpa using hempty
    exact absurd (Text.isBlank_of_trim_eq_nil hnil _ (List.getLast_mem hne))
      (Bool.eq_false_iff.1 (hlast _ rfl))
  · rw [String.toList_ofList]
    exact Text.bare_trim value
  · rw [String.toList_ofList] at hmem
    refine Text.mem_of_mem_trim (hline ▸ ?_)
    exact List.mem_append_right _ (List.mem_cons_of_mem _ (Text.mem_of_mem_trim hmem))

/-- The values of a text are not empty, have no blank at either end and no line end. -/
theorem plainValue_of_propertiesFrom {n : Nat} {lines : List (List Char)} {ps : List PropertyLine}
    (hlines : ∀ line ∈ lines, '\n' ∉ line) (h : propertiesFrom n lines = .ok ps) :
    ∀ p ∈ ps, PropertyLine.PlainValue p.value := by
  induction lines generalizing n ps with
  | nil =>
    cases h
    exact fun p hp ↦ nomatch hp
  | cons raw lines ih =>
    have hrest := fun l hl ↦ hlines l (List.mem_cons_of_mem _ hl)
    rw [propertiesFrom] at h
    split at h
    · exact ih hrest h
    · split at h
      · cases h
      · rename_i key value hsplit
        cases hnext : propertiesFrom (n + 1) lines with
        | error e =>
          rw [hnext] at h
          cases h
        | ok qs =>
          rw [hnext] at h
          obtain rfl : ⟨String.ofList key, String.ofList (Text.trim value)⟩ :: qs = ps :=
            Except.ok.inj h
          exact List.forall_mem_cons.2
            ⟨plainValue_of_splitBlank? (hlines raw List.mem_cons_self) hsplit, ih hrest hnext⟩

theorem exists_of_bind_eq_ok {α β : Type} {act : Except SettingsError α}
    {next : α → Except SettingsError β} {b : β} (h : act >>= next = .ok b) :
    ∃ a, act = .ok a ∧ next a = .ok b := by
  cases act with
  | error e => cases h
  | ok a => exact ⟨a, rfl, h⟩

theorem plainValue_of_propertyLines {text : String} {ps : List PropertyLine}
    (h : propertyLines text = .ok ps) : ∀ p ∈ ps, PropertyLine.PlainValue p.value :=
  plainValue_of_propertiesFrom (fun _ hline ↦ Text.not_mem_of_mem_parts hline) h

theorem fitsLine_normalizedDir {value : String} (h : PropertyLine.PlainValue value) :
    normalizedDir value ≠ "" ∧ FitsLine (normalizedDir value) := by
  refine ⟨normalizedDir_ne_empty ?_, normalizedDir_normalizedDir value, fun hmem ↦ ?_⟩
  · rw [Text.trim_of_bare h.bare]
    exact mt String.toList_eq_nil_iff.1 h.nonempty
  · exact h.line ((mem_normalizedDir hmem).resolve_left (by decide))

variable {ps : List PropertyLine}

theorem plainValue_of_mem_valuesOf (h : ∀ p ∈ ps, PropertyLine.PlainValue p.value)
    {key value : String} (hvalue : value ∈ valuesOf ps key) : PropertyLine.PlainValue value := by
  obtain ⟨p, hp, rfl⟩ := List.mem_map.1 hvalue
  exact h p (List.mem_filter.1 hp).1

theorem fitsLine_of_requiredDir (h : ∀ p ∈ ps, PropertyLine.PlainValue p.value)
    {key dir : String} (hdir : requiredDir ps key = .ok dir) : dir ≠ "" ∧ FitsLine dir := by
  rw [requiredDir] at hdir
  split at hdir
  · rename_i value rest hvalues
    cases hdir
    exact fitsLine_normalizedDir (plainValue_of_mem_valuesOf h (hvalues ▸ List.mem_cons_self))
  · cases hdir

theorem renderable_of_ofProperties (h : ∀ p ∈ ps, PropertyLine.PlainValue p.value)
    (hs : ofProperties ps = .ok s) : s.Renderable := by
  obtain ⟨moduleDirectory, hmodule, hs⟩ := exists_of_bind_eq_ok hs
  obtain ⟨scriptRoot, hroot, hs⟩ := exists_of_bind_eq_ok hs
  obtain ⟨onlyUpdated, -, hs⟩ := exists_of_bind_eq_ok hs
  obtain ⟨switches, -, hs⟩ := exists_of_bind_eq_ok hs
  cases hs
  refine ⟨fun dir hdir ↦ ?_, ?_, fitsLine_of_requiredDir h hmodule, fitsLine_of_requiredDir h hroot⟩
  · obtain ⟨value, hvalue, rfl⟩ := List.mem_map.1 hdir
    exact fitsLine_normalizedDir (plainValue_of_mem_valuesOf h hvalue)
  · cases hvalues : valuesOf ps includeDirectoryKey with
    | nil => exact ⟨rfl, List.not_mem_nil⟩
    | cons value rest =>
      exact (fitsLine_normalizedDir (plainValue_of_mem_valuesOf h (hvalues ▸ List.mem_cons_self))).2

/-- **Settings that were read can be written.** -/
theorem renderable_of_parse {text : String} (h : parse text = .ok s) : s.Renderable := by
  obtain ⟨ps, hlines, hs⟩ := exists_of_bind_eq_ok h
  exact renderable_of_ofProperties (plainValue_of_propertyLines hlines) hs

/-! ## The payoff -/

/-- The lines have their keys in ascending order; the key of a list comes again. -/
theorem pairwise_properties (s : Settings) : (s.properties.map (·.key)).Pairwise (· ≤ ·) := by
  have hkey {e : String × List String} {p : PropertyLine} (hp : p ∈ linesOf e) : p.key = e.1 := by
    obtain ⟨value, -, rfl⟩ := List.mem_map.1 hp
    rfl
  have hapart := pairwise_keys
  rw [← s.map_fst_entries, List.pairwise_map] at hapart
  rw [List.pairwise_map, properties, List.pairwise_flatMap]
  refine ⟨fun e _ ↦ List.pairwise_of_forall_mem_list fun p hp q hq ↦ ?_,
    hapart.imp fun hlt p hp q hq ↦ ?_⟩
  · exact ((hkey hp).trans (hkey hq).symm).le
  · rw [hkey hp, hkey hq]
    exact hlt.le

/-- **Settings are read back from their own text**, those that were read from some text as well as
those whose directories fit their lines, and are then written in the same way.  The text of any
settings is its properties, one to a line, in ascending order of their names. -/
theorem parse_render (s : Settings) :
    ((∃ text, parse text = .ok s) ∨ s.Renderable →
      parse s.render = .ok s ∧ (parse s.render).map render = .ok s.render) ∧
      s.render.toList = s.properties.flatMap (fun p ↦ p.text ++ ['\n']) ∧
      (s.properties.map (·.key)).Pairwise (· ≤ ·) := by
  refine ⟨fun h ↦ ?_, s.toList_render, s.pairwise_properties⟩
  have hback : parse s.render = .ok s := by
    rcases h with ⟨text, htext⟩ | h
    · exact (renderable_of_parse htext).reads_back
    · exact h.reads_back
  rw [hback]
  exact ⟨rfl, rfl⟩

/-- Directories may start like a comment or a brace and hold blanks and hashes. -/
theorem parse_render_comments :
    ∃ s, parse "\x7b\nmoduledirectory\ta b#\\c \n# d\nPolScriptRoot //e\nPackageRoot \x7d" = .ok s ∧
      (s.moduleDirectory, s.scriptRoot, s.packageRoots) = ("a b#/c/", "//e/", ["\x7d/"]) ∧
      parse s.render = .ok s := by
  have hread : (parse
      "\x7b\nmoduledirectory\ta b#\\c \n# d\nPolScriptRoot //e\nPackageRoot \x7d").toOption.map
        (fun s ↦ (s.moduleDirectory, s.scriptRoot, s.packageRoots)) =
      some ("a b#/c/", "//e/", ["\x7d/"]) := by
    decide +kernel
  cases h : parse "\x7b\nmoduledirectory\ta b#\\c \n# d\nPolScriptRoot //e\nPackageRoot \x7d" with
  | error e =>
    rw [h] at hread
    cases hread
  | ok s =>
    rw [h] at hread
    exact ⟨s, rfl, Option.some.inj hread, ((parse_render s).1 (.inl ⟨_, h⟩)).1⟩

end Settings

end ScriptHeap
