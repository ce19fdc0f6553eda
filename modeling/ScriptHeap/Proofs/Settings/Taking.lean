import ScriptHeap.Proofs.Settings.RoundTrip

/-!
# Properties taken out one by one

Settings are looked up in all properties of a file.  They may as well be taken out of the properties
one after the other, the first line of a directory or a switch and all lines of the package roots,
so that what is left gets fewer: names of settings are told apart, so nothing that is taken out is
looked for again.

## What is here

* `requiredDir_eq`, `switch_eq` — a directory and a switch depend on a first value.
* `Taking` — a reading that takes out what it reads; `Taking.Takes` says what one does.
* `Taking.settings_eq`, the payoff: taking properties out makes no difference.
-/

set_option autoImplicit false
namespace ScriptHeap

variable {ps qs : List PropertyLine}

/-! ## The values of a property -/

theorem valuesOf_cons (p : PropertyLine) (ps : List PropertyLine) (key : String) :
    valuesOf (p :: ps) key =
      if Text.sameName p.key key = true then p.value :: valuesOf ps key else valuesOf ps key := by
  cases hp : Text.sameName p.key key <;> simp [valuesOf, hp]

theorem valuesOf_ne_nil {p : PropertyLine} {key : String} (hp : p ∈ ps)
    (hkey : Text.sameName p.key key = true) : valuesOf ps key ≠ [] :=
  List.ne_nil_of_mem (List.mem_map.2 ⟨p, List.mem_filter.2 ⟨hp, hkey⟩, rfl⟩)

theorem requiredDir_eq (ps : List PropertyLine) (key : String) :
    requiredDir ps key =
      match (valuesOf ps key).head? with
      | some value => .ok (normalizedDir value)
      | none => .error (.missing key) := by
  rw [requiredDir]
  cases valuesOf ps key <;> rfl

theorem switch_eq (ps : List PropertyLine) (f : Flag) (byDefault : Bool) :
    switch ps f byDefault =
      match (valuesOf ps f.name).head? with
      | none => .ok byDefault
      | some value =>
        match switchOf? value with
        | some on => .ok on
        | none => .error (.notASwitch f.name value) := by
  rw [switch]
  cases valuesOf ps f.name <;> rfl

/-! ## Properties taken out one after the other -/

/-- A reading of properties that takes out what it reads and leaves the others. -/
abbrev Taking (α : Type) := StateT (List PropertyLine) (Except SettingsError) α

namespace Taking

/-- Takes out the first line of a property. -/
def first? (key : String) : Taking (Option String) := do
  let ps ← get
  match ps.findIdx? fun p ↦ Text.sameName p.key key with
  | some place =>
    set (ps.eraseIdx place)
    return (ps[place]?).map (·.value)
  | none => return none

/-- Takes out all lines of a property. -/
def all (key : String) : Taking (List String) :=
  modifyGet fun ps ↦
    let (taken, kept) := ps.partition fun p ↦ Text.sameName p.key key
    (taken.map (·.value), kept)

/-- Takes out a directory that must be there. -/
def directory (key : String) : Taking String := do
  match ← first? key with
  | some value => return normalizedDir value
  | none => throw (.missing key)

/-- Takes out a switch; without a line for it, it stays at its default. -/
def switch (f : Flag) (byDefault : Bool) : Taking Bool := do
  match ← first? f.name with
  | none => return byDefault
  | some value =>
    match switchOf? value with
    | some on => return on
    | none => throw (.notASwitch f.name value)

/-- Takes out the properties one after the other.  The switch that gives another one its default is
taken out before the others. -/
def settings : Taking Settings := do
  let packageRoots ← all packageRootKey
  let includeDirectory ← first? includeDirectoryKey
  let moduleDirectory ← directory moduleDirectoryKey
  let scriptRoot ← directory scriptRootKey
  let onlyUpdated ← switch .onlyCompileUpdatedScripts Flag.onlyCompileUpdatedScripts.byDefault
  let switches ← (Flag.all.filter (· ≠ .onlyCompileUpdatedScripts)).mapM fun f ↦ do
    return (f, ← switch f (if f = .generateDependencyInfo then onlyUpdated else f.byDefault))
  return {
    packageRoots := packageRoots.map normalizedDir
    includeDirectory := (includeDirectory.map normalizedDir).getD ""
    moduleDirectory := moduleDirectory
    scriptRoot := scriptRoot
    isOn := fun f ↦
      (((.onlyCompileUpdatedScripts, onlyUpdated) :: switches).lookup f).getD f.byDefault }

/-- What is left of properties has all values of certain properties still. -/
def Keeps (ps left : List PropertyLine) (keys : List String) : Prop :=
  ∀ key ∈ keys, valuesOf left key = valuesOf ps key

/-- A reading gives what the values of one property say, and leaves those of all others. -/
def Takes {α : Type} (act : Taking α) (key : String) (f : List String → Except SettingsError α) :
    Prop :=
  ∀ ps, ∃ left, act ps = (f (valuesOf ps key)).map (·, left) ∧
    ∀ other, Text.sameName key other = false → valuesOf left other = valuesOf ps other

theorem takes_all (key : String) : Takes (all key) key .ok := by
  intro ps
  refine ⟨ps.filter fun p ↦ !Text.sameName p.key key, ?_, fun other hother ↦ ?_⟩
  · simp [all, modifyGet, MonadStateOf.modifyGet, StateT.modifyGet, List.partition_eq_filter_filter,
      Function.comp_def, valuesOf, Except.map, pure, Except.pure]
  · rw [valuesOf, valuesOf, List.filter_filter]
    refine congrArg _ (List.filter_congr fun p _ ↦ ?_)
    cases hp : Text.sameName p.key key with
    | false => simp
    | true => rw [Text.sameName_congr hp, hother, Bool.false_and]

/-- The first line of a property is found and taken out. -/
theorem findIdx?_eq_some {key : String} {place : Nat}
    (h : ps.findIdx? (fun p ↦ Text.sameName p.key key) = some place) :
    (ps[place]?).map (·.value) = (valuesOf ps key).head? ∧
      ∀ other, Text.sameName key other = false →
        valuesOf (ps.eraseIdx place) other = valuesOf ps other := by
  induction ps generalizing place with
  | nil => cases h
  | cons p ps ih =>
    rw [List.findIdx?_cons] at h
    rw [valuesOf_cons]
    cases hp : Text.sameName p.key key with
    | true =>
      rw [hp] at h
      cases h
      refine ⟨rfl, fun other hother ↦ ?_⟩
      rw [List.eraseIdx_cons_zero, valuesOf_cons, Text.sameName_congr hp, hother]
      rfl
    | false =>
      rw [hp] at h
      obtain ⟨n, hn, rfl⟩ := Option.map_eq_some_iff.1 h
      obtain ⟨hvalue, hothers⟩ := ih hn
      refine ⟨hvalue, fun other hother ↦ ?_⟩
      rw [List.eraseIdx_cons_succ, valuesOf_cons, valuesOf_cons, hothers other hother]

theorem valuesOf_eq_nil {key : String}
    (h : ps.findIdx? (fun p ↦ Text.sameName p.key key) = none) : valuesOf ps key = [] := by
  rw [List.findIdx?_eq_none_iff] at h
  rw [valuesOf, List.filter_eq_nil_iff.2 fun p hp ↦ by simp [h p hp], List.map_nil]

theorem bind_of_ok {α β : Type} {act : Taking α} {f : α → Taking β} {a : α}
    (hact : act ps = .ok (a, qs)) : (act >>= f) ps = f a qs := by
  show (act ps >>= fun x ↦ f x.1 x.2) = _
  rw [hact]
  rfl

theorem bind_of_error {α β : Type} {act : Taking α} {f : α → Taking β} {e : SettingsError}
    (hact : act ps = .error e) : (act >>= f) ps = .error e := by
  show (act ps >>= fun x ↦ f x.1 x.2) = _
  rw [hact]
  rfl

theorem takes_first? (key : String) : Takes (first? key) key fun values ↦ .ok values.head? := by
  intro ps
  have hget : (get : Taking (List PropertyLine)) ps = .ok (ps, ps) := rfl
  cases hfind : ps.findIdx? fun p ↦ Text.sameName p.key key with
  | none =>
    refine ⟨ps, ?_, fun _ _ ↦ rfl⟩
    rw [valuesOf_eq_nil hfind, first?, bind_of_ok hget, hfind]
    rfl
  | some place =>
    obtain ⟨hvalue, hothers⟩ := findIdx?_eq_some hfind
    refine ⟨ps.eraseIdx place, ?_, hothers⟩
    rw [first?, bind_of_ok hget, hfind]
    exact congrArg (fun value ↦ Except.ok (value, ps.eraseIdx place)) hvalue

theorem takes_directory (key : String) :
    Takes (directory key) key fun values ↦
      match values.head? with
      | some value => .ok (normalizedDir value)
      | none => .error (.missing key) := by
  intro ps
  obtain ⟨left, hfirst, hothers⟩ := takes_first? key ps
  refine ⟨left, ?_, hothers⟩
  rw [directory, bind_of_ok hfirst]
  dsimp only
  cases (valuesOf ps key).head? <;> rfl

theorem takes_switch (f : Flag) (byDefault : Bool) :
    Takes (switch f byDefault) f.name fun values ↦
      match values.head? with
      | none => .ok byDefault
      | some value =>
        match switchOf? value with
        | some on => .ok on
        | none => .error (.notASwitch f.name value) := by
  intro ps
  obtain ⟨left, hfirst, hothers⟩ := takes_first? f.name ps
  refine ⟨left, ?_, hothers⟩
  rw [switch, bind_of_ok hfirst]
  dsimp only
  cases (valuesOf ps f.name).head? with
  | none => rfl
  | some value =>
    dsimp only
    cases switchOf? value <;> rfl

/-! ### One after the other -/

/-- Names of properties that are told apart. -/
def Apart (key : String) (others : List String) : Prop :=
  ∀ other ∈ others, Text.sameName key other = false

instance (key : String) (others : List String) : Decidable (Apart key others) :=
  inferInstanceAs (Decidable (∀ _ ∈ _, _))

/-- **One taking after another.**  What is taken out first leaves the values of other properties, so
the rest goes on as with all properties there. -/
theorem Takes.bind {α β : Type} {act : Taking α} {key : String} {others : List String}
    {f : List String → Except SettingsError α} {next : α → Taking β}
    {look : α → Except SettingsError β} (h : Takes act key f) (hleft : Keeps ps qs (key :: others))
    (hapart : Apart key others)
    (hnext : ∀ a left, f (valuesOf ps key) = .ok a → Keeps ps left others →
      (next a left).map (·.1) = look a) :
    ((act >>= next) qs).map (·.1) = f (valuesOf ps key) >>= look := by
  obtain ⟨left, hact, hothers⟩ := h qs
  rw [hleft key List.mem_cons_self] at hact
  cases hf : f (valuesOf ps key) with
  | error e =>
    rw [hf] at hact
    rw [bind_of_error hact]
    rfl
  | ok a =>
    rw [hf] at hact
    rw [bind_of_ok hact]
    refine hnext a left hf fun other hother ↦ ?_
    rw [hothers other (hapart other hother), hleft other (List.mem_cons_of_mem _ hother)]

/-- The switches, one after the other. -/
theorem mapM_switch {byDefault : Flag → Bool} {fs : List Flag}
    (hleft : Keeps ps qs (fs.map Flag.name))
    (hapart : fs.Pairwise fun f g ↦ Text.sameName f.name g.name = false) :
    ((fs.mapM fun f ↦ do return (f, ← switch f (byDefault f)) : Taking (List (Flag × Bool))) qs).map
        (·.1) =
      fs.mapM fun f ↦ do return (f, ← ScriptHeap.switch ps f (byDefault f)) := by
  induction fs generalizing qs with
  | nil => rfl
  | cons f fs ih =>
    obtain ⟨hfirst, hrest⟩ := List.pairwise_cons.1 hapart
    rw [List.mapM_cons, List.mapM_cons, switch_eq, bind_assoc, bind_assoc]
    refine (takes_switch f (byDefault f)).bind hleft (fun other hother ↦ ?_)
      fun on left _ hkeeps ↦ ?_
    · obtain ⟨g, hg, rfl⟩ := List.mem_map.1 hother
      exact hfirst g hg
    · rw [pure_bind, pure_bind, ← ih hkeeps hrest]
      cases hall : (fs.mapM fun f ↦ do return (f, ← switch f (byDefault f)) :
          Taking (List (Flag × Bool))) left with
      | error e =>
        rw [bind_of_error hall]
        rfl
      | ok x =>
        rw [bind_of_ok hall]
        rfl

/-- The settings that properties stand for, looked up in the order in which they are taken out. -/
theorem ofProperties_eq (ps : List PropertyLine) :
    Settings.ofProperties ps = (do
      let packageRoots ← Except.ok (valuesOf ps packageRootKey)
      let includeDirectory ← Except.ok (valuesOf ps includeDirectoryKey).head?
      let moduleDirectory ← requiredDir ps moduleDirectoryKey
      let scriptRoot ← requiredDir ps scriptRootKey
      let onlyUpdated ←
        ScriptHeap.switch ps .onlyCompileUpdatedScripts Flag.onlyCompileUpdatedScripts.byDefault
      let switches ← (Flag.all.filter (· ≠ .onlyCompileUpdatedScripts)).mapM fun f ↦ do
        let byDefault := if f = .generateDependencyInfo then onlyUpdated else f.byDefault
        return (f, ← ScriptHeap.switch ps f byDefault)
      return {
        packageRoots := packageRoots.map normalizedDir
        includeDirectory := (includeDirectory.map normalizedDir).getD ""
        moduleDirectory := moduleDirectory
        scriptRoot := scriptRoot
        isOn := fun f ↦
          (((.onlyCompileUpdatedScripts, onlyUpdated) :: switches).lookup f).getD f.byDefault }) := by
  unfold Settings.ofProperties Settings.switchOrder
  refine bind_congr fun moduleDirectory ↦ bind_congr fun scriptRoot ↦ ?_
  cases hupdated : ScriptHeap.switch ps .onlyCompileUpdatedScripts
      Flag.onlyCompileUpdatedScripts.byDefault with
  | error e => rfl
  | ok onlyUpdated =>
    show (pure onlyUpdated >>= _) = (pure onlyUpdated >>= _)
    rw [pure_bind, pure_bind, List.mapM_cons, if_neg (by decide)]
    dsimp only
    rw [hupdated]
    simp only [bind, Except.bind, pure, Except.pure]
    generalize (List.mapM _ _ : Except SettingsError (List (Flag × Bool))) = switches
    cases switches <;> rfl

/-- **It makes no difference** that properties are taken out of a list one after the other. -/
theorem settings_eq (ps : List PropertyLine) :
    (settings ps).map (·.1) = Settings.ofProperties ps := by
  rw [ofProperties_eq, requiredDir_eq, requiredDir_eq, switch_eq]
  have hkeeps : Keeps ps ps (packageRootKey :: includeDirectoryKey :: moduleDirectoryKey ::
      scriptRootKey :: Flag.onlyCompileUpdatedScripts.name ::
        (Flag.all.filter (· ≠ .onlyCompileUpdatedScripts)).map Flag.name) := fun _ _ ↦ rfl
  refine (takes_all packageRootKey).bind hkeeps (by decide +kernel) fun roots left _ hkeeps ↦ ?_
  refine (takes_first? includeDirectoryKey).bind hkeeps (by decide +kernel)
    fun includeDir left _ hkeeps ↦ ?_
  refine (takes_directory moduleDirectoryKey).bind hkeeps (by decide +kernel)
    fun moduleDir left _ hkeeps ↦ ?_
  refine (takes_directory scriptRootKey).bind hkeeps (by decide +kernel)
    fun scriptRoot left _ hkeeps ↦ ?_
  refine (takes_switch .onlyCompileUpdatedScripts _).bind hkeeps (by decide +kernel)
    fun onlyUpdated left _ hkeeps ↦ ?_
  rw [← mapM_switch hkeeps (by decide +kernel)]
  generalize (List.mapM _ _ : Taking (List (Flag × Bool))) = act
  cases hact : act left with
  | error e =>
    rw [bind_of_error hact]
    rfl
  | ok x =>
    rw [bind_of_ok hact]
    rfl

end Taking

end ScriptHeap
