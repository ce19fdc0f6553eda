import ScriptHeap.Packed.Writing

/-!
# Data as trees

A datum has elements, which are data again.  What holds of a datum together with everything inside
it is said here once, for all the properties that the other modules need.

## What is here

* `Datum.elements`, `Datum.inductionOn` — the elements of a datum, and induction from elements to
  the datum itself.
* `Datum.Inside`, `Datum.Everywhere` — being a part, at any depth, and holding of all parts.
* `Datum.nesting` — how many containers are nested.
* `Datum.parts`, `Datum.innerParts` — how many elements there are, at all depths.
* `Datum.withoutHost` — the datum with no value in the place of host values.
* `Datum.HostFree`, `Datum.Named`, `Datum.Fits` — no host values, a name for each element of a
  struct, and no text or count too long to be written.
-/

set_option autoImplicit false
namespace ScriptHeap

variable {Obj : Type}

namespace Datum

/-! ## Elements -/

/-- The elements of a datum in order; those of a struct that no name stands for come last. -/
def elements : Datum Obj → List (Datum Obj)
  | .scalar _ => []
  | .array ds => ds
  | .struct ms ds => ms.map (·.2) ++ ds

@[simp] theorem elements_scalar (s : Scalar Obj) : (scalar s).elements = [] :=
  rfl

@[simp] theorem elements_array (ds : List (Datum Obj)) : (array ds).elements = ds :=
  rfl

@[simp] theorem elements_struct (ms : List (String × Datum Obj)) (ds : List (Datum Obj)) :
    (struct ms ds).elements = ms.map (·.2) ++ ds :=
  rfl

/-- **Induction over data**: from the elements to the datum. -/
theorem inductionOn {P : Datum Obj → Prop} (h : ∀ d : Datum Obj, (∀ e ∈ d.elements, P e) → P d)
    (d : Datum Obj) : P d := by
  refine @Datum.rec Obj P (fun ds ↦ ∀ e ∈ ds, P e) (fun ms ↦ ∀ e ∈ ms.map (·.2), P e)
    (fun m ↦ P m.2) ?_ ?_ ?_ ?_ ?_ ?_ ?_ ?_ d
  · exact fun s ↦ h _ (by simp)
  · exact fun ds ih ↦ h _ ih
  · refine fun ms ds ihm ihd ↦ h _ fun e he ↦ ?_
    rcases List.mem_append.1 he with he | he
    · exact ihm e he
    · exact ihd e he
  · simp
  · exact fun d ds hd ih ↦ List.forall_mem_cons.2 ⟨hd, ih⟩
  · simp
  · exact fun m ms hm ih ↦ List.forall_mem_cons.2 ⟨hm, ih⟩
  · exact fun _ _ hd ↦ hd

/-! ## Parts -/

/-- The first datum is the second, or stands inside it at any depth. -/
inductive Inside : Datum Obj → Datum Obj → Prop where
  | here (d : Datum Obj) : Inside d d
  | element {c d e : Datum Obj} : e ∈ d.elements → Inside c e → Inside c d

/-- A property holds of a datum and of everything inside it. -/
def Everywhere (p : Datum Obj → Prop) (d : Datum Obj) : Prop :=
  ∀ e, Inside e d → p e

theorem everywhere_iff {p : Datum Obj → Prop} {d : Datum Obj} :
    Everywhere p d ↔ p d ∧ ∀ e ∈ d.elements, Everywhere p e := by
  constructor
  · exact fun h ↦ ⟨h d (.here d), fun e he c hc ↦ h c (.element he hc)⟩
  · rintro ⟨hd, hes⟩ c hc
    cases hc with
    | here => exact hd
    | element he hc => exact hes _ he c hc

/-! ## Nesting -/

mutual

/-- How many containers are nested: none in a scalar, one in a container of scalars. -/
def nesting : Datum Obj → Nat
  | .scalar _ => 0
  | .array ds => nestingOfAll ds + 1
  | .struct ms ds => max (nestingOfMembers ms) (nestingOfAll ds) + 1
termination_by structural d => d

/-- The deepest nesting among elements. -/
def nestingOfAll : List (Datum Obj) → Nat
  | [] => 0
  | d :: ds => max d.nesting (nestingOfAll ds)
termination_by structural ds => ds

/-- The deepest nesting among members. -/
def nestingOfMembers : List (String × Datum Obj) → Nat
  | [] => 0
  | (_, d) :: ms => max d.nesting (nestingOfMembers ms)
termination_by structural ms => ms

end

theorem nestingOfAll_le_iff {ds : List (Datum Obj)} {n : Nat} :
    nestingOfAll ds ≤ n ↔ ∀ e ∈ ds, e.nesting ≤ n := by
  induction ds with
  | nil => simp [nestingOfAll]
  | cons d ds ih => rw [nestingOfAll, Nat.max_le, ih, List.forall_mem_cons]

theorem nestingOfMembers_eq (ms : List (String × Datum Obj)) :
    nestingOfMembers ms = nestingOfAll (ms.map (·.2)) := by
  induction ms with
  | nil => rfl
  | cons m ms ih => rw [nestingOfMembers, List.map_cons, nestingOfAll, ih]

/-- Whether a datum is a container. -/
def isContainer : Datum Obj → Bool
  | .scalar _ => false
  | .array _ | .struct _ _ => true

theorem nesting_le_succ_iff {d : Datum Obj} {n : Nat} :
    d.nesting ≤ n + 1 ↔ ∀ e ∈ d.elements, e.nesting ≤ n := by
  cases d with
  | scalar s => simp [nesting]
  | array ds => rw [nesting, Nat.add_le_add_iff_right, nestingOfAll_le_iff, elements_array]
  | struct ms ds =>
    rw [nesting, Nat.add_le_add_iff_right, Nat.max_le, nestingOfMembers_eq, nestingOfAll_le_iff,
      nestingOfAll_le_iff, elements_struct, List.forall_mem_append]

theorem succ_lt_nesting_iff {d : Datum Obj} {n : Nat} :
    n + 1 < d.nesting ↔ ∃ e ∈ d.elements, n < e.nesting := by
  rw [← Nat.not_le, nesting_le_succ_iff]
  simp

theorem nesting_pos_iff {d : Datum Obj} : 0 < d.nesting ↔ d.isContainer = true := by
  cases d with
  | scalar s => simp [nesting, isContainer]
  | array ds => simp [nesting, isContainer]
  | struct ms ds => simp [nesting, isContainer]

/-! ## Counting -/

mutual

/-- How many elements a datum has, at all depths. -/
def parts : Datum Obj → Nat
  | .scalar _ => 0
  | .array ds => partsOfAll ds
  | .struct ms ds => partsOfMembers ms + partsOfAll ds
termination_by structural d => d

/-- How many elements there are in a list, the elements of these among them. -/
def partsOfAll : List (Datum Obj) → Nat
  | [] => 0
  | d :: ds => d.parts + 1 + partsOfAll ds
termination_by structural ds => ds

/-- How many elements there are in the members of a struct, the members themselves among them. -/
def partsOfMembers : List (String × Datum Obj) → Nat
  | [] => 0
  | (_, d) :: ms => d.parts + 1 + partsOfMembers ms
termination_by structural ms => ms

end

theorem partsOfMembers_eq (ms : List (String × Datum Obj)) :
    partsOfMembers ms = partsOfAll (ms.map (·.2)) := by
  induction ms with
  | nil => rfl
  | cons m ms ih => rw [partsOfMembers, List.map_cons, partsOfAll, ih]

/-- The elements of several data, without these themselves. -/
def innerParts : List (Datum Obj) → Nat
  | [] => 0
  | d :: ds => d.parts + innerParts ds

theorem partsOfAll_eq (ds : List (Datum Obj)) : partsOfAll ds = innerParts ds + ds.length := by
  induction ds with
  | nil => rfl
  | cons d ds ih =>
    rw [partsOfAll, ih, innerParts, List.length_cons]
    omega

theorem innerParts_append (ds es : List (Datum Obj)) :
    innerParts (ds ++ es) = innerParts ds + innerParts es := by
  induction ds with
  | nil => rw [List.nil_append, innerParts, Nat.zero_add]
  | cons d ds ih => rw [List.cons_append, innerParts, ih, innerParts, Nat.add_assoc]

theorem innerParts_reverse (ds : List (Datum Obj)) : innerParts ds.reverse = innerParts ds := by
  induction ds with
  | nil => rfl
  | cons d ds ih =>
    rw [List.reverse_cons, innerParts_append, ih, innerParts, innerParts, innerParts]
    omega

theorem partsOfAll_reverse (ds : List (Datum Obj)) : partsOfAll ds.reverse = partsOfAll ds := by
  rw [partsOfAll_eq, partsOfAll_eq, innerParts_reverse, List.length_reverse]

/-- A struct has no more elements than were read for it. -/
theorem parts_zip_le (names : List String) (ds : List (Datum Obj)) :
    (struct (names.zip ds) []).parts ≤ partsOfAll ds := by
  rw [parts, partsOfAll, Nat.add_zero, partsOfMembers_eq]
  induction names generalizing ds with
  | nil => exact Nat.zero_le _
  | cons name names ih =>
    cases ds with
    | nil => exact Nat.le_refl _
    | cons d ds => exact Nat.add_le_add_left (ih ds) _

/-! ## Host values -/

end Datum

/-- Whether this is a value of the host's. -/
def Scalar.isHost : Scalar Obj → Bool
  | .pointer _ | .object _ => true
  | _ => false

/-- The scalar itself, or no value in the place of a host value. -/
def Scalar.withoutHost (s : Scalar Obj) : Scalar Obj :=
  if s.isHost then .uninit else s

namespace Datum

mutual

/-- The datum with no value in the place of each host value. -/
def withoutHost : Datum Obj → Datum Obj
  | .scalar s => .scalar s.withoutHost
  | .array ds => .array (withoutHostAll ds)
  | .struct ms ds => .struct (withoutHostMembers ms) (withoutHostAll ds)
termination_by structural d => d

/-- Elements with no value in the place of each host value. -/
def withoutHostAll : List (Datum Obj) → List (Datum Obj)
  | [] => []
  | d :: ds => d.withoutHost :: withoutHostAll ds
termination_by structural ds => ds

/-- Members with no value in the place of each host value. -/
def withoutHostMembers : List (String × Datum Obj) → List (String × Datum Obj)
  | [] => []
  | (name, d) :: ms => (name, d.withoutHost) :: withoutHostMembers ms
termination_by structural ms => ms

end

theorem withoutHostAll_eq_map (ds : List (Datum Obj)) :
    withoutHostAll ds = ds.map withoutHost := by
  induction ds with
  | nil => rfl
  | cons d ds ih => rw [withoutHostAll, ih, List.map_cons]

theorem withoutHostMembers_eq_map (ms : List (String × Datum Obj)) :
    withoutHostMembers ms = ms.map fun m ↦ (m.1, m.2.withoutHost) := by
  induction ms with
  | nil => rfl
  | cons m ms ih => rw [withoutHostMembers, ih, List.map_cons]

/-- No value of the host's stands anywhere in the datum. -/
def HostFree (d : Datum Obj) : Prop :=
  ∀ s, Inside (.scalar s) d → s.isHost = false

/-- Every struct in the datum has as many names as elements. -/
def Named (d : Datum Obj) : Prop :=
  ∀ ms ds, Inside (.struct ms ds) d → ds = []

theorem hostFree_iff {d : Datum Obj} :
    d.HostFree ↔ (∀ s, d = .scalar s → s.isHost = false) ∧ ∀ e ∈ d.elements, e.HostFree := by
  constructor
  · exact fun h ↦ ⟨fun s hs ↦ h s (hs ▸ .here d), fun e he s hs ↦ h s (.element he hs)⟩
  · rintro ⟨hd, hes⟩ s hs
    cases hs with
    | here => exact hd s rfl
    | element he hs => exact hes _ he s hs

theorem named_iff {d : Datum Obj} :
    d.Named ↔ (∀ ms ds, d = .struct ms ds → ds = []) ∧ ∀ e ∈ d.elements, e.Named := by
  constructor
  · exact fun h ↦ ⟨fun ms ds hs ↦ h ms ds (hs ▸ .here d), fun e he ms ds hs ↦
      h ms ds (.element he hs)⟩
  · rintro ⟨hd, hes⟩ ms ds hs
    cases hs with
    | here => exact hd ms ds rfl
    | element he hs => exact hes _ he ms ds hs

theorem elements_withoutHost (d : Datum Obj) :
    d.withoutHost.elements = d.elements.map withoutHost := by
  cases d with
  | scalar s => rfl
  | array ds => rw [withoutHost, withoutHostAll_eq_map, elements_array, elements_array]
  | struct ms ds =>
    rw [withoutHost, withoutHostAll_eq_map, withoutHostMembers_eq_map, elements_struct,
      elements_struct, List.map_append, List.map_map, List.map_map]
    rfl

theorem hostFree_withoutHost (d : Datum Obj) : d.withoutHost.HostFree := by
  induction d using inductionOn with
  | h d ih =>
    refine hostFree_iff.2 ⟨fun s hs ↦ ?_, ?_⟩
    · cases d with
      | scalar t =>
        cases hs
        cases t <;> rfl
      | array ds => cases hs
      | struct ms ds => cases hs
    · rw [elements_withoutHost]
      exact List.forall_mem_map.2 ih

/-! ## Lengths that are written -/

/-- The texts that a datum has itself: that of a string or an error, the names of a struct. -/
def texts : Datum Obj → List String
  | .scalar (.string s) | .scalar (.error s) => [s]
  | .scalar _ | .array _ => []
  | .struct ms _ => ms.map (·.1)

/-- No text in the datum and no container is too long for its length to be written. -/
def Fits (d : Datum Obj) : Prop :=
  d.Everywhere fun e ↦ e.elements.length < Packed.lengthLimit ∧
    ∀ t ∈ e.texts, (Text.utf8 t).length < Packed.lengthLimit

theorem fits_iff {d : Datum Obj} :
    d.Fits ↔ (d.elements.length < Packed.lengthLimit ∧
      ∀ t ∈ d.texts, (Text.utf8 t).length < Packed.lengthLimit) ∧ ∀ e ∈ d.elements, e.Fits :=
  everywhere_iff

theorem Fits.length_elements {d : Datum Obj} (h : d.Fits) :
    d.elements.length < Packed.lengthLimit :=
  (fits_iff.1 h).1.1

theorem Fits.length_text {d : Datum Obj} (h : d.Fits) {t : String} (ht : t ∈ d.texts) :
    (Text.utf8 t).length < Packed.lengthLimit :=
  (fits_iff.1 h).1.2 t ht

end Datum
end ScriptHeap
