import ScriptHeap.Heap.Call
import ScriptHeap.Proofs.Heap.Planting
import ScriptHeap.Proofs.Heap.Structs

/-!
# Ways to look a member up

A member of a struct can be asked for in several ways.  All of them go by the place of its name
among the names of the struct, so they agree.

## What is here

* `Heap.Falters` — how a look-up may fail.
* `Heap.Sound.getMember?_finds`, `Heap.Sound.subscript_finds`, `Heap.Sound.keys_lists` — look-ups
  that give references, and the names.
* `Heap.dispatch_exists`, `Heap.contains_ne_zero_iff` — look-ups that give numbers.
* `Heap.Lookups` — all of them agree, which `Heap.Sound.lookups` shows.
-/

set_option autoImplicit false
namespace ScriptHeap

variable {Obj : Type}

/-- Whether a count of more than none is given as a number other than zero. -/
theorem countNumber_succ_ne_zero (n : Nat) : countNumber (n + 1) ≠ 0 := by
  rw [countNumber]
  split
  · rename_i hlt
    intro hzero
    have hvalue := congrArg Int32.toInt hzero
    rw [Int32.toInt_ofNat_of_lt hlt] at hvalue
    simp at hvalue
    omega
  · decide

namespace Heap

/-- How a look-up may fail: a pool has no block left, or cells hold each other in a circle and a
variable is read while it is made its own. -/
def Falters (h : Heap Obj) (f : Fault) : Prop :=
  (∃ pool capacity, f = .exhausted pool capacity) ∨ f = .busy ∧ h.Endless

variable [HostObject Obj] {h g : Heap Obj} {xs ys : List Hold} {i e : HandleId} {v : Value Obj}
  {l : ListId} {is : List HandleId} {names : List String} {name : String} {made : List HandleId}

theorem falters_of_faults {hs : h.Sound xs} {f : Fault}
    (hf : (Scene.ofWriter hs i).Faults made ys f g) : h.Falters f := by
  obtain ⟨-, hf⟩ := hf
  cases f with
  | exhausted pool capacity => exact .inl ⟨pool, capacity, rfl⟩
  | busy => exact .inr ⟨rfl, not_not.1 hf⟩
  | unnamedPlace place names => exact (hf trivial).elim
  | nullReference => exact hf.elim
  | dangling => exact hf.elim

omit [HostObject Obj] in
/-- An array of values without elements is written out as these. -/
theorem Bound.datum?_array {js : List HandleId} {ss : List (Scalar Obj)}
    (hb : g.Bound js (ss.map .scalar)) (hl : g.elements? l = some js) :
    g.datum? (.array l) = some (.array (ss.map .scalar)) := by
  have hall : (js.mapM fun i ↦ (g.valueOf? i).bind (datumWithin g.handles.next g)) =
      some (ss.map .scalar) := by
    clear hl
    induction ss generalizing js with
    | nil =>
      cases hb
      rfl
    | cons s ss ih =>
      rcases hb with _ | ⟨hj, hb⟩
      have hs : datumWithin g.handles.next g (.scalar s) = some (.scalar s) := by
        rw [datumWithin]
      simp [hj, hs, ih hb]
  rw [datum?, depth, datumWithin, hl]
  simp [hall]

/-- The methods of structs answer for a struct. -/
theorem dispatch_struct (hv : h.valueOf? i = some (.struct names l)) (m : Method)
    (args : List (Value Obj)) : Heap.dispatch i m args h = Heap.structMethod i m args h := by
  have hread : Heap.read i h = .ok (.struct names l) h := look_eq hv
  rw [Heap.dispatch]
  exact (bind_of_ok hread).trans (bind_of_ok hread)

/-- The methods of strings answer for a string. -/
theorem dispatch_string {s : String} (hv : h.valueOf? i = some (.string s)) (m : Method)
    (args : List (Value Obj)) : Heap.dispatch i m args h = .ok (stringMethod h s m args) h := by
  have hread : Heap.read i h = .ok (.string s) h := look_eq hv
  rw [Heap.dispatch]
  exact (bind_of_ok hread).trans (bind_of_ok hread)

section
variable (hs : h.Sound xs) (hi : .handle i ∈ xs) (hv : h.valueOf? i = some (.struct names l))
  (his : h.elements? l = some is) (hle : names.length ≤ is.length)
include hs hi hv his hle

/-- **A member is found** where its name is: the reference is one to an element of the struct.
Otherwise nothing is done. -/
theorem Sound.getMember?_finds (name : String) :
    Ends (Heap.getMember? i name) h
      (fun r g ↦ r.isSome = (memberIndex? names name).isSome ∧
        (∀ e, r = some e → ∃ place, g.ElementAt i place e) ∧ (r = none → g = h))
      fun f _ ↦ h.Falters f := by
  cases hplace : memberIndex? names name with
  | some place =>
    have hlt : place < is.length :=
      (List.findIdx?_eq_some_iff_getElem.1 hplace).1.trans_le hle
    have hsafe := (Scene.target_ofWriter hs hi).getMember? (Scene.at_ofWriter hs i)
      (Scene.calm_ofWriter hs i) name
    refine (hsafe.and (Scene.At.getMember?_listed hs hi hv his hplace hlt)).mono ?_
      fun f _ hf ↦ falters_of_faults hf.1
    rintro r g ⟨-, e, b, m, js, rfl, he, hl⟩
    refine ⟨rfl, ?_, fun hf ↦ by cases hf⟩
    rintro _ ⟨⟩
    exact ⟨place, m, js, hl.alone.owns.stores, hl.alone.elements, he⟩
  | none =>
    refine Ends.after (Heap.look_eq hv) ?_
    simp only [hplace]
    exact .pure ⟨rfl, fun _ hf ↦ (by cases hf), fun _ ↦ rfl⟩

/-- **The subscript gives an element** of the struct where the name is there, and an error of its
own otherwise. -/
theorem Sound.subscript_finds (name : String) :
    Ends (Heap.subscript i (.string name)) h
      (fun e g ↦ (∃ place, g.ElementAt i place e) ↔ (memberIndex? names name).isSome)
      fun f _ ↦ h.Falters f := by
  refine Ends.after (Heap.look_eq hv) ?_
  refine Ends.bind (hs.getMember?_finds hi hv his hle name) ?_
  rintro r g ⟨hfound, helement, hsame⟩
  cases r with
  | some e => exact .pure ⟨fun _ ↦ hfound ▸ rfl, fun _ ↦ helement e rfl⟩
  | none =>
    obtain rfl := hsame rfl
    have hnew := Scene.At.bindNew (v := .error memberNotFound) (Scene.at_ofWriter hs i) False.elim
    refine hnew.mono ?_ fun f _ hf ↦ falters_of_faults hf
    rintro e t ⟨-, hg, -, hborn⟩
    rw [← hfound]
    refine ⟨fun ⟨place, he⟩ ↦ ?_, fun hf ↦ by cases hf⟩
    obtain ⟨b, hb, hbv⟩ := Option.bind_eq_some_iff.1 hv
    refine (not_elementAt is ⟨b, _, hg.blockOf? hb, hg.valueAt? hbv, rfl⟩ (hg.elements? his)
      (fun hmem ↦ hborn ?_) he).elim
    obtain ⟨k, hk⟩ := Option.isSome_iff_exists.1 (hs.isSome_of_element his e hmem)
    exact born_of_content? hs.tidy hk

omit hi his hle in
/-- **The names are listed** in their order. -/
theorem Sound.keys_lists :
    Ends (Heap.dispatch i .keys []) h
      (fun r g ↦ ∃ w, r = some w ∧
        g.datum? w = some (.array (names.map fun key ↦ .scalar (.string key))))
      fun f _ ↦ h.Falters f := by
  have hnone : (names.map fun key ↦ (.string key : Value Obj)).flatMap Value.holds = [] :=
    List.flatMap_eq_nil_iff.2 fun v hv ↦ by
      obtain ⟨key, -, rfl⟩ := List.mem_map.1 hv
      rfl
  have hs' : h.Sound
      ((names.map fun key ↦ (.string key : Value Obj)).flatMap Value.holds ++ xs) := by
    rwa [hnone]
  have hstart : (Scene.ofWriter hs i).At []
      ((names.map fun key ↦ (.string key : Value Obj)).flatMap Value.holds ++ []) h := by
    rw [hnone]
    exact Scene.at_ofWriter hs i
  have hread : Heap.read i h = .ok (.struct names l) h := look_eq hv
  have hnew := (hstart.newArray False.elim).known
  refine .congr (dispatch_struct hv _ _) ?_
  refine Ends.after hread (Ends.bind (hnew.mono (fun _ _ hh ↦ hh) fun f _ ↦ falters_of_faults) ?_)
  rintro w g ⟨-, hrun⟩
  obtain ⟨js, g₁, hbind, hrun⟩ := bind_eq_ok_iff.1 hrun
  obtain ⟨m, g₂, hlist, hpure⟩ := bind_eq_ok_iff.1 hrun
  cases hpure
  obtain ⟨-, -, hm, hbound⟩ := hs'.listed hbind hlist
  have hscalars : g.Bound js ((names.map .string).map .scalar) := by
    rwa [List.map_map]
  refine .pure ⟨_, rfl, (hscalars.datum?_array hm).trans ?_⟩
  rw [List.map_map]
  rfl

omit hs hi his hle in
/-- The method tells whether the name is there. -/
theorem dispatch_exists (name : String) :
    Heap.dispatch i .exists [.string name] h =
      .ok (some (.ofBool (memberIndex? names name).isSome)) h := by
  have hread : Heap.read i h = .ok (.struct names l) h := look_eq hv
  exact (dispatch_struct hv _ _).trans (bind_of_ok hread)

end

theorem contains_ne_zero_iff (h : Heap Obj) (names : List String) (l : ListId) (name : String) :
    h.contains (.struct names l) (.string name) ≠ 0 ↔ (memberIndex? names name).isSome := by
  simp only [Heap.contains]
  cases memberIndex? names name with
  | none => decide
  | some place => simp [countNumber_succ_ne_zero]

/-! ## All of them -/

/-- **The ways to look a member up agree** on whether there is one with a name up to case: the
reference to it, the question for it and the method that asks, containment, the subscript and the
list of all names. -/
structure Lookups (h : Heap Obj) (i : HandleId) (names : List String) (l : ListId)
    (name : String) : Prop where
  getMember : Ends (getMember? i name) h
    (fun r _ ↦ r.isSome ↔ ∃ key ∈ names, Text.sameName key name = true) fun f _ ↦ h.Falters f
  hasMember : (Value.struct names l : Value Obj).hasMember name = true ↔
    ∃ key ∈ names, Text.sameName key name = true
  answers : ∃ found, dispatch i .exists [.string name] h = .ok (some (.ofBool found)) h ∧
    (found = true ↔ ∃ key ∈ names, Text.sameName key name = true)
  contains : h.contains (.struct names l) (.string name) ≠ 0 ↔
    ∃ key ∈ names, Text.sameName key name = true
  subscript : Ends (subscript i (.string name)) h
    (fun e g ↦ (∃ place, g.ElementAt i place e) ↔ ∃ key ∈ names, Text.sameName key name = true)
    fun f _ ↦ h.Falters f
  keys : Ends (dispatch i .keys []) h
    (fun r g ↦ ∃ (w : Value Obj) (listed : List String), r = some w ∧
      g.datum? w = some (.array (listed.map fun key ↦ .scalar (.string key))) ∧
      ((∃ key ∈ listed, Text.sameName key name = true) ↔
        ∃ key ∈ names, Text.sameName key name = true)) fun f _ ↦ h.Falters f

theorem isSome_memberIndex? (names : List String) (name : String) :
    (memberIndex? names name).isSome ↔ ∃ key ∈ names, Text.sameName key name = true := by
  rw [memberIndex?, List.findIdx?_isSome, List.any_eq_true]

theorem Sound.lookups (hs : h.Sound xs) (hi : .handle i ∈ xs)
    (hv : h.valueOf? i = some (.struct names l)) (his : h.elements? l = some is)
    (hle : names.length ≤ is.length) (name : String) : h.Lookups i names l name where
  getMember := (hs.getMember?_finds hi hv his hle name).mono
    (fun r _ hr ↦ by rw [hr.1, isSome_memberIndex?]) fun _ _ hf ↦ hf
  hasMember := isSome_memberIndex? names name
  answers := ⟨_, dispatch_exists hv name, isSome_memberIndex? names name⟩
  contains := (h.contains_ne_zero_iff names l name).trans (isSome_memberIndex? names name)
  subscript := (hs.subscript_finds hi hv his hle name).mono
    (fun _ _ he ↦ he.trans (isSome_memberIndex? names name)) fun _ _ hf ↦ hf
  keys := (hs.keys_lists hv).mono
    (fun _ _ ⟨w, hr, hw⟩ ↦ ⟨w, names, hr, hw, Iff.rfl⟩) fun _ _ hf ↦ hf

end Heap
end ScriptHeap
