import ScriptHeap.CommandLine
import ScriptHeap.Proofs.Heap.Planting
import ScriptHeap.Proofs.Heap.Uncapped
import ScriptHeap.Proofs.Session.Wellformed

/-!
# What inspected files show

A file that was inspected gives its path together with a value that shows what the file holds, or
with the error that says why it holds nothing.  The files inspected after it do not change that.

## What is here

* `fileDatum` — what a file holds.
* `Tells` — what came of a file tells what the file holds.
* `inspectFile_leaves`, `tells_mapM` — one file, and many one after another.
* `inspectAll_append` — the files up to one at which a pool runs out.
* `Command.showFiles_eq` — what the command prints, and its exit code.
-/

set_option autoImplicit false
namespace ScriptHeap

variable {Obj : Type}

/-- What a file holds, or why it holds nothing. -/
def fileDatum (read : String → Except FileProblem (List UInt8)) (path : String) :
    Except InspectError (Datum Obj) :=
  match read path with
  | .error problem => .error (.file path problem)
  | .ok bytes =>
    match Packed.unpack bytes with
    | .ok d => .ok d
    | .error failure => .error (.decode path failure.cause)

/-- What came of a file tells what the file holds. -/
inductive Tells (read : String → Except FileProblem (List UInt8)) (h : Heap Obj) :
    Inspected Obj → String → Prop where
  | value {path : String} {v : Value Obj} {d : Datum Obj} (hd : fileDatum read path = .ok d)
    (hv : h.Shows v d) : Tells read h (path, .ok v) path
  | failure {path : String} {e : InspectError}
    (he : (fileDatum read path : Except _ (Datum Obj)) = .error e) :
    Tells read h (path, .error e) path

/-- The holds of what came of a file. -/
def resultHolds : Inspected Obj → List Hold
  | (_, .ok v) => v.holds
  | (_, .error _) => []

variable [HostObject Obj] {read : String → Except FileProblem (List UInt8)} {path : String}
  {paths done rest : List String} {h h₁ h' : Heap Obj} {xs : List Hold} {bytes : List UInt8}
  {r : Inspected Obj} {rs rs₁ : List (Inspected Obj)}

/-! ## One file -/

/-- An operation that may not write to what others hold keeps all that it leads to. -/
theorem Scene.keeps_outside {ys : List Hold} {made : List HandleId} (hs : h.Sound xs)
    (ha : (Scene.ofHeap hs fun _ ↦ False).At made ys h') : h.Keeps h' xs := by
  refine ha.keeps fun z hz ↦ ⟨z, ?_, .refl h z⟩
  exact ⟨fun _ _ ↦ trivial, hs.born_of_mem hz, hz, fun _ hf ↦ hf.elim⟩

theorem Heap.Sound.shows_unpack {result : Except Packed.DecodeError (Value Obj)} (hs : h.Sound xs)
    (hrun : Heap.unpack bytes h = .ok result h') :
    (∃ d v, Packed.unpack bytes = .ok d ∧ result = .ok v ∧ h'.Shows v d) ∨
      ∃ failure : Packed.DecodeFailure Obj,
        Packed.unpack bytes = .error failure ∧ result = .error failure.cause := by
  rw [Heap.unpack] at hrun
  cases hd : (Packed.unpack bytes : Except (Packed.DecodeFailure Obj) (Datum Obj)) with
  | ok d =>
    rw [hd] at hrun
    obtain ⟨v, t, hplant, hpure⟩ := bind_eq_ok_iff.1 hrun
    cases hpure
    exact .inl ⟨d, v, rfl, rfl, hs.shows_plant hplant⟩
  | error failure =>
    rw [hd] at hrun
    obtain ⟨vs, t, -, hrest⟩ := bind_eq_ok_iff.1 hrun
    obtain ⟨_, u, -, hpure⟩ := bind_eq_ok_iff.1 hrest
    cases hpure
    exact .inr ⟨failure, rfl, rfl⟩

/-- What inspecting a file leaves: its result is held and tells what the file holds, what others
hold is as it was, and no circle was closed. -/
structure LeftByFile (read : String → Except FileProblem (List UInt8)) (path : String)
    (xs : List Hold) (h : Heap Obj) (r : Inspected Obj) (h' : Heap Obj) : Prop where
  sound : h'.Sound (resultHolds r ++ xs)
  tells : Tells read h' r path
  keeps : h.Keeps h' xs
  grounded : ¬ h.Endless → ¬ h'.Endless

theorem inspectFile_leaves (hs : h.Sound xs) (hrun : inspectFile read path h = .ok r h') :
    LeftByFile read path xs h r h' := by
  rw [inspectFile] at hrun
  cases hread : read path with
  | error problem =>
    rw [hread] at hrun
    cases hrun
    exact ⟨hs, .failure (by rw [fileDatum, hread]), fun _ _ _ _ ↦ rfl, id⟩
  | ok bytes =>
    rw [hread] at hrun
    obtain ⟨result, h₁, hunpack, hpure⟩ := bind_eq_ok_iff.1 hrun
    obtain ⟨hok, herror⟩ := ((Scene.at_ofHeap hs fun _ ↦ False).unpack bytes).get hunpack
    rcases hs.shows_unpack hunpack with ⟨d, v, hd, rfl, hv⟩ | ⟨failure, hfailure, rfl⟩
    · cases hpure
      obtain ⟨ha, -⟩ := hok v rfl
      have hsound := ha.sound
      rw [List.append_nil] at hsound
      exact ⟨hsound, .value (by simp only [fileDatum, hread, hd]) hv, Scene.keeps_outside hs ha,
        ha.acyclic⟩
    · cases hpure
      have ha := herror _ rfl
      exact ⟨ha.sound, .failure (by simp only [fileDatum, hread, hfailure]),
        Scene.keeps_outside hs ha, ha.acyclic⟩

omit [HostObject Obj] in
/-- What came of a file still tells what the file holds when what it holds is as it was. -/
theorem Tells.keeps (ht : Tells read h r path) (hk : h.Keeps h' (resultHolds r)) :
    Tells read h' r path := by
  cases ht with
  | value hd hv => exact .value hd (hv.congr hk.outline)
  | failure he => exact .failure he

/-- Where no pool has a cap, a file has a result. -/
theorem exists_inspectFile (hs : h.Sound xs) (hends : ¬ h.Endless) (hu : h.Uncapped)
    (read : String → Except FileProblem (List UInt8)) (path : String) :
    ∃ r h', inspectFile read path h = .ok r h' ∧ h'.Uncapped := by
  unfold inspectFile
  cases read path with
  | error problem => exact ⟨_, h, rfl, hu⟩
  | ok bytes =>
    have hruns := Scene.runs_of_faults ((Scene.at_ofHeap hs fun _ ↦ False).unpack bytes) hends
      trivial ((ample_unpack bytes).not_exhausts hu)
    obtain ⟨result, h₁, hunpack, -⟩ := hruns
    have hu₁ := (ample_unpack bytes h hu).get hunpack
    cases result with
    | ok v => exact ⟨_, h₁, bind_of_ok hunpack, hu₁⟩
    | error cause => exact ⟨_, h₁, bind_of_ok hunpack, hu₁⟩

/-! ## Files one after another -/

/-- One more file after others. -/
theorem mapM_concat_eq_ok_iff : ((done ++ [path]).mapM (inspectFile read)) h = .ok rs h' ↔
    ∃ rs₁ h₁ r, (done.mapM (inspectFile read)) h = .ok rs₁ h₁ ∧
      inspectFile read path h₁ = .ok r h' ∧ rs = rs₁ ++ [r] := by
  rw [List.mapM_append, bind_eq_ok_iff]
  constructor
  · rintro ⟨rs₁, h₁, hdone, hlast⟩
    obtain ⟨rs₂, h₂, hone, hpure⟩ := bind_eq_ok_iff.1 hlast
    rw [List.mapM_cons] at hone
    obtain ⟨r, h₃, hfile, hnone⟩ := bind_eq_ok_iff.1 hone
    cases hnone
    cases hpure
    exact ⟨rs₁, h₁, r, hdone, hfile, rfl⟩
  · rintro ⟨rs₁, h₁, r, hdone, hfile, rfl⟩
    refine ⟨rs₁, h₁, hdone, bind_eq_ok_iff.2 ⟨[r], h', ?_, rfl⟩⟩
    rw [List.mapM_cons]
    exact bind_eq_ok_iff.2 ⟨r, h', hfile, rfl⟩

/-- **Files one after another** each give what they hold, in order, and what came of one is not
changed by the others. -/
theorem tells_mapM (hs : h.Sound xs) (hrun : (paths.mapM (inspectFile read)) h = .ok rs h') :
    h'.Sound (rs.flatMap resultHolds ++ xs) ∧ List.Forall₂ (Tells read h') rs paths ∧
      (¬ h.Endless → ¬ h'.Endless) := by
  induction paths using List.reverseRecOn generalizing rs h' with
  | nil =>
    cases hrun
    exact ⟨hs, .nil, id⟩
  | append_singleton done path ih =>
    obtain ⟨rs₁, h₁, r, hdone, hfile, rfl⟩ := mapM_concat_eq_ok_iff.1 hrun
    obtain ⟨hs₁, htells, hends⟩ := ih hdone
    have hleft := inspectFile_leaves hs₁ hfile
    have hbefore : List.Forall₂ (Tells read h') rs₁ done := by
      refine Heap.forall₂_imp_of_mem (fun r' hr' p ht ↦ ht.keeps fun z hz ↦ ?_) htells
      exact hleft.keeps z (List.mem_append_left _ (List.mem_flatMap.2 ⟨r', hr', hz⟩))
    refine ⟨hleft.sound.perm ?_, List.rel_append hbefore (.cons hleft.tells .nil),
      fun hac ↦ hleft.grounded (hends hac)⟩
    rw [List.flatMap_append, List.flatMap_singleton, ← List.append_assoc]
    exact .append_right _ List.perm_append_comm

/-- Where no pool has a cap, all files have results. -/
theorem exists_mapM (hs : h.Sound xs) (hends : ¬ h.Endless) (hu : h.Uncapped)
    (read : String → Except FileProblem (List UInt8)) (paths : List String) :
    ∃ rs h', (paths.mapM (inspectFile read)) h = .ok rs h' ∧ h'.Uncapped := by
  induction paths using List.reverseRecOn with
  | nil => exact ⟨[], h, rfl, hu⟩
  | append_singleton done path ih =>
    obtain ⟨rs₁, h₁, hdone, hu₁⟩ := ih
    obtain ⟨hs₁, -, hends₁⟩ := tells_mapM hs hdone
    obtain ⟨r, h', hfile, hu'⟩ := exists_inspectFile hs₁ (hends₁ hends) hu₁ read path
    exact ⟨_, h', mapM_concat_eq_ok_iff.2 ⟨rs₁, h₁, r, hdone, hfile, rfl⟩, hu'⟩

/-- Files that have results stand before those that come after them. -/
theorem inspectAll_append {rs₂ : List (Inspected Obj)}
    (hdone : (done.mapM (inspectFile read)) h = .ok rs h₁)
    (hrest : inspectAll read rest h₁ = .ok rs₂ h') :
    inspectAll read (done ++ rest) h = .ok (rs ++ rs₂) h' := by
  induction done generalizing h rs with
  | nil =>
    cases hdone
    exact hrest
  | cons path done ih =>
    rw [List.mapM_cons] at hdone
    obtain ⟨r, h₂, hfile, hdone⟩ := bind_eq_ok_iff.1 hdone
    obtain ⟨rs', h₃, hdone, hpure⟩ := bind_eq_ok_iff.1 hdone
    cases hpure
    have htry : tryCatch (some <$> inspectFile read path) (fun _ ↦ return none) h =
        .ok (some r) h₂ := by
      refine tryCatch_of_ok ?_
      rw [map_eq_pure_bind]
      exact bind_of_ok hfile
    rw [List.cons_append, inspectAll]
    exact (bind_of_ok htry).trans (bind_of_ok (ih hdone))

theorem inspectAll_eq (hrun : (paths.mapM (inspectFile read)) h = .ok rs h') :
    inspectAll read paths h = .ok rs h' := by
  have hnone : inspectAll read [] h' = .ok [] h' := rfl
  have hall := inspectAll_append hrun hnone
  rwa [List.append_nil, List.append_nil] at hall

/-- A file at which a pool runs out is the last one that is looked at. -/
theorem inspectAll_fault {fault : Fault} (hfault : inspectFile read path h = .error fault h') :
    inspectAll read (path :: rest) h = .ok [] h' := by
  have htry : tryCatch (some <$> inspectFile read path) (fun _ ↦ return none) h =
      .ok none h' := by
    refine (tryCatch_of_error (e := fault) ?_).trans rfl
    rw [map_eq_pure_bind]
    exact bind_of_error hfault
  rw [inspectAll]
  exact bind_of_ok htry

/-! ## The command -/

namespace Command

/-- The line for a file that holds a datum. -/
def goodLine? (read : String → Except FileProblem (List UInt8)) (path : String) : Option String :=
  match (fileDatum read path : Except InspectError (Datum Empty)) with
  | .ok d => some (path ++ ": " ++ d.kind.name ++ " " ++ d.quoted ++ "\n")
  | .error _ => none

/-- The line for a file that holds nothing. -/
def badLine? (read : String → Except FileProblem (List UInt8)) (path : String) : Option String :=
  match (fileDatum read path : Except InspectError (Datum Empty)) with
  | .ok _ => none
  | .error e => some (e.message ++ "\n")

/-- The line for what came of a file is the line for what the file holds. -/
theorem inspectedLine_of_tells {h : Heap Empty} {xs : List Hold} {r : Inspected Empty}
    (hs : h.Sound xs) (hends : ¬ h.Endless) (hthere : ∀ y ∈ resultHolds r, (h.content? y).isSome)
    (ht : Tells read h r path) : (inspectedLine h r).getLeft? = goodLine? read path ∧
      (inspectedLine h r).getRight? = badLine? read path := by
  cases ht with
  | value hd hv =>
    have hwhole := hv.datum? hs hends hthere
    simp [inspectedLine, goodLine?, badLine?, hd, Heap.quoted, hwhole, hv.kind]
  | failure he => simp [inspectedLine, goodLine?, badLine?, he]

theorem filterMap_eq_of_forall₂ {α β γ : Type} {f : α → Option γ} {g : β → Option γ} {as : List α}
    {bs : List β} (h : List.Forall₂ (fun a b ↦ f a = g b) as bs) :
    as.filterMap f = bs.filterMap g := by
  induction h with
  | nil => rfl
  | cons hab _ ih => rw [List.filterMap_cons, List.filterMap_cons, hab, ih]

/-- **What the command prints**: for each file that holds a datum one line of output, for each other
one an error, both in order; and it fails when there is an error. -/
theorem showFiles_eq (s : Surroundings) (files : List String) : showFiles s files =
    { code := if (files.filterMap (badLine? s.read)).isEmpty then 0 else 1
      output := String.join (files.filterMap (goodLine? s.read))
      errors := String.join (files.filterMap (badLine? s.read))
      written := none } := by
  have hends : ¬ (Heap.empty .standard : Heap Empty).Endless := Heap.not_endless_empty _
  have hs : (Heap.empty .standard : Heap Empty).Sound [] := Heap.sound_empty _
  obtain ⟨rs, h, hrun, -⟩ := exists_mapM hs hends (Heap.uncapped_empty rfl) s.read files
  obtain ⟨hs', htells, hends'⟩ := tells_mapM hs hrun
  have hlines : List.Forall₂ (fun r p ↦ (inspectedLine h r).getLeft? = goodLine? s.read p ∧
      (inspectedLine h r).getRight? = badLine? s.read p) rs files := by
    refine Heap.forall₂_imp_of_mem (fun r hr p ht ↦ ?_) htells
    refine inspectedLine_of_tells hs' (hends' hends) (fun y hy ↦ ?_) ht
    exact hs'.isSome_of_mem (List.mem_append_left _ (List.mem_flatMap.2 ⟨r, hr, hy⟩))
  have hgood := filterMap_eq_of_forall₂ (hlines.imp fun _ _ hl ↦ hl.1)
  have hbad := filterMap_eq_of_forall₂ (hlines.imp fun _ _ hl ↦ hl.2)
  have hall : (inspectAll s.read files).run (Heap.empty .standard) = .ok rs h := inspectAll_eq hrun
  rw [showFiles, hall]
  simp only [List.filterMap_map, Function.comp_def, hgood, hbad]

/-- The command fails when a file holds nothing. -/
theorem showFiles_code (s : Surroundings) (files : List String) :
    (showFiles s files).code = 0 ↔
      ∀ path ∈ files, ∃ d : Datum Empty, fileDatum s.read path = .ok d := by
  have hnone (path : String) : badLine? s.read path = none ↔
      ∃ d : Datum Empty, fileDatum s.read path = .ok d := by
    unfold badLine?
    cases (fileDatum s.read path : Except InspectError (Datum Empty)) <;> simp
  simp only [showFiles_eq, List.isEmpty_iff, ite_eq_left_iff, Nat.one_ne_zero, imp_false, not_not,
    List.filterMap_eq_nil_iff, hnone]

end Command
end ScriptHeap
