import ScriptHeap.Proofs.Heap.Making

/-!
# What planted data show

A datum that was brought into the heap is found there again: the value that came of it, written out
as deep as the datum nests or deeper, is the datum.  It stays that way as long as nothing that the
value has is changed.

## What is here

* `Heap.Shows` — a value shows a datum.
* `Heap.Bound` — handles have certain values, one by one.
* `Heap.Sound.listed` — the list of a new container has the values that it was made of.
* `Heap.Sound.shows_plant` — a planted datum is shown by the value that came of it.
-/

set_option autoImplicit false
namespace ScriptHeap

variable {Obj : Type}

/-- The kind of the values that show a datum. -/
def Datum.kind [HostObject Obj] : Datum Obj → Kind
  | .scalar s => s.kind
  | .array _ => .array
  | .struct _ _ => .struct

namespace Heap

variable {h h' : Heap Obj} {xs ys : List Hold} {v : Value Obj} {vs ws : List (Value Obj)}
  {d : Datum Obj} {ds : List (Datum Obj)} {is : List HandleId} {l : ListId}

/-! ## Values that show data -/

/-- A value written out is a datum, at every depth that the datum does not exceed. -/
def Shows (h : Heap Obj) (v : Value Obj) (d : Datum Obj) : Prop :=
  ∀ depth, d.nesting ≤ depth → outline depth h v = d

theorem Shows.congr (hv : h.Shows v d) (hsame : ∀ depth, outline depth h' v = outline depth h v) :
    h'.Shows v d :=
  fun depth hle ↦ (hsame depth).trans (hv depth hle)

/-- What was made since then makes no difference. -/
theorem Shows.adds (hv : h.Shows v d) (ha : h.Adds h') (hs : h.Sound xs) (hs' : h'.Sound ys)
    (hthere : ∀ y ∈ v.holds, (h.content? y).isSome) : h'.Shows v d :=
  hv.congr (ha.outline hs hs' hthere)

theorem Shows.kind [HostObject Obj] (hv : h.Shows v d) : v.kind = d.kind := by
  have hd := hv (d.nesting + 1) (Nat.le_succ _)
  rw [← hd]
  cases v <;> rfl

/-- Where no cells hold each other in a circle, the value can be written out in full. -/
theorem Shows.datum? (hv : h.Shows v d) (hs : h.Sound xs) (hends : ¬ h.Endless)
    (hthere : ∀ y ∈ v.holds, (h.content? y).isSome) : h.datum? v = some d := by
  obtain ⟨e, he, hev⟩ := hs.exists_datum hends hthere
  have hdepth := hev _ (Nat.le_max_left h.depth d.nesting)
  rw [hv _ (Nat.le_max_right _ _)] at hdepth
  rw [he, hdepth]

/-! ## Handles and their values -/

/-- Handles have certain values, one by one. -/
def Bound (h : Heap Obj) (is : List HandleId) (vs : List (Value Obj)) : Prop :=
  List.Forall₂ (fun i v ↦ h.valueOf? i = some v) is vs

theorem Bound.grows {touched : Hold → Prop} (hb : h.Bound is vs) (hg : h.Grows h' touched) :
    h'.Bound is vs :=
  hb.imp fun _ _ hi ↦ hg.valueOf? hi

/-- Handles whose values show data are seen as these data. -/
theorem Bound.seen {depth : Nat} (hb : h.Bound is vs) (hvs : List.Forall₂ h.Shows vs ds)
    (hle : ∀ e ∈ ds, e.nesting ≤ depth) : Heap.seen depth h is = ds := by
  induction hb generalizing ds with
  | nil =>
    cases hvs
    rfl
  | cons hi _ ih =>
    rcases hvs with _ | ⟨hv, hvs⟩
    obtain ⟨hd, hds⟩ := List.forall_mem_cons.1 hle
    rw [Heap.seen, List.map_cons, shown_eq hi, hv depth hd]
    exact congrArg _ (ih hvs hds)

theorem Bound.shows_array (hb : h.Bound is vs) (hvs : List.Forall₂ h.Shows vs ds)
    (hl : h.elements? l = some is) : h.Shows (.array l) (.array ds) := by
  intro depth hle
  cases depth with
  | zero => exact absurd hle (by simp [Datum.nesting])
  | succ depth =>
    rw [outline_array, shape_list hl, hb.seen hvs (Datum.nesting_le_succ_iff.1 hle)]

/-- The elements of a struct are matched with its names again. -/
theorem zip_names (ms : List (String × Datum Obj)) (ds : List (Datum Obj)) :
    (ms.map (·.1)).zip (ms.map (·.2) ++ ds) = ms := by
  induction ms with
  | nil => rfl
  | cons m ms ih => exact congrArg (m :: ·) ih

theorem Bound.shows_struct {ms : List (String × Datum Obj)} (hb : h.Bound is vs)
    (hvs : List.Forall₂ h.Shows vs (ms.map (·.2) ++ ds)) (hl : h.elements? l = some is) :
    h.Shows (.struct (ms.map (·.1)) l) (.struct ms ds) := by
  intro depth hle
  cases depth with
  | zero => exact absurd hle (by simp [Datum.nesting])
  | succ depth =>
    have hseen := hb.seen hvs (Datum.nesting_le_succ_iff.1 hle)
    rw [Heap.seen] at hseen
    rw [outline, items_eq hl, hseen, zip_names, List.length_map, ← List.length_map (f := (·.2)),
      List.drop_left]

/-- Values that are held go on to show what they showed. -/
theorem Sound.shows_all {touched : Hold → Prop} (hs : h.Sound (vs.flatMap Value.holds ++ xs))
    (hs' : h'.Sound ys) (hg : h.Grows h' touched) (hvs : List.Forall₂ h.Shows vs ds) :
    List.Forall₂ h'.Shows vs ds := by
  refine forall₂_imp_of_mem (fun v hv d hvd ↦ hvd.adds hg.toAdds hs hs' fun y hy ↦ ?_) hvs
  exact hs.isSome_of_mem (List.mem_append_left xs (List.mem_flatMap.2 ⟨v, hv, hy⟩))

end Heap

/-! ## New containers -/

variable [HostObject Obj]

namespace Scene

variable {c : Scene Obj} {made is : List HandleId} {ys : List Hold} {h h' : Heap Obj}
  {vs ws : List (Value Obj)}

/-- New handles have the values that they were made for. -/
theorem At.bound_bindAllAfter {first : List HandleId}
    (ha : c.At (first ++ made) (vs.flatMap Value.holds ++ ys) h) (hregular : ¬ c.regular)
    (hfirst : h.Bound first.reverse ws) (hrun : Heap.bindAllAfter first vs h = .ok is h') :
    h'.Bound is (ws ++ vs) := by
  induction vs generalizing h first ws with
  | nil =>
    cases hrun
    rwa [List.append_nil]
  | cons v vs ih =>
    rw [List.flatMap_cons, List.append_assoc] at ha
    obtain ⟨i, h₁, hbind, hrest⟩ := bind_eq_ok_iff.1 hrun
    have hbind' := ok_of_tryCatch hbind fun _ _ ↦ ⟨_, rfl⟩
    obtain ⟨ha₁, hg₁, hi, -⟩ := (ha.bindNew fun hr ↦ (hregular hr).elim).get hbind'
    have hlonger : h₁.Bound (i :: first).reverse (ws ++ [v]) := by
      rw [List.reverse_cons]
      exact List.rel_append (hfirst.grows hg₁) (.cons hi .nil)
    have hall := ih ha₁ hlonger hrest
    rwa [List.append_assoc] at hall

end Scene

namespace Heap

variable {h h₁ h' : Heap Obj} {xs : List Hold} {v : Value Obj} {vs : List (Value Obj)}
  {d : Datum Obj} {ds : List (Datum Obj)} {is : List HandleId} {l : ListId}

/-- **The list of a new container** has the values that it was made of. -/
theorem Sound.listed (hs : h.Sound (vs.flatMap Value.holds ++ xs))
    (hbind : bindAll vs h = .ok is h₁) (hnew : newList is h₁ = .ok l h') :
    h'.Sound (.list l :: xs) ∧ h.Grows h' h.Unset ∧ h'.elements? l = some is ∧ h'.Bound is vs := by
  let c : Scene Obj := { Scene.ofHeap hs (fun _ ↦ False) with outside := xs }
  have ha : c.At [] (vs.flatMap Value.holds ++ []) h := .start (.append_right _ (by simp))
  obtain ⟨ha₁, hg₁, -⟩ := (Scene.At.bindAllAfter [] ha False.elim).get hbind
  obtain ⟨_, _, hrun, ha₂, hg₂, hl, -⟩ := ha₁.newList
  cases hrun.symm.trans hnew
  have hnone : h.Bound ([] : List HandleId).reverse [] := .nil
  have hbound : h₁.Bound is vs := ha.bound_bindAllAfter id hnone hbind
  exact ⟨ha₂.sound, hg₁.trans hg₂ fun _ _ hf ↦ hf.elim, hl, hbound.grows hg₂⟩

/-! ## Planted data -/

theorem Sound.plant (hs : h.Sound xs) (hrun : Heap.plant d h = .ok v h') :
    h'.Sound (v.holds ++ xs) ∧ h.Grows h' h.Unset := by
  obtain ⟨ha, hg, -⟩ := (Scene.At.plant d False.elim (Scene.at_ofHeap hs fun _ ↦ False)).get hrun
  refine ⟨?_, hg⟩
  have hsound := ha.sound
  rwa [List.append_nil] at hsound

theorem Sound.plantAll (hs : h.Sound xs) (hrun : Heap.plantAll ds h = .ok vs h') :
    h'.Sound (vs.flatMap Value.holds ++ xs) ∧ h.Grows h' h.Unset := by
  obtain ⟨ha, hg, -⟩ := (Scene.At.plantAll (fun d _ ↦ Scene.At.plant d False.elim)
    (Scene.at_ofHeap hs fun _ ↦ False)).get hrun
  refine ⟨?_, hg⟩
  have hsound := ha.sound
  rwa [List.append_nil] at hsound

/-- Data that each can be shown when they are planted are shown one by one. -/
theorem Sound.shows_plantAll
    (hds : ∀ d ∈ ds, ∀ {h h' xs v}, h.Sound xs → Heap.plant d h = .ok v h' → h'.Shows v d)
    (hs : h.Sound xs) (hrun : Heap.plantAll ds h = .ok vs h') : List.Forall₂ h'.Shows vs ds := by
  induction ds generalizing h xs vs with
  | nil =>
    cases hrun
    exact .nil
  | cons d ds ih =>
    obtain ⟨v, h₁, hplant, hrest⟩ := bind_eq_ok_iff.1 hrun
    obtain ⟨ws, h₂, hall, hpure⟩ := bind_eq_ok_iff.1 hrest
    cases hpure
    have hall := ok_of_holding hall
    obtain ⟨hs₁, -⟩ := hs.plant hplant
    obtain ⟨hs₂, hg₂⟩ := hs₁.plantAll hall
    refine .cons ?_ (ih (fun e he ↦ hds e (List.mem_cons_of_mem _ he)) hs₁ hall)
    refine (hds d List.mem_cons_self hs hplant).adds hg₂.toAdds hs₁ hs₂ fun y hy ↦ ?_
    exact hs₁.isSome_of_mem (List.mem_append_left xs hy)

/-- **A planted datum is shown** by the value that came of it. -/
theorem Sound.shows_plant (hs : h.Sound xs) (hrun : Heap.plant d h = .ok v h') : h'.Shows v d := by
  induction d using Datum.inductionOn generalizing h xs v h' with
  | h d ih =>
    cases d with
    | scalar s =>
      cases hrun
      exact fun depth _ ↦ outline_scalar depth _ s
    | array ds =>
      obtain ⟨vs, h₁, hall, hnew⟩ := bind_eq_ok_iff.1 hrun
      obtain ⟨is, h₂, hbind, hnew⟩ := bind_eq_ok_iff.1 hnew
      obtain ⟨l, h₃, hlist, hpure⟩ := bind_eq_ok_iff.1 hnew
      cases hpure
      obtain ⟨hs₁, -⟩ := hs.plantAll hall
      obtain ⟨hs', hg, hl, hbound⟩ := hs₁.listed hbind hlist
      exact hbound.shows_array (hs₁.shows_all hs' hg (hs.shows_plantAll ih hall)) hl
    | struct ms ds =>
      rw [Heap.plant, plantMembers_eq] at hrun
      obtain ⟨vs, h₁, hmembers, hrun⟩ := bind_eq_ok_iff.1 hrun
      obtain ⟨ws, h₂, hall, hnew⟩ := bind_eq_ok_iff.1 hrun
      obtain ⟨is, h₃, hbind, hnew⟩ := bind_eq_ok_iff.1 hnew
      obtain ⟨l, h₄, hlist, hpure⟩ := bind_eq_ok_iff.1 hnew
      cases hpure
      have hall := ok_of_holding hall
      obtain ⟨hs₁, -⟩ := hs.plantAll hmembers
      obtain ⟨hs₂, hg₂⟩ := hs₁.plantAll hall
      have hvs := hs.shows_plantAll (fun e he ↦ ih e (List.mem_append_left _ he)) hmembers
      have hws := hs₁.shows_plantAll (fun e he ↦ ih e (List.mem_append_right _ he)) hall
      have hs₃ : h₂.Sound ((vs ++ ws).flatMap Value.holds ++ xs) := by
        refine hs₂.perm ?_
        rw [List.flatMap_append, List.append_assoc]
        exact List.perm_append_comm_assoc _ _ _
      obtain ⟨hs', hg, hl, hbound⟩ := hs₃.listed hbind hlist
      refine hbound.shows_struct (hs₃.shows_all hs' hg ?_) hl
      exact List.rel_append (hs₁.shows_all hs₂ hg₂ hvs) hws

end Heap
end ScriptHeap
