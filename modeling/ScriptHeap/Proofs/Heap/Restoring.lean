import ScriptHeap.Proofs.Heap.Course
import ScriptHeap.Proofs.Heap.Planting

/-!
# Nothing left behind

Data that were brought into the heap only to be let go again leave nothing there.  Each cell that is
made for them holds cells that were there before it, so none of them leads back to itself, and each
goes with those that hold it.  What was there before stays: it has the holders that it had.  Only
the block of variables without a value may be new, for it is kept once it was made.

## What is here

* `Heap.Stacks` — cells are made that do not lead back to themselves; kept by all that brings in
  data, up to `Heap.Sound.stacks_plantAll`.
* `Heap.Restored` — what was there is as it was, and nothing else is there but the blank block.
* `Heap.Sound.restored` — so it is when what was built is given up.
* `Heap.Restored.inUse_eq`, `Heap.Restored.isSome_handle?` — the blocks in use and the handles.
-/

set_option autoImplicit false
namespace ScriptHeap

variable {Obj : Type}

namespace Heap

variable {h h' h'' g : Heap Obj} {xs : List Hold} {x y : Hold}

/-! ## Cells built upon others -/

/-- Nothing that is there is changed, and no new cell leads back to itself. -/
structure Stacks (h h' : Heap Obj) : Prop where
  quiet : h.Quiet h'
  apart : ∀ x y, ¬ h.Born x → y ∈ h'.holdsOf x → ¬ h'.Reaches y x
  blank : ∀ b, h'.blank = some b → h.blank = some b ∨ ¬ h.Born (.block b)

namespace Stacks

theorem trans (hb : h.Stacks h') (hb' : h'.Stacks h'') (hs : h'.Sound xs) : h.Stacks h'' where
  quiet := hb.quiet.trans hb'.quiet
  apart x y hx hy hreach := by
    by_cases hborn : h'.Born x
    · -- the ways from the older of the new cells are as they were
      obtain ⟨k, hk, hyk⟩ := (mem_holdsOf y).1 hy
      have hold : y ∈ h'.holdsOf x := (mem_holdsOf y).2 ⟨k, hb'.quiet.content x hborn k hk, hyk⟩
      exact hb.apart x y hx hold (hb'.quiet.reaches hs (hs.born_of_mem_holdsOf hold) hreach)
    · exact hb'.apart x y hborn hy hreach
  blank b hblank := (hb'.blank b hblank).elim (hb.blank b) fun hnew ↦
    .inr fun hborn ↦ hnew (hb.quiet.born _ hborn)

/-- New cells that hold what was there before do not lead back to themselves. -/
theorem of_quiet (hs : h.Sound xs) (hq : h.Quiet h')
    (hnew : ∀ x, ¬ h.Born x → ∀ y ∈ h'.holdsOf x, h.Born y)
    (hblank : ∀ b, h'.blank = some b → h.blank = some b ∨ ¬ h.Born (.block b)) : h.Stacks h' where
  quiet := hq
  apart x y hx hy hreach := by
    have hborn := hnew x hx y hy
    exact hx (Clear.born hs hborn (hq.reaches hs hborn hreach))
  blank := hblank

theorem refl (hs : h.Sound xs) : h.Stacks h :=
  .of_quiet hs (.refl h) (fun _ _ _ hy ↦ hs.born_of_mem_holdsOf hy) fun _ hb ↦ .inl hb

end Stacks

/-- **A new cell** that holds what was there before. -/
theorem Changes.stacks {nk : Nat × Content Obj} (hc : h.Changes h' x (some nk)) (hs : h.Sound xs)
    (hx : ¬ h.Born x) (hnew : ∀ y ∈ nk.2.holds, h.Born y) : h.Stacks h' := by
  refine .of_quiet hs (hc.quiet fun hborn ↦ absurd hborn hx) (fun z hz y hy ↦ ?_) fun b hb ↦ ?_
  · rw [hc.holdsOf] at hy
    split at hy
    · exact hnew y hy
    · exact hs.born_of_mem_holdsOf hy
  · exact .inl (hc.blank.symm.trans hb)

theorem Sound.stacks_retainOne (hs : h.Sound xs) (hx : (h.content? x).isSome) :
    h.Stacks (h.retainOne x) := by
  obtain ⟨k, hk⟩ := Option.isSome_iff_exists.1 hx
  obtain ⟨n, hn⟩ := exists_cell?_of_content? hk
  have hc := changes_retainOne hn
  refine .of_quiet hs (quiet_retainOne hn) (fun z _ y hy ↦ ?_) fun b hb ↦ ?_
  · rw [holdsOf, Scene.content?_retainOne hn] at hy
    exact hs.born_of_mem_holdsOf hy
  · exact .inl (hc.blank.symm.trans hb)

/-! ## New blocks, handles and lists -/

variable [HostObject Obj] {v : Value Obj} {vs : List (Value Obj)} {d : Datum Obj}
  {ds : List (Datum Obj)} {b : BlockId} {i : HandleId} {is : List HandleId} {l : ListId}

theorem Sound.stacks_allocate (hs : h.Sound (v.holds ++ xs)) (hrun : allocate v h = .ok b h') :
    h.Stacks h' := by
  cases hfull : (h.pools.get (PoolName.ofKind v.kind)).isExhausted with
  | true => cases (Scene.allocate_of_exhausted hfull).symm.trans hrun
  | false =>
    cases (Scene.allocate_of_free hfull).symm.trans hrun
    obtain ⟨hnew, hc⟩ := changes_filled hs.tidy hfull v
    exact hc.stacks hs hnew fun y hy ↦ hs.born_of_mem (List.mem_append_left xs hy)

/-- The block of variables without a value is made, or held once more. -/
theorem Sound.stacks_blankBlock (hs : h.Sound xs) (hrun : blankBlock h = .ok b h') :
    h.Stacks h' := by
  rw [blankBlock, bind_of_ok (Scene.get_eq h)] at hrun
  cases hblank : h.blank with
  | some c =>
    rw [hblank] at hrun
    cases hrun
    have hthere : (h.content? (.block b)).isSome :=
      isSome_of_valueAt? (hs.blank b hblank)
    exact hs.stacks_retainOne hthere
  | none =>
    rw [hblank] at hrun
    obtain ⟨c, h₁, hnew, hrun⟩ := bind_eq_ok_iff.1 hrun
    cases hrun
    cases hfull : (h.pools.get .uninit).isExhausted with
    | true => cases (Scene.allocate_of_exhausted (v := .uninit) hfull).symm.trans hnew
    | false =>
      cases (Scene.allocate_of_free (v := .uninit) hfull).symm.trans hnew
      obtain ⟨hborn, hc⟩ := changes_filled hs.tidy hfull .uninit
      have ha := Scene.at_ofHeap hs fun _ ↦ False
      obtain ⟨-, hg, -⟩ := ha.firstBlank hblank hfull rfl
      have hcell := hc.cell (.block (h.filled .uninit .uninit).1)
      rw [if_pos rfl] at hcell
      refine .of_quiet hs hg.quiet (fun z _ y hy ↦ ?_) fun c hc ↦ ?_
      · -- the new block holds nothing, and no other cell was changed
        have hy : y ∈ ((h.filled .uninit .uninit).2.retainOne
            (.block (h.filled .uninit .uninit).1)).holdsOf z := hy
        rw [holdsOf, Scene.content?_retainOne hcell, ← holdsOf, hc.holdsOf] at hy
        split at hy
        · cases hy
        · exact hs.born_of_mem_holdsOf hy
      · cases hc
        exact .inr hborn

theorem Sound.stacks_place (hs : h.Sound (v.holds ++ xs)) (hrun : place v h = .ok b h') :
    h.Stacks h' := by
  rw [place] at hrun
  split at hrun
  · exact hs.stacks_blankBlock hrun
  · exact hs.stacks_allocate hrun

theorem Sound.stacks_newHandle (hs : h.Sound (.block b :: xs)) (hrun : newHandle b h = .ok i h') :
    h.Stacks h' := by
  obtain ⟨w, h₁, hlook, hmade⟩ := bind_eq_ok_iff.1 hrun
  obtain ⟨-, rfl⟩ := look_eq_ok hlook
  cases hmade
  obtain ⟨hnew, hc⟩ := changes_addHandle h₁ b w.kind
  refine hc.stacks hs hnew fun y hy ↦ ?_
  rw [List.mem_singleton.1 hy]
  exact hs.born_of_mem List.mem_cons_self

omit [HostObject Obj] in
theorem Sound.stacks_newList (hs : h.Sound (handleHolds is ++ xs))
    (hrun : newList is h = .ok l h') : h.Stacks h' := by
  cases hrun
  obtain ⟨hnew, hc⟩ := changes_withList h is
  exact hc.stacks hs hnew fun y hy ↦ hs.born_of_mem (List.mem_append_left xs hy)

end Heap

namespace Scene

variable [HostObject Obj] {c : Scene Obj} {h h' : Heap Obj} {made is : List HandleId}
  {ys : List Hold} {v : Value Obj} {vs : List (Value Obj)} {i : HandleId}

theorem At.stacks_bindNew (ha : c.At made (v.holds ++ ys) h) (hregular : ¬ c.regular)
    (hrun : Heap.bindNew v h = .ok i h') : h.Stacks h' := by
  obtain ⟨b, h₁, hplace, hnew⟩ := bind_eq_ok_iff.1 hrun
  obtain ⟨ha₁, -, -⟩ := (ha.place fun hr ↦ (hregular hr).elim).get hplace
  exact (ha.sound_append.stacks_place hplace).trans
    ((ha₁.sound.perm List.perm_middle).stacks_newHandle hnew) ha₁.sound

/-- New handles for values, one after another. -/
theorem At.stacks_bindAllAfter (first : List HandleId)
    (ha : c.At (first ++ made) (vs.flatMap Value.holds ++ ys) h) (hregular : ¬ c.regular)
    (hrun : Heap.bindAllAfter first vs h = .ok is h') : h.Stacks h' := by
  induction vs generalizing h first with
  | nil =>
    cases hrun
    exact .refl ha.sound
  | cons v vs ih =>
    rw [List.flatMap_cons, List.append_assoc] at ha
    obtain ⟨i, h₁, hbind, hrest⟩ := bind_eq_ok_iff.1 hrun
    have hbind' := ok_of_tryCatch hbind fun _ _ ↦ ⟨_, rfl⟩
    obtain ⟨ha₁, -⟩ := (ha.bindNew fun hr ↦ (hregular hr).elim).get hbind'
    exact (ha.stacks_bindNew hregular hbind').trans (ih (i :: first) ha₁ hrest) ha₁.sound

end Scene

namespace Heap

variable [HostObject Obj] {h h' h'' g : Heap Obj} {xs : List Hold} {x y : Hold} {v : Value Obj}
  {vs : List (Value Obj)} {d : Datum Obj} {ds : List (Datum Obj)} {is : List HandleId} {l : ListId}

/-- The elements of a new container are bound, and a list is made of them. -/
theorem Sound.stacks_listed (hs : h.Sound (vs.flatMap Value.holds ++ xs))
    (hbind : bindAll vs h = .ok is h') (hnew : newList is h' = .ok l h'') : h.Stacks h'' := by
  let c : Scene Obj := { Scene.ofHeap hs (fun _ ↦ False) with outside := xs }
  have ha : c.At [] (vs.flatMap Value.holds ++ []) h := .start (.append_right _ (by simp))
  obtain ⟨ha₁, -⟩ := (Scene.At.bindAllAfter [] ha False.elim).get hbind
  have hs₁ : h'.Sound (handleHolds is ++ xs) := by
    have hsound := ha₁.sound
    rwa [List.append_nil] at hsound
  exact (Scene.At.stacks_bindAllAfter [] ha id hbind).trans (hs₁.stacks_newList hnew) hs₁

/-! ## Data brought in -/

/-- Data are brought in one after another. -/
theorem Sound.stacks_plantAll_of
    (hds : ∀ d ∈ ds, ∀ {h h' xs v}, h.Sound xs → Heap.plant d h = .ok v h' → h.Stacks h')
    (hs : h.Sound xs) (hrun : Heap.plantAll ds h = .ok vs h') : h.Stacks h' := by
  induction ds generalizing h xs vs with
  | nil =>
    cases hrun
    exact .refl hs
  | cons d ds ih =>
    obtain ⟨v, h₁, hplant, hrest⟩ := bind_eq_ok_iff.1 hrun
    obtain ⟨ws, h₂, hall, hpure⟩ := bind_eq_ok_iff.1 hrest
    cases hpure
    obtain ⟨hs₁, -⟩ := hs.plant hplant
    exact (hds d List.mem_cons_self hs hplant).trans
      (ih (fun e he ↦ hds e (List.mem_cons_of_mem _ he)) hs₁ (ok_of_holding hall)) hs₁

theorem Sound.stacks_plant (hs : h.Sound xs) (hrun : Heap.plant d h = .ok v h') : h.Stacks h' := by
  induction d using Datum.inductionOn generalizing h xs v h' with
  | h d ih =>
    cases d with
    | scalar s =>
      cases hrun
      exact .refl hs
    | array ds =>
      obtain ⟨vs, h₁, hall, hnew⟩ := bind_eq_ok_iff.1 hrun
      obtain ⟨is, h₂, hbind, hnew⟩ := bind_eq_ok_iff.1 hnew
      obtain ⟨l, h₃, hlist, hpure⟩ := bind_eq_ok_iff.1 hnew
      cases hpure
      obtain ⟨hs₁, -⟩ := hs.plantAll hall
      exact (hs.stacks_plantAll_of ih hall).trans (hs₁.stacks_listed hbind hlist) hs₁
    | struct ms ds =>
      rw [Heap.plant, plantMembers_eq] at hrun
      obtain ⟨vs, h₁, hmembers, hrun⟩ := bind_eq_ok_iff.1 hrun
      obtain ⟨ws, h₂, hall, hnew⟩ := bind_eq_ok_iff.1 hrun
      obtain ⟨is, h₃, hbind, hnew⟩ := bind_eq_ok_iff.1 hnew
      obtain ⟨l, h₄, hlist, hpure⟩ := bind_eq_ok_iff.1 hnew
      cases hpure
      have hall := ok_of_holding hall
      obtain ⟨hs₁, -⟩ := hs.plantAll hmembers
      obtain ⟨hs₂, -⟩ := hs₁.plantAll hall
      have hs₃ : h₂.Sound ((vs ++ ws).flatMap Value.holds ++ xs) := by
        refine hs₂.perm ?_
        rw [List.flatMap_append, List.append_assoc]
        exact List.perm_append_comm_assoc _ _ _
      have hvs := hs.stacks_plantAll_of (fun e he ↦ ih e (List.mem_append_left _ he)) hmembers
      have hws := hs₁.stacks_plantAll_of (fun e he ↦ ih e (List.mem_append_right _ he)) hall
      exact (hvs.trans hws hs₁).trans (hs₃.stacks_listed hbind hlist) hs₂

/-- **Data brought in** are built upon what is there. -/
theorem Sound.stacks_plantAll (hs : h.Sound xs) (hrun : Heap.plantAll ds h = .ok vs h') :
    h.Stacks h' :=
  hs.stacks_plantAll_of (fun _ _ {_ _ _ _} hs hrun ↦ hs.stacks_plant hrun) hrun

omit [HostObject Obj]

/-! ## What is given up again -/

/-- What was there is as it was, and nothing else is there but the block of variables without a
value. -/
structure Restored (h g : Heap Obj) : Prop where
  content : ∀ x, h.Born x → g.content? x = h.content? x
  own : ∀ x, ¬ h.Born x → (g.content? x).isSome → x ∈ g.ownHolds
  blank : ∀ b, h.blank = some b → g.blank = some b
  fresh : ∀ b, g.blank = some b → h.blank = some b ∨ ¬ h.Born (.block b)

/-- What was there before stays when others give up what they built, since it has the holders that
it had. -/
theorem Sound.content?_of_released {touched : Hold → Prop} (hs : h.Sound xs)
    (hg : h.Grows h' touched) (hr : h'.Released g xs) (hx : h.Born x) :
    g.content? x = h.content? x := by
  have hsame {y : Hold} {k : Content Obj} (hy : h.Born y) (hk : g.content? y = some k) :
      h.content? y = some k := hg.quiet.content y hy k (hr.sub y k hk)
  by_contra hne
  -- what is gone was held before by something that is gone, so it cannot be gone
  have hgone {z : Hold} (hz : h.Born z) (hgz : g.content? z ≠ h.content? z) :
      g.content? z = none ∧ (h.content? z).isSome := by
    cases hk : g.content? z with
    | none => exact ⟨rfl, Option.isSome_iff_ne_none.2 fun hnone ↦ hgz (hk.trans hnone.symm)⟩
    | some k => exact absurd (hk.trans (hsame hz hk).symm) hgz
  have hheld (z : Hold) (hz : h.Born z ∧ g.content? z ≠ h.content? z) :
      ∃ y, (h.Born y ∧ g.content? y ≠ h.content? y) ∧ z ∈ h'.holdsOf y := by
    obtain ⟨hnone, hthere⟩ := hgone hz.1 hz.2
    rcases hs.exists_holder hthere with ⟨y, hy⟩ | hout | hown
    · obtain ⟨k, hk, hzk⟩ := (mem_holdsOf z).1 hy
      refine ⟨y, ⟨born_of_content? hs.tidy hk, fun hgy ↦ ?_⟩, (mem_holdsOf z).2 ⟨k, ?_, hzk⟩⟩
      · have hstill := hr.sound.isSome_of_mem_holdsOf ((mem_holdsOf z).2 ⟨k, hgy.trans hk, hzk⟩)
        rw [hnone] at hstill
        cases hstill
      · exact hg.content y k hk
    · have hstill := hr.sound.isSome_of_mem hout
      rw [hnone] at hstill
      cases hstill
    · obtain ⟨b, hb, rfl⟩ := List.mem_map.1 hown
      have hblank := hr.blank.trans (hg.quiet.blank b (Option.mem_toList.1 hb))
      rw [content?_block.2 (hr.sound.blank b hblank)] at hnone
      cases hnone
  obtain ⟨hnone, hthere⟩ := hgone hx hne
  obtain ⟨k, hk⟩ := Option.isSome_iff_exists.1 hthere
  rw [hr.stays _ hheld x ⟨hx, hne⟩, hg.content x k hk] at hnone
  cases hnone

/-- What was built goes with those that hold it, since nothing of it leads back to itself. -/
theorem Sound.mem_ownHolds_of_released {touched : Hold → Prop} (hs : h.Sound xs)
    (hg : h.Grows h' touched) (hb : h.Stacks h') (hr : h'.Released g xs) (hx : ¬ h.Born x)
    (hthere : (g.content? x).isSome) : x ∈ g.ownHolds := by
  induction hn : (g.origins x).card using Nat.strong_induction_on generalizing x with
  | h n ih =>
    rcases hr.sound.exists_holder hthere with ⟨y, hy⟩ | hout | hown
    · obtain ⟨k, hk, hxk⟩ := (mem_holdsOf x).1 hy
      have hnew : ¬ h.Born y := by
        intro hborn
        rw [hs.content?_of_released hg hr hborn] at hk
        exact hx (hs.born_of_mem_holdsOf ((mem_holdsOf x).2 ⟨k, hk, hxk⟩))
      have hsub (z w : Hold) (hw : w ∈ g.holdsOf z) : w ∈ h'.holdsOf z := by
        obtain ⟨k, hk, hwk⟩ := (mem_holdsOf w).1 hw
        exact (mem_holdsOf w).2 ⟨k, hr.sub z k hk, hwk⟩
      have hback : ¬ g.Reaches x y := fun hreach ↦
        hb.apart y x hnew (hsub y x hy) (hreach.mono hsub)
      obtain ⟨_, hk'⟩ := Option.isSome_iff_exists.1 hthere
      obtain ⟨_, hcell⟩ := exists_cell?_of_content? hk'
      have hlt := card_origins_lt hback hy (mem_names hcell)
      have hown := ih _ (hn ▸ hlt) hnew (Option.isSome_iff_exists.2 ⟨k, hk⟩) rfl
      rw [hr.sound.holdsOf_own hown] at hy
      cases hy
    · exact absurd (hs.born_of_mem hout) hx
    · exact hown

/-- **What was built is given up** with nothing left behind. -/
theorem Sound.restored {touched : Hold → Prop} (hs : h.Sound xs) (hg : h.Grows h' touched)
    (hb : h.Stacks h') (hr : h'.Released g xs) : h.Restored g where
  content _ hx := hs.content?_of_released hg hr hx
  own _ hx hthere := hs.mem_ownHolds_of_released hg hb hr hx hthere
  blank b hblank := hr.blank.trans (hb.quiet.blank b hblank)
  fresh b hblank := hb.blank b (hr.blank.symm.trans hblank)

/-- **Bytes that hold no value** leave nothing behind of what was complete before the error. -/
theorem Sound.restored_unpack [HostObject Obj] (hs : h.Sound xs) {bytes : List UInt8}
    {cause : Packed.DecodeError} (hrun : unpack bytes h = .ok (.error cause) g) :
    h.Restored g ∧ g.Sound xs := by
  rw [unpack] at hrun
  cases hdecoded : (Packed.unpack bytes : Except (Packed.DecodeFailure Obj) (Datum Obj)) with
  | ok d =>
    rw [hdecoded] at hrun
    obtain ⟨v, t, -, hpure⟩ := bind_eq_ok_iff.1 hrun
    cases hpure
  | error failure =>
    rw [hdecoded] at hrun
    obtain ⟨vs, t, hall, hrest⟩ := bind_eq_ok_iff.1 hrun
    cases hrest
    obtain ⟨hs₁, hg⟩ := hs.plantAll hall
    have hr := released_release hs₁
    exact ⟨hs.restored hg (hs.stacks_plantAll hall) hr, hr.sound⟩

namespace Restored

/-- The blocks in use are those that were, and the blank one. -/
theorem mem_pointers_iff (hr : h.Restored g) (hs : h.Sound xs) (hs' : g.Sound xs) {name : PoolName}
    {p : Pool.Pointer} : p ∈ (g.pools.get name).pointers ↔
      p ∈ (h.pools.get name).pointers ∨ g.blank = some ⟨name, p⟩ := by
  rw [Heap.mem_pointers_iff, Heap.mem_pointers_iff]
  constructor
  · intro hthere
    by_cases hborn : h.Born (.block ⟨name, p⟩)
    · exact .inl (hr.content _ hborn ▸ hthere)
    · obtain ⟨b, hb, he⟩ := List.mem_map.1 (hr.own _ hborn hthere)
      cases he
      exact .inr (Option.mem_toList.1 hb)
  · rintro (hthere | hblank)
    · rwa [hr.content _ (hs.born_of_isSome hthere)]
    · exact isSome_of_valueAt? (hs'.blank _ hblank)

/-- **As many blocks are in use as before**, and one more where that of variables without a value
was made. -/
theorem used_eq (hr : h.Restored g) (hs : h.Sound xs) (hs' : g.Sound xs) (name : PoolName) :
    (g.pools.get name).used = (h.pools.get name).used +
      if name = .uninit ∧ h.blank = none ∧ g.blank.isSome then 1 else 0 := by
  rw [← Pool.length_pointers, ← Pool.length_pointers]
  split
  · rename_i hmade
    obtain ⟨rfl, hnone, hsome⟩ := hmade
    obtain ⟨b, hb⟩ := Option.isSome_iff_exists.1 hsome
    have hpool := hs'.blank_pool b hb
    have hnew : ¬ h.Born (.block b) := (hr.fresh b hb).resolve_left fun hold ↦ by
      rw [hnone] at hold
      cases hold
    have hperm : (g.pools.get .uninit).pointers.Perm
        (b.pointer :: (h.pools.get .uninit).pointers) := by
      refine (List.perm_ext_iff_of_nodup (Pool.nodup_pointers _)
        (List.nodup_cons.2 ⟨fun hmem ↦ ?_, Pool.nodup_pointers _⟩)).2 fun p ↦ ?_
      · refine hnew (hs.born_of_isSome ?_)
        rw [Heap.mem_pointers_iff, ← hpool] at hmem
        exact hmem
      · rw [hr.mem_pointers_iff hs hs', List.mem_cons, or_comm, hb, Option.some.injEq, ← hpool]
        refine or_congr_left ⟨fun he ↦ ?_, fun he ↦ ?_⟩
        · rw [he]
        · rw [he]
    exact hperm.length_eq
  · rename_i hmade
    refine ((List.perm_ext_iff_of_nodup (Pool.nodup_pointers _) (Pool.nodup_pointers _)).2
      fun p ↦ ?_).length_eq
    rw [hr.mem_pointers_iff hs hs', or_iff_left_iff_imp]
    intro hblank
    -- this is no new block
    have hold : h.blank = some ⟨name, p⟩ := by
      cases hb : h.blank with
      | none => exact absurd ⟨hs'.blank_pool _ hblank, hb, by rw [hblank]; rfl⟩ hmade
      | some b => exact (hr.blank b hb).symm.trans hblank
    rw [Heap.mem_pointers_iff, content?_block.2 (hs.blank _ hold)]
    rfl

theorem inUse_eq (hr : h.Restored g) (hs : h.Sound xs) (hs' : g.Sound xs) (name : PoolName) :
    (g.pools.get name).inUse = (h.pools.get name).inUse +
      if name = .uninit ∧ h.blank = none ∧ g.blank.isSome then 1 else 0 := by
  have hused := hr.used_eq hs hs' name
  have hold := (hs.tidy name).balanced
  have hnew := (hs'.tidy name).balanced
  rw [Pool.inUse, Pool.inUse]
  omega

/-- The same handles are there. -/
theorem isSome_handle? (hr : h.Restored g) (hs : h.Sound xs) (i : HandleId) :
    (g.handle? i).isSome = (h.handle? i).isSome := by
  have hcontent (t : Heap Obj) : (t.handle? i).isSome = (t.content? (.handle i)).isSome := by
    simp [Heap.content?, Heap.cell?]
  rw [hcontent, hcontent]
  by_cases hborn : h.Born (.handle i)
  · rw [hr.content _ hborn]
  · have hnone : h.content? (.handle i) = none :=
      content?_eq_none (hs.holdsOf_of_not_born hborn).1
    rw [hnone, Option.isSome_none, Bool.eq_false_iff]
    intro hthere
    obtain ⟨b, -, he⟩ := List.mem_map.1 (hr.own _ hborn hthere)
    cases he

end Restored

end Heap
end ScriptHeap
