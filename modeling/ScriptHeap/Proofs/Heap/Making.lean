import ScriptHeap.Proofs.Datum
import ScriptHeap.Proofs.Heap.Exhausting

/-!
# Making cells

Operations that take and give up holds, look into the heap, or make new blocks, handles and lists.
None of them changes a cell that is there, so they keep a heap at any scene.

## What is here

* `Scene.At.hold`, `Scene.At.letGo`, `Scene.At.holding` — holds taken and given up.
* `Scene.At.place`, `Scene.At.bindNew`, `Scene.At.duplicateAll`, `Scene.At.newList` — new cells.
* `Scene.At.plant` — a datum brought into the heap.
-/

set_option autoImplicit false
namespace ScriptHeap

variable {Obj : Type}

/-! ## Looking -/

theorem Heap.look_eq {α : Type} {f : Heap Obj → Option α} {h : Heap Obj} {a : α}
    (hf : f h = some a) : Heap.look f h = .ok a h := by
  have hget : (get : HeapM Obj (Heap Obj)) h = .ok h h := rfl
  rw [Heap.look, bind_of_ok hget]
  simp only [hf]
  rfl

theorem Heap.look_of_none {α : Type} {f : Heap Obj → Option α} {h : Heap Obj} (hf : f h = none) :
    Heap.look f h = .error .dangling h := by
  have hget : (get : HeapM Obj (Heap Obj)) h = .ok h h := rfl
  rw [Heap.look, bind_of_ok hget]
  simp only [hf]
  rfl

/-- What an operation gives does not depend on what is held meanwhile. -/
theorem Heap.ok_of_holding {α : Type} {xs : List Hold} {act : HeapM Obj α} {h t : Heap Obj} {a : α}
    (hrun : Heap.holding xs act h = .ok a t) : act h = .ok a t :=
  ok_of_tryCatch hrun fun _ _ ↦ ⟨_, rfl⟩

theorem Heap.share_eq (e : HandleId) (h : Heap Obj) :
    Heap.share e h = .ok e (h.retainOne (.handle e)) :=
  rfl

theorem Heap.isSole_eq (b : BlockId) (h : Heap Obj) :
    Heap.isSole b h = .ok (h.holders? b == some 1) h :=
  rfl

/-- A block with a single holder, by its number of holders. -/
theorem Heap.holders?_eq_some_iff {h : Heap Obj} {b : BlockId} {n : Nat}
    (hb : (h.content? (.block b)).isSome) : h.holders? b = some n ↔ h.count (.block b) = n := by
  obtain ⟨k, hk⟩ := Option.isSome_iff_exists.1 hb
  obtain ⟨m, hm⟩ := Heap.exists_cell?_of_content? hk
  obtain ⟨nv, hnv, he⟩ := Option.map_eq_some_iff.1 hm
  cases he
  rw [Heap.holders?, hnv, Heap.count_eq hm, Option.map_some, Option.some.injEq]

/-- The data of members are brought in like any others. -/
theorem Heap.plantMembers_eq [HostObject Obj] (ms : List (String × Datum Obj)) :
    Heap.plantMembers ms = Heap.plantAll (ms.map (·.2)) := by
  induction ms with
  | nil => rfl
  | cons m ms ih =>
    obtain ⟨name, d⟩ := m
    rw [Heap.plantMembers, ih, List.map_cons, Heap.plantAll]

theorem Value.eq_uninit {v : Value Obj} (hv : v.isUninit = true) : v = .uninit := by
  cases v with
  | scalar s => cases s <;> first | rfl | cases hv
  | array l => cases hv
  | struct ns l => cases hv

theorem Value.not_block_mem_holds (v : Value Obj) (b : BlockId) : Hold.block b ∉ v.holds := by
  cases v <;> simp [Value.holds]

namespace Scene

variable [HostObject Obj] {c : Scene Obj} {made : List HandleId} {ys : List Hold} {h : Heap Obj}

omit [HostObject Obj] in
/-- A cell that is there and how often it is held. -/
theorem At.exists_cell? {x : Hold} {k : Content Obj} (hx : h.content? x = some k) :
    h.cell? x = some (h.count x, k) := by
  obtain ⟨n, hn⟩ := Heap.exists_cell?_of_content? hx
  rw [hn, Heap.count_eq hn]

theorem At.born {x : Hold} (ha : c.At made ys h) (hx : (h.content? x).isSome) : h.Born x :=
  ha.sound.born_of_isSome hx

/-- What was made later was not there before. -/
theorem At.not_born {x : Hold} (ha : c.At made ys h) (hx : ¬ h.Born x) : ¬ c.before.Born x :=
  fun hb ↦ hx (ha.onward.born x hb)

/-- A handle that is there has a block with a value. -/
theorem At.exists_value {i : HandleId} (ha : c.At made ys h)
    (hi : (h.content? (.handle i)).isSome) :
    ∃ b v, h.blockOf? i = some b ∧ h.valueAt? b = some v ∧ h.valueOf? i = some v :=
  ha.sound.exists_value hi

/-- The holds of a value that is there are there, too. -/
theorem At.isSome_of_value {b : BlockId} {v : Value Obj} (ha : c.At made ys h)
    (hb : h.valueAt? b = some v) : ∀ y ∈ v.holds, (h.content? y).isSome :=
  ha.sound.isSome_of_value hb

/-- The elements of a list are there. -/
theorem At.isSome_of_element {l : ListId} {is : List HandleId} (ha : c.At made ys h)
    (hl : h.elements? l = some is) : ∀ i ∈ is, (h.content? (.handle i)).isSome :=
  ha.sound.isSome_of_element hl

/-- A list that is there has elements, and they are there. -/
theorem At.exists_elements {l : ListId} (ha : c.At made ys h)
    (hl : (h.content? (.list l)).isSome) :
    ∃ is, h.elements? l = some is ∧ ∀ i ∈ is, (h.content? (.handle i)).isSome :=
  ha.sound.exists_elements hl

/-- The list of a value that is there. -/
theorem At.exists_elements_of_list? {v : Value Obj} {l : ListId} (ha : c.At made ys h)
    (hv : ∀ y ∈ v.holds, (h.content? y).isSome) (hl : v.list? = some l) :
    ∃ is, h.elements? l = some is ∧ ∀ i ∈ is, (h.content? (.handle i)).isSome := by
  exact ha.exists_elements (hv _ (Heap.list_mem_holds hl))

/-! ## Taking and giving up holds -/

omit [HostObject Obj] in
theorem content?_retainOne {x : Hold} {n : Nat} {k : Content Obj} (hx : h.cell? x = some (n, k))
    (y : Hold) : (h.retainOne x).content? y = h.content? y := by
  rw [Heap.content?, (Heap.changes_retainOne hx).cell]
  split
  · rename_i hy
    rw [hy, Heap.content?_eq hx]
    rfl
  · rfl

omit [HostObject Obj] in
theorem uses_retainOne_le {x : Hold} {n : Nat} {k : Content Obj} (hx : h.cell? x = some (n, k))
    (y : Hold) : (h.retainOne x).uses y ≤ h.uses y := by
  refine Heap.uses_le_of_changes (Heap.changes_retainOne hx) (fun z ↦ ?_) y
  rw [Heap.holdsOf_eq (Heap.content?_eq hx)]
  exact Nat.le_refl _

omit [HostObject Obj] in
theorem not_endless_retainOne {x : Hold} {n : Nat} {k : Content Obj}
    (hx : h.cell? x = some (n, k)) (hends : ¬ h.Endless) : ¬ (h.retainOne x).Endless := by
  refine Heap.not_endless_mono (fun z w hw ↦ ?_) hends
  rwa [Heap.holdsOf, content?_retainOne hx] at hw

theorem At.retainOne {x : Hold} (ha : c.At made ys h) (hx : (h.content? x).isSome) :
    c.At made (x :: ys) (h.retainOne x) ∧ h.Grows (h.retainOne x) (· = x) := by
  obtain ⟨k, hk⟩ := Option.isSome_iff_exists.1 hx
  have hcell := At.exists_cell? hk
  refine ⟨ha.quiet_of_uses_le (Heap.quiet_retainOne hcell) ?_
    (fun e ↦ uses_retainOne_le hcell _) (not_endless_retainOne hcell) fun b v hv ↦ .inl ?_,
    Heap.grows_retainOne hcell⟩
  · exact (ha.sound.retainOne hcell).perm List.perm_middle.symm
  · rwa [Heap.valueAt?_congr (content?_retainOne hcell _)] at hv

theorem At.hold {xs : List Hold} (ha : c.At made ys h) (hx : ∀ x ∈ xs, (h.content? x).isSome) :
    Runs (Heap.hold xs) h fun _ h' ↦ c.At made (xs ++ ys) h' ∧ h.Grows h' (· ∈ xs) := by
  induction xs generalizing h ys with
  | nil => exact ⟨(), h, rfl, ha, .refl h _⟩
  | cons x xs ih =>
    obtain ⟨ha₁, hg₁⟩ := ha.retainOne (hx x List.mem_cons_self)
    obtain ⟨_, h', hrun, ha', hg'⟩ :=
      ih ha₁ fun y hy ↦ hg₁.isSome (hx y (List.mem_cons_of_mem _ hy))
    refine ⟨(), h', hrun, ha'.perm List.perm_middle, ?_⟩
    refine (hg₁.mono fun y _ hy ↦ ?_).trans hg' fun y _ hy ↦ List.mem_cons_of_mem _ hy
    exact List.mem_cons.2 (.inl hy)

/-- A copy of a value, to be held by whom it is given. -/
theorem At.copy {v : Value Obj} (ha : c.At made ys h)
    (hv : ∀ y ∈ v.holds, (h.content? y).isSome) :
    Runs (Heap.copy v) h fun w h' ↦
      w = v ∧ c.At made (v.holds ++ ys) h' ∧ h.Grows h' (· ∈ v.holds) := by
  refine (ha.hold hv).andThen fun _ h' hh ↦ ?_
  exact .pure ⟨rfl, hh⟩

/-- A copy of a given value leaves alone what variables share with nobody. -/
theorem Sole.copied {v : Value Obj} {h' : Heap Obj} (hs : c.Sole h) (ha : c.At made ys h)
    (hv : c.Given ys v) (hg : h.Grows h' (· ∈ v.holds)) : c.Sole h' :=
  hs.grows hg fun _ _ b ht _ ↦ ⟨hs.not_given ha ht hv, v.not_block_mem_holds b⟩

theorem At.release {u : Option BlockId} {xs : List Hold} (ha : c.At made (xs ++ ys) h u) :
    c.At made ys (h.release xs) u ∧
      h.Released (h.release xs) (handleHolds made ++ (ys ++ c.outside)) := by
  have hr := Heap.released_release ha.sound_append
  refine ⟨ha.quiet_of_uses_le hr.quiet hr.sound (fun e ↦ hr.uses_le _) hr.not_endless
    fun b v hv ↦ .inl ?_, hr⟩
  exact Heap.content?_block.1 (hr.sub _ _ (Heap.content?_block.2 hv))

theorem At.letGo {xs : List Hold} (ha : c.At made (xs ++ ys) h) :
    Runs (Heap.letGo xs) h fun _ h' ↦
      c.At made ys h' ∧ h.Released h' (handleHolds made ++ (ys ++ c.outside)) :=
  ⟨(), h.release xs, rfl, ha.release⟩

/-- An operation during which something is held; a fault gives it up. -/
theorem At.holding {α : Type} {act : HeapM Obj α} {xs : List Hold} {good : α → Heap Obj → Prop}
    (hact : Ends act h good (c.Faults made (xs ++ ys))) :
    Ends (Heap.holding xs act) h good (c.Faults made ys) := by
  refine hact.tryCatch fun f h' hf ↦ ?_
  exact Ends.after rfl (.throw ⟨hf.1.release.1, hf.2.release xs⟩)

/-- The same where new handles are held. -/
theorem At.holdingMade {α : Type} {act : HeapM Obj α} {is : List HandleId}
    {good : α → Heap Obj → Prop} (hact : Ends act h good (c.Faults (is ++ made) ys)) :
    Ends (Heap.holding (handleHolds is) act) h good (c.Faults made ys) :=
  At.holding (hact.mono (fun _ _ ha ↦ ha) fun _ _ hf ↦ ⟨hf.1.settleAll, hf.2⟩)

/-- The same for an operation that may write. -/
theorem At.leadsHolding {α : Type} {act : HeapM Obj α} {xs : List Hold} {good : α → Heap Obj → Prop}
    (hact : c.Leads act h good (c.Faults made (xs ++ ys))) :
    c.Leads (Heap.holding xs act) h good (c.Faults made ys) :=
  fun hwhy ↦ At.holding (hact fun hu ↦ (hwhy hu).imp_right fun he ↦
    he.of_tryCatch fun _ t ↦ ⟨t.release xs, rfl⟩)

@[inherit_doc At.leadsHolding]
theorem At.leadsHoldingNew {α : Type} {act : HeapM Obj α} {e : HandleId}
    {good : α → Heap Obj → Prop} (hact : c.Leads act h good (c.Faults (e :: made) ys)) :
    c.Leads (Heap.holding [.handle e] act) h good (c.Faults made ys) :=
  At.leadsHolding (hact.mono (fun _ _ ha ↦ ha) fun _ _ hf ↦ ⟨hf.1.settle, hf.2⟩)

theorem At.releaseOne {x : Hold} (ha : c.At made (x :: ys) h) : c.At made ys (h.release [x]) := by
  have ha' : c.At made ([x] ++ ys) h := ha
  exact ha'.release.1

theorem At.holdingOne {α : Type} {act : HeapM Obj α} {x : Hold} {good : α → Heap Obj → Prop}
    (hact : Ends act h good (c.Faults made (x :: ys))) :
    Ends (Heap.holding [x] act) h good (c.Faults made ys) :=
  At.holding hact

theorem At.holdingNew {α : Type} {act : HeapM Obj α} {e : HandleId} {good : α → Heap Obj → Prop}
    (hact : Ends act h good (c.Faults (e :: made) ys)) :
    Ends (Heap.holding [.handle e] act) h good (c.Faults made ys) :=
  At.holdingOne (hact.mono (fun _ _ ha ↦ ha) fun _ _ hf ↦ ⟨hf.1.settle, hf.2⟩)

/-! ## New lists -/

/-- A new list of handles that are in no list yet. -/
theorem At.newList {is : List HandleId} (ha : c.At (is ++ made) ys h) :
    Runs (Heap.newList is) h fun l h' ↦
      c.At made (.list l :: ys) h' ∧ h.Grows h' (fun _ ↦ False) ∧ h'.elements? l = some is ∧
        h'.count (.list l) = 1 ∧ ¬ h.Born (.list l) := by
  obtain ⟨hnew, hc⟩ := Heap.changes_withList h is
  have hg := hc.grows ha.sound.tidy hnew
  have hcell := hc.cell (.list (h.withList is).1)
  rw [if_pos rfl] at hcell
  have huses (e : HandleId) (he : e ∉ is) :
      (h.withList is).2.uses (.handle e) = h.uses (.handle e) := by
    have hu := hc.uses (.handle e)
    rw [(ha.sound.holdsOf_of_not_born hnew).2] at hu
    simpa [Heap.newHolds, Content.holds, Heap.Sound.count_handleHolds,
      List.count_eq_zero_of_not_mem he] using hu
  have hdisjoint (e : HandleId) (he : e ∈ made) : e ∉ is :=
    fun hmem ↦ List.disjoint_of_nodup_append ha.nodup hmem he
  refine ⟨_, _, rfl, ha.quiet hg.quiet ?_ (List.nodup_append.1 ha.nodup).2.1 ?_ ?_ ?_
    (hc.not_endless_of_not_born ha.sound hnew fun y hy ↦ ?_) fun b v hv ↦ .inl hv, hg,
    Heap.content?_list.1 (Heap.content?_eq hcell), Heap.count_eq hcell, hnew⟩
  · refine (Heap.Sound.withList (ha.sound.perm ?_) (List.nodup_append.1 ha.nodup).1 ?_).perm
      List.perm_middle.symm
    · rw [handleHolds, List.map_append, List.append_assoc]
      rfl
    · exact fun i hi ↦ ha.loose i (List.mem_append_left _ hi)
  · exact fun e he ↦ ha.fresh e (List.mem_append_right _ he)
  · exact fun e he ↦ (huses e (hdisjoint e he)).trans (ha.loose e (List.mem_append_right _ he))
  · intro e he h0
    refine (huses e fun hmem ↦ ?_).trans h0
    exact ha.fresh e (List.mem_append_left _ hmem) he
  · obtain ⟨i, hi, rfl⟩ := List.mem_map.1 hy
    exact ha.born (ha.isSome_of_made (List.mem_append_left _ hi))

/-! ## New blocks -/

variable {v : Value Obj}

/-- Where no object says that it is no value, only no value goes to the pool for that. -/
theorem pool_ne_uninit (hkind : ∀ o : Obj, HostObject.kind o ≠ .uninit) (hv : v ≠ .uninit) :
    PoolName.ofKind v.kind ≠ .uninit := by
  cases v with
  | scalar s =>
    cases s with
    | object o =>
      have hne := hkind o.object
      cases hk : HostObject.kind o.object <;> simp_all [Value.kind, Scalar.kind, PoolName.ofKind]
    | uninit => exact absurd rfl hv
    | _ => simp [Value.kind, Scalar.kind, PoolName.ofKind]
  | array l => simp [Value.kind, PoolName.ofKind]
  | struct names l => simp [Value.kind, PoolName.ofKind]

omit [HostObject Obj] in
theorem get_eq (h : Heap Obj) : (get : HeapM Obj (Heap Obj)) h = .ok h h :=
  rfl

theorem allocate_of_exhausted
    (hfull : (h.pools.get (PoolName.ofKind v.kind)).isExhausted = true) :
    Heap.allocate v h = .error (.exhausted (PoolName.ofKind v.kind)
      (h.pools.get (PoolName.ofKind v.kind)).capacity) (h.release v.holds) := by
  refine (bind_of_ok (get_eq h)).trans ?_
  rw [if_pos hfull]
  rfl

theorem allocate_of_free
    (hfull : (h.pools.get (PoolName.ofKind v.kind)).isExhausted = false) :
    Heap.allocate v h = .ok (h.filled (PoolName.ofKind v.kind) v).1
      (h.filled (PoolName.ofKind v.kind) v).2 := by
  refine (bind_of_ok (get_eq h)).trans ?_
  rw [if_neg (by simp [hfull])]
  rfl

theorem At.allocate (ha : c.At made (v.holds ++ ys) h) (hm : c.regular → h.Matched v)
    (hset : c.single → v ≠ .uninit) :
    Ends (Heap.allocate v) h
      (fun b h' ↦ c.At made (.block b :: ys) h' ∧ h.Grows h' (fun _ ↦ False) ∧
        h'.valueAt? b = some v ∧ h'.count (.block b) = 1 ∧ ¬ h.Born (.block b) ∧
        h'.blank = h.blank ∧ b.pool = PoolName.ofKind v.kind)
      (c.Faults made ys) := by
  cases hfull : (h.pools.get (PoolName.ofKind v.kind)).isExhausted with
  | true =>
    exact Ends.of_error (allocate_of_exhausted hfull)
      ⟨ha.release.1, h, ha.onward, ha.shown, hfull, rfl, v.holds, rfl⟩
  | false =>
    obtain ⟨hnew, hc⟩ := Heap.changes_filled ha.sound.tidy hfull v
    have hg := hc.grows ha.sound.tidy hnew
    have hcell := hc.cell (.block (h.filled (PoolName.ofKind v.kind) v).1)
    rw [if_pos rfl] at hcell
    have hvalues (b : BlockId) (w : Value Obj)
        (hw : (h.filled (PoolName.ofKind v.kind) v).2.valueAt? b = some w) :
        h.valueAt? b = some w ∨ c.Admits h (h.filled (PoolName.ofKind v.kind) v).2 b w := by
      rw [← Heap.content?_block, Heap.content?, hc.cell] at hw
      split at hw
      · rename_i hb
        cases hw
        cases hb
        refine .inr ⟨hm, fun hone hblank ↦ ?_⟩
        rcases hblank with hv | hpool
        · exact absurd hv (hset hone)
        · exact absurd hpool (pool_ne_uninit (c.single_kind hone) (hset hone))
      · exact .inl (Heap.content?_block.1 hw)
    refine .of_ok (allocate_of_free hfull) ⟨ha.quiet_of_uses_le hg.quiet ?_ (fun e ↦ ?_)
      (hc.not_endless_of_not_born ha.sound hnew fun y hy ↦ ?_) hvalues, hg, ?_,
      Heap.count_eq hcell, hnew, hc.blank, rfl⟩
    · exact (ha.sound_append.filled hfull).perm List.perm_middle.symm
    · refine Nat.le_of_add_le_add_right (Nat.le_of_eq ((hc.uses _).trans ?_))
      rw [(ha.sound.holdsOf_of_not_born hnew).2]
      exact congrArg _ (Heap.Sound.count_handle_holds v e)
    · refine ha.born (ha.isSome_of_mem ?_)
      exact List.mem_append_left _ (List.mem_append_left _ hy)
    · exact Heap.content?_block.1 (Heap.content?_eq hcell)

/-- The heap with a new block for variables without a value, which it keeps. -/
theorem At.firstBlank (ha : c.At made ys h) (hnone : h.blank = none)
    (hfull : (h.pools.get .uninit).isExhausted = false) {b : BlockId} {h₁ : Heap Obj}
    (hfilled : h.filled .uninit .uninit = (b, h₁)) :
    c.At made (.block b :: ys) { h₁.retainOne (.block b) with blank := some b } ∧
      h.Grows { h₁.retainOne (.block b) with blank := some b } h.Unset ∧
      (h₁.retainOne (.block b)).valueAt? b = some .uninit := by
  obtain ⟨hnew, hc⟩ := Heap.changes_filled ha.sound.tidy hfull .uninit
  have hs := Heap.Sound.filled (v := .uninit) ha.sound hfull
  have hpool : (h.filled .uninit .uninit).1.pool = .uninit := rfl
  rw [hfilled] at hnew hc hs hpool
  have hcell : h₁.cell? (.block b) = some (1, .value .uninit) := by
    rw [hc.cell, if_pos rfl]
  have hb : h₁.valueAt? b = some .uninit := Heap.content?_block.1 (Heap.content?_eq hcell)
  have hc₂ := Heap.changes_retainOne hcell
  have hb₂ : (h₁.retainOne (.block b)).valueAt? b = some .uninit := by
    rwa [Heap.valueAt?_congr (content?_retainOne hcell _)]
  have hnone₂ : (h₁.retainOne (.block b)).blank = none := by
    rw [hc₂.blank, hc.blank, hnone]
  have hg : h.Grows (h₁.retainOne (.block b)) h.Unset :=
    ((hc.grows ha.sound.tidy hnew).mono fun _ _ hf ↦ hf.elim).trans (Heap.grows_retainOne hcell)
      fun x hx he ↦ absurd (he ▸ ha.born hx) hnew
  refine ⟨ha.quiet_of_uses_le (hg.withBlank hnone _).quiet ?_ (fun e ↦ ?_) (fun hends ↦ ?_)
    fun b' v hv ↦ ?_, hg.withBlank hnone _, hb₂⟩
  · exact ((hs.retainOne hcell).withBlank hnone₂ hb₂ hpool).perm List.perm_middle.symm
  · rw [Heap.uses_withBlank hnone₂, List.count_singleton, if_neg (by simp), Nat.add_zero]
    refine (uses_retainOne_le hcell _).trans (Nat.le_of_add_le_add_right (Nat.le_of_eq
      ((hc.uses _).trans ?_)))
    rw [(ha.sound.holdsOf_of_not_born hnew).2]
    rfl
  · have hends₁ := hc.not_endless_of_not_born ha.sound hnew (fun y hy ↦ absurd hy List.not_mem_nil)
      hends
    refine Heap.not_endless_mono (fun z w hw ↦ ?_) (not_endless_retainOne hcell hends₁)
    exact hw
  · by_cases hbb : b' = b
    · subst hbb
      obtain rfl := Option.some.inj (hb₂.symm.trans hv)
      exact .inr ⟨fun _ ↦ Heap.matched_scalar _, fun _ _ ↦ rfl⟩
    · have hv₂ : (h₁.retainOne (.block b)).content? (.block b') = some (.value v) :=
        Heap.content?_block.2 hv
      rw [content?_retainOne hcell, hc.content?_of_ne fun he ↦ hbb (Hold.block.inj he)] at hv₂
      exact .inl (Heap.content?_block.1 hv₂)

theorem At.blankBlock (ha : c.At made ys h) :
    Ends (Heap.blankBlock) h
      (fun b h' ↦ c.At made (.block b :: ys) h' ∧ h.Grows h' h.Unset ∧
        h'.valueAt? b = some .uninit)
      (c.Faults made ys) := by
  have hget : (get : HeapM Obj (Heap Obj)) h = .ok h h := rfl
  rw [Heap.blankBlock]
  refine Ends.after hget ?_
  cases hblank : h.blank with
  | some b =>
    have hb := Heap.content?_block.2 (ha.sound.blank b hblank)
    have hmem (x : Hold) (hx : x ∈ [Hold.block b]) : x = .block b := List.mem_singleton.1 hx
    refine (ha.hold fun x hx ↦ ?_).bind fun _ h' hh ↦ .pure ⟨hh.1, ?_, ?_⟩
    · rw [hmem x hx, hb]
      rfl
    · exact hh.2.mono fun x _ hx ↦ hmem x hx ▸ hb
    · exact Heap.content?_block.1 (hh.2.content _ _ hb)
  | none =>
    cases hfull : (h.pools.get .uninit).isExhausted with
    | true =>
      have hfault : Ends (Heap.allocate .uninit) h (fun _ _ ↦ False) (c.Faults made ys) :=
        .of_error (allocate_of_exhausted (v := .uninit) hfull)
          ⟨ha, h, ha.onward, ha.shown, hfull, rfl, [], rfl⟩
      exact hfault.bind fun _ _ hf ↦ hf.elim
    | false =>
      obtain ⟨ha', hg, hb⟩ := ha.firstBlank hblank hfull rfl
      refine Ends.after (allocate_of_free (v := .uninit) hfull) (Ends.after rfl (Ends.after rfl ?_))
      exact .pure ⟨ha', hg, hb⟩

/-- A block for a value. -/
theorem At.place (ha : c.At made (v.holds ++ ys) h) (hm : c.regular → h.Matched v) :
    Ends (Heap.place v) h
      (fun b h' ↦ c.At made (.block b :: ys) h' ∧ h.Grows h' h.Unset ∧ h'.valueAt? b = some v)
      (c.Faults made ys) := by
  rw [Heap.place]
  split
  · rename_i hv
    obtain rfl := Value.eq_uninit hv
    exact At.blankBlock ha
  · rename_i hv
    have hset (_ : c.single) : v ≠ .uninit := by
      rintro rfl
      exact hv rfl
    refine (ha.allocate hm hset).mono (fun b h' hb ↦ ?_) fun _ _ hf ↦ hf
    exact ⟨hb.1, hb.2.1.mono fun _ _ hf ↦ hf.elim, hb.2.2.1⟩

/-! ## New handles -/

/-- A new handle for a block. -/
theorem At.newHandle {b : BlockId} (ha : c.At made (.block b :: ys) h) :
    Runs (Heap.newHandle b) h fun i h' ↦
      c.At (i :: made) ys h' ∧ h.Grows h' (fun _ ↦ False) ∧ h'.blockOf? i = some b ∧
        ¬ h.Born (.handle i) := by
  obtain ⟨w, hw⟩ := Heap.exists_valueAt?_of_isSome (ha.isSome_of_mem List.mem_cons_self)
  refine Runs.after (Heap.look_eq hw) ?_
  obtain ⟨hnew, hc⟩ := Heap.changes_addHandle h b w.kind
  have hg := hc.grows ha.sound.tidy hnew
  have hcell := hc.cell (.handle (h.addHandle b w.kind).1)
  rw [if_pos rfl] at hcell
  have hold := ha.sound.holdsOf_of_not_born hnew
  have huses (e : HandleId) : (h.addHandle b w.kind).2.uses (.handle e) = h.uses (.handle e) := by
    have hu := hc.uses (.handle e)
    rw [hold.2] at hu
    simpa [Heap.newHolds, Content.holds] using hu
  refine ⟨_, _, rfl, ha.quiet hg.quiet ?_ ?_ ?_ ?_ (fun e _ h0 ↦ (huses e).trans h0)
    (hc.not_endless_of_not_born ha.sound hnew fun y hy ↦ ?_) fun b v hv ↦ .inl hv, hg,
    Heap.content?_handle.1 (Heap.content?_eq hcell), hnew⟩
  · exact ((ha.sound.perm List.perm_middle).addHandle w.kind)
  · refine List.nodup_cons.2 ⟨fun hmem ↦ ?_, ha.nodup⟩
    exact hnew (ha.born (ha.isSome_of_made hmem))
  · intro e he
    rcases List.mem_cons.1 he with rfl | he
    · exact ha.not_born hnew
    · exact ha.fresh e he
  · intro e he
    refine (huses e).trans ?_
    rcases List.mem_cons.1 he with rfl | he
    · exact ha.sound.uses_of_not_born hnew
    · exact ha.loose e he
  · obtain rfl : y = .block b := List.mem_singleton.1 hy
    exact ha.born (ha.isSome_of_mem List.mem_cons_self)

/-- A new handle for a value. -/
theorem At.bindNew (ha : c.At made (v.holds ++ ys) h) (hm : c.regular → h.Matched v) :
    Ends (Heap.bindNew v) h
      (fun i h' ↦ c.At (i :: made) ys h' ∧ h.Grows h' h.Unset ∧ h'.valueOf? i = some v ∧
        ¬ h.Born (.handle i))
      (c.Faults made ys) := by
  refine (ha.place hm).bind fun b h₁ ⟨ha₁, hg₁, hb⟩ ↦ ?_
  refine Runs.ends (ha₁.newHandle.mono fun i h₂ ⟨ha₂, hg₂, hi, hnew⟩ ↦ ?_)
  refine ⟨ha₂, hg₁.trans hg₂ fun _ _ hf ↦ hf.elim, ?_, fun hn ↦ hnew (hg₁.quiet.born _ hn)⟩
  rw [Heap.valueOf?, hi, Option.bind_some, hg₂.valueAt? hb]

/-- A new handle without a value. -/
theorem At.newUninit (ha : c.At made ys h) :
    Ends Heap.newUninit h
      (fun i h' ↦ c.At (i :: made) ys h' ∧ h.Grows h' h.Unset ∧ h'.valueOf? i = some .uninit ∧
        ¬ h.Born (.handle i))
      (c.Faults made ys) := by
  refine ha.blankBlock.bind fun b h₁ ⟨ha₁, hg₁, hb⟩ ↦ ?_
  refine Runs.ends (ha₁.newHandle.mono fun i h₂ ⟨ha₂, hg₂, hi, hnew⟩ ↦ ?_)
  refine ⟨ha₂, hg₁.trans hg₂ fun _ _ hf ↦ hf.elim, ?_, fun hn ↦ hnew (hg₁.quiet.born _ hn)⟩
  rw [Heap.valueOf?, hi, Option.bind_some, hg₂.valueAt? hb]

/-- A hold of the block that a handle has. -/
theorem At.snapshot {i : HandleId} (ha : c.At made ys h) (hi : (h.content? (.handle i)).isSome) :
    Runs (Heap.snapshot i) h fun b h' ↦
      c.At made (.block b :: ys) h' ∧ h.Grows h' (· = .block b) ∧ h.blockOf? i = some b ∧
        h.count (.block b) < h'.count (.block b) := by
  obtain ⟨b, v, hb, hv, -⟩ := ha.exists_value hi
  refine Runs.after (Heap.look_eq hb) (Runs.after rfl (.pure ?_))
  have hthere : (h.content? (.block b)).isSome :=
    Heap.isSome_of_valueAt? hv
  obtain ⟨ha₁, hg₁⟩ := ha.retainOne hthere
  exact ⟨ha₁, hg₁, hb, Heap.count_lt_retainOne hthere⟩

/-- A new handle that shares the block of another. -/
theorem At.duplicate {i : HandleId} (ha : c.At made ys h) (hi : (h.content? (.handle i)).isSome) :
    Runs (Heap.duplicate i) h fun j h' ↦
      c.At (j :: made) ys h' ∧
        (∃ b, h.blockOf? i = some b ∧ h.Grows h' (· = .block b) ∧
          h.count (.block b) < h'.count (.block b)) ∧
        h'.blockOf? j = h.blockOf? i ∧ ¬ h.Born (.handle j) := by
  obtain ⟨b, v, hb, hv, -⟩ := ha.exists_value hi
  have hthere : (h.content? (.block b)).isSome :=
    Heap.isSome_of_valueAt? hv
  obtain ⟨ha₁, hg₁⟩ := ha.retainOne hthere
  have hmore := Heap.count_lt_retainOne hthere
  refine Runs.after (Heap.look_eq hb) (Runs.after rfl ?_)
  refine ha₁.newHandle.mono fun j h₂ ⟨ha₂, hg₂, hj, hnew⟩ ↦ ?_
  refine ⟨ha₂, ⟨b, hb, hg₁.trans hg₂ fun _ _ hf ↦ hf.elim, ?_⟩, hj.trans hb.symm,
    fun hn ↦ hnew (hg₁.quiet.born _ hn)⟩
  have hle := hg₂.le (.block b)
  omega

/-- New handles that share the blocks of others, one by one. -/
theorem At.duplicateAll {is : List HandleId} (ha : c.At made ys h)
    (his : ∀ i ∈ is, (h.content? (.handle i)).isSome) :
    Runs (Heap.duplicateAll is) h fun js h' ↦
      c.At (js ++ made) ys h' ∧
        h.Grows h' (fun x ↦ ∃ i ∈ is, ∃ b, h.blockOf? i = some b ∧ x = .block b) ∧
        List.Forall₂ (fun i j ↦ ∃ b, h.blockOf? i = some b ∧ h'.blockOf? j = some b) is js ∧
        (∀ j ∈ js, ¬ h.Born (.handle j)) ∧
        ∀ j ∈ js, ∀ b, h'.blockOf? j = some b → h.count (.block b) < h'.count (.block b) := by
  induction is generalizing h made with
  | nil =>
    exact .pure ⟨ha, .refl h _, .nil, fun j hj ↦ absurd hj List.not_mem_nil,
      fun j hj ↦ absurd hj List.not_mem_nil⟩
  | cons i is ih =>
    rw [Heap.duplicateAll, List.mapM_cons]
    refine (ha.duplicate (his i List.mem_cons_self)).andThen
      fun j h₁ ⟨ha₁, ⟨b, hb, hg₁, hmore⟩, hj, hnew⟩ ↦ ?_
    have his₁ (k : HandleId) (hk : k ∈ is) := hg₁.isSome (his k (List.mem_cons_of_mem _ hk))
    refine (ih ha₁ his₁).andThen fun js h₂ ⟨ha₂, hg₂, hjs, hnews, hmores⟩ ↦ ?_
    refine .pure ⟨ha₂.permMade List.perm_middle, ?_, .cons ?_ ?_, fun k hk ↦ ?_,
      fun k hk b' hb' ↦ ?_⟩
    · refine (hg₁.mono fun x _ hx ↦ ?_).trans hg₂ fun x _ ⟨k, hk, b', hb', hx⟩ ↦ ?_
      · exact ⟨i, List.mem_cons_self, b, hb, hx⟩
      · obtain ⟨b'', _, hb'', -⟩ := ha.exists_value (his k (List.mem_cons_of_mem _ hk))
        have heq : b'' = b' := Option.some.inj ((hg₁.blockOf? hb'').symm.trans hb')
        exact ⟨k, List.mem_cons_of_mem _ hk, b'', hb'', heq ▸ hx⟩
    · exact ⟨b, hb, hg₂.blockOf? (hj.trans hb)⟩
    · refine Heap.forall₂_imp_of_mem (fun k hk k' ⟨b', hb', hk'⟩ ↦ ?_) hjs
      obtain ⟨b'', _, hb'', -⟩ := ha.exists_value (his k (List.mem_cons_of_mem _ hk))
      exact ⟨b', hb''.trans ((hg₁.blockOf? hb'').symm.trans hb'), hk'⟩
    · rcases List.mem_cons.1 hk with rfl | hk
      · exact hnew
      · exact fun hn ↦ hnews k hk (hg₁.quiet.born _ hn)
    · rcases List.mem_cons.1 hk with rfl | hk
      · obtain rfl := Option.some.inj ((hg₂.blockOf? (hj.trans hb)).symm.trans hb')
        exact hmore.trans_le (hg₂.le _)
      · exact (hg₁.le _).trans_lt (hmores k hk b' hb')

/-! ## Data brought into the heap -/

/-- New handles for values, after those already made. -/
theorem At.bindAllAfter (first : List HandleId) {vs : List (Value Obj)}
    (ha : c.At (first ++ made) (vs.flatMap Value.holds ++ ys) h)
    (hm : c.regular → ∀ v ∈ vs, h.Matched v) :
    Ends (Heap.bindAllAfter first vs) h
      (fun is h' ↦ c.At (is ++ made) ys h' ∧ h.Grows h' h.Unset ∧
        is.length = first.length + vs.length)
      (c.Faults made ys) := by
  induction vs generalizing h first with
  | nil =>
    refine .pure ⟨ha.permMade (.append_right _ (List.reverse_perm _).symm), .refl h _, ?_⟩
    exact List.length_reverse
  | cons v vs ih =>
    rw [List.flatMap_cons, List.append_assoc] at ha
    have hbind := ha.bindNew fun hr ↦ hm hr v List.mem_cons_self
    refine Ends.bind (Ends.tryCatch hbind fun f h₁ ⟨ha₁, hf⟩ ↦ ?_) fun i h₁ ⟨ha₁, hg₁, _⟩ ↦ ?_
    · have ha₂ := ha₁.settleAll.release.1
      refine Ends.after rfl (Ends.after rfl (.throw ⟨ha₂.release.1, ?_⟩))
      exact (hf.release _).release _
    · have hm₁ (hr : c.regular) (w : Value Obj) (hw : w ∈ vs) : h₁.Matched w :=
        hg₁.matched (hm hr w (List.mem_cons_of_mem _ hw))
      refine (ih (i :: first) ha₁ hm₁).mono (fun is h₂ ⟨ha₂, hg₂, hlength⟩ ↦ ?_) fun _ _ hf ↦ hf
      refine ⟨ha₂, hg₁.trans_unset hg₂, ?_⟩
      rw [hlength, List.length_cons, List.length_cons]
      omega

/-- What an operation leaves that gives a value for the caller to hold. -/
def Fresh (c : Scene Obj) (made : List HandleId) (ys : List Hold) (h : Heap Obj)
    (v : Value Obj) (h' : Heap Obj) : Prop :=
  c.At made (v.holds ++ ys) h' ∧ h.Grows h' h.Unset ∧ (c.regular → h'.Matched v)

/-- An operation that gives a value for the caller to hold. -/
def Gives (c : Scene Obj) (act : HeapM Obj (Value Obj)) : Prop :=
  ∀ {made ys h}, c.At made ys h → Ends act h (c.Fresh made ys h) (c.Faults made ys)

theorem At.newArray {vs : List (Value Obj)} (ha : c.At made (vs.flatMap Value.holds ++ ys) h)
    (hm : c.regular → ∀ v ∈ vs, h.Matched v) :
    Ends (Heap.newArray vs) h (c.Fresh made ys h) (c.Faults made ys) := by
  refine Ends.bind (At.bindAllAfter [] ha hm) fun is h₁ ⟨ha₁, hg₁, _⟩ ↦ ?_
  refine ha₁.newList.bind fun l h₂ ⟨ha₂, hg₂, _⟩ ↦ ?_
  exact .pure ⟨ha₂, hg₁.trans hg₂ fun _ _ hf ↦ hf.elim, fun _ ↦ Heap.matched_array l⟩

theorem At.newStruct {names : List String} {vs : List (Value Obj)}
    (ha : c.At made (vs.flatMap Value.holds ++ ys) h) (hm : c.regular → ∀ v ∈ vs, h.Matched v)
    (hnames : c.regular → vs.length = names.length) :
    Ends (Heap.newStruct names vs) h (c.Fresh made ys h) (c.Faults made ys) := by
  refine Ends.bind (At.bindAllAfter [] ha hm) fun is h₁ ⟨ha₁, hg₁, hlength⟩ ↦ ?_
  refine ha₁.newList.bind fun l h₂ ⟨ha₂, hg₂, hl, _⟩ ↦ .pure ⟨ha₂, ?_, fun hr ↦ ?_⟩
  · exact hg₁.trans hg₂ fun _ _ hf ↦ hf.elim
  · rintro _ _ ⟨⟩
    rw [List.length_nil, Nat.zero_add] at hlength
    exact ⟨is, hl, hlength.trans (hnames hr)⟩

/-- Data brought in one after another, when each can be. -/
theorem At.plantAll {ds : List (Datum Obj)} (hds : ∀ d ∈ ds, c.Gives (Heap.plant d))
    (ha : c.At made ys h) :
    Ends (Heap.plantAll ds) h
      (fun vs h' ↦ c.At made (vs.flatMap Value.holds ++ ys) h' ∧ h.Grows h' h.Unset ∧
        (c.regular → ∀ v ∈ vs, h'.Matched v) ∧ vs.length = ds.length)
      (c.Faults made ys) := by
  induction ds generalizing h ys with
  | nil => exact .pure ⟨ha, .refl h _, fun _ v hv ↦ absurd hv List.not_mem_nil, rfl⟩
  | cons d ds ih =>
    rw [Heap.plantAll]
    refine (hds d List.mem_cons_self ha).bind fun v h₁ ⟨ha₁, hg₁, hm₁⟩ ↦ ?_
    have hrest := ih (fun e he ↦ hds e (List.mem_cons_of_mem _ he)) ha₁
    refine (At.holding hrest).bind fun vs h₂ ⟨ha₂, hg₂, hm₂, hlength⟩ ↦
      .pure ⟨ha₂.perm ?_, hg₁.trans_unset hg₂, fun hr w hw ↦ ?_, congrArg (· + 1) hlength⟩
    · rw [List.flatMap_cons, List.append_assoc]
      exact List.perm_append_comm_assoc _ _ _
    · rcases List.mem_cons.1 hw with rfl | hw
      · exact hg₂.matched (hm₁ hr)
      · exact hm₂ hr w hw

/-- **A datum brought into the heap.** -/
theorem At.plant (d : Datum Obj) (hnamed : c.regular → d.Named) : c.Gives (Heap.plant d) := by
  induction d using Datum.inductionOn with
  | h d ih =>
    have helement (e : Datum Obj) (he : e ∈ d.elements) : c.Gives (Heap.plant e) :=
      ih e he fun hr ↦ (Datum.named_iff.1 (hnamed hr)).2 e he
    intro made ys h ha
    cases d with
    | scalar s => exact .pure ⟨ha, .refl h _, fun _ ↦ Heap.matched_scalar s⟩
    | array ds =>
      rw [Heap.plant]
      refine (At.plantAll helement ha).bind fun vs h₁ ⟨ha₁, hg₁, hm₁, _⟩ ↦ ?_
      exact (ha₁.newArray hm₁).mono (fun v h₂ hh ↦ ⟨hh.1, hg₁.trans_unset hh.2.1, hh.2.2⟩)
        fun _ _ hf ↦ hf
    | struct ms ds =>
      rw [Heap.plant, Heap.plantMembers_eq]
      refine (At.plantAll (fun e he ↦ helement e (List.mem_append_left _ he)) ha).bind
        fun vs h₁ ⟨ha₁, hg₁, hm₁, hvs⟩ ↦ ?_
      refine (At.holding
        (At.plantAll (fun e he ↦ helement e (List.mem_append_right _ he)) ha₁)).bind
        fun ws h₂ ⟨ha₂, hg₂, hm₂, hws⟩ ↦ ?_
      have ha₃ : c.At made ((vs ++ ws).flatMap Value.holds ++ ys) h₂ := by
        refine ha₂.perm ?_
        rw [List.flatMap_append, List.append_assoc]
        exact List.perm_append_comm_assoc _ _ _
      have hm₃ (hr : c.regular) (v : Value Obj) (hv : v ∈ vs ++ ws) : h₂.Matched v :=
        (List.mem_append.1 hv).elim (fun hv ↦ hg₂.matched (hm₁ hr v hv)) (hm₂ hr v)
      have hlength (hr : c.regular) : (vs ++ ws).length = (ms.map (·.1)).length := by
        obtain rfl := (Datum.named_iff.1 (hnamed hr)).1 ms ds rfl
        rw [List.length_append, hvs, hws, List.length_map, List.length_map, List.length_nil,
          Nat.add_zero]
      refine (ha₃.newStruct hm₃ hlength).mono (fun v h₃ hh ↦ ⟨hh.1, ?_, hh.2.2⟩) fun _ _ hf ↦ hf
      exact (hg₁.trans_unset hg₂).trans_unset hh.2.1

end Scene
end ScriptHeap
