import ScriptHeap.Proofs.Heap.Clearing

/-!
# Writing

A write to a handle goes to a block that is the handle's own.  If the block of the handle is not
shared and the kind stays the same, the value in it is exchanged; otherwise the handle gets another
block.

## What is here

* `Scene.At.setValue`, `Scene.At.assign`, `Scene.At.overwrite`, `Scene.At.increment` — writes to a
  handle.
* `Scene.At.setValue_shows`, `Scene.At.assign_shows` — what the handle shows then.
-/

set_option autoImplicit false
namespace ScriptHeap.Scene

variable {Obj : Type} [HostObject Obj] {c : Scene Obj} {made : List HandleId} {ys : List Hold}
  {h : Heap Obj} {i : HandleId}

/-- The block of a handle has as many holders as before. -/
def FullAt (c : Scene Obj) (h : Heap Obj) (i : HandleId) : Prop :=
  ∀ b, h.blockOf? i = some b → c.Full h (.block b)

theorem Calm.fullAt (hc : c.Calm h) (i : HandleId) : c.FullAt h i :=
  fun b _ ↦ hc.full (.block b)

theorem FullAt.adds {h' : Heap Obj} {b : BlockId} (hf : c.FullAt h i) (ha : c.At made ys h)
    (hi : h.blockOf? i = some b) (hadds : h.Adds h') : c.FullAt h' i := by
  intro b' hb'
  have hborn : h.Born (.handle i) := ha.born (Heap.isSome_of_blockOf? hi)
  have hold := hadds.quiet.content _ hborn _ (Heap.content?_handle.2 hb')
  exact (hf b' (Heap.content?_handle.1 hold)).adds hadds

/-- What says of itself that it is no value is none. -/
theorem uninit_of_kind {v w : Value Obj} (hone : c.single) (hkind : v.kind = w.kind)
    (hw : w = .uninit) : v = .uninit := by
  subst hw
  cases v with
  | scalar s =>
    cases s with
    | uninit => rfl
    | object o => exact absurd hkind (c.single_kind hone o.object)
    | _ => cases hkind
  | _ => cases hkind

/-- A write to a handle.  If it comes to an end it must not be seen from outside; if it faults,
nothing has happened. -/
theorem At.setValue {v : Value Obj} (ha : c.At made (v.holds ++ ys) h)
    (hm : c.regular → h.Matched v) (hheld : Hold.handle i ∈ ys ++ c.outside)
    (hfull : c.FullAt h i) (hwrites : ¬ c.reads)
    (hclear : c.Clears h v.holds (.handle i)) (hloose : ∀ l, ¬ c.tied i l) :
    c.Leads (Heap.setValue i v) h (fun _ h' ↦ c.Free h (.handle i) → c.At made ys h')
      (c.Faults made ys) := by
  have hheld' : Hold.handle i ∈ (v.holds ++ ys) ++ c.outside := by
    rw [List.append_assoc]
    exact List.mem_append_right _ hheld
  obtain ⟨b, old, hi, hb, -⟩ := ha.exists_value (ha.isSome_of_mem hheld')
  have hsome : (h.content? (.block b)).isSome :=
    Heap.isSome_of_valueAt? hb
  rw [Heap.setValue]
  refine Leads.after (Heap.look_eq hi) (Leads.after (Heap.look_eq hb) ?_)
  refine Leads.after (Heap.isSole_eq b h) ?_
  split
  · rename_i hcond
    obtain ⟨hsole, hkind⟩ := Bool.and_eq_true_iff.1 hcond
    have hcount := (Heap.holders?_eq_some_iff hsome).1 (beq_iff_eq.1 hsole)
    refine Leads.after rfl (.of_ok rfl fun hreads hfree ↦ ?_)
    have ho := ha.owned hfree hi hb hcount (hfull b hi)
    exact (At.withValue ha ho (fun y ↦ Nat.add_comm _ _) (fun hu ↦ absurd (hreads hu) hwrites)
      (fun hr _ ↦ hm hr) (hclear.block ha hi hcount (Value.not_block_mem_holds v b))
      (fun hone ↦ uninit_of_kind hone (beq_iff_eq.1 hkind))
      fun j l ht hj ↦ (hloose l (ha.eq_of_block hi hcount hj ▸ ht)).elim).1.release.1
  · refine Leads.bind (ha.place hm) fun b' h₁ ⟨ha₁, hg₁, hb'⟩ ↦ ?_
    refine .of_ok (Heap.rebind_eq (hg₁.blockOf? hi)) fun hreads hfree ↦ ?_
    exact (ha₁.rebound hheld (hg₁.blockOf? hi) hb' (ha.free_mono hfree hg₁.onward)
      (fun hu ↦ absurd (hreads hu) hwrites) (hclear.quiet ha (fun y hy ↦ ha.isSome_of_mem
        (List.mem_append_left _ (List.mem_append_left _ hy))) hg₁.quiet)
      fun l ht ↦ (hloose l ht).elim).1

@[inherit_doc At.setValue]
theorem At.assign {v : Value Obj} (ha : c.At made ys h)
    (hv : ∀ y ∈ v.holds, (h.content? y).isSome) (hm : c.regular → h.Matched v)
    (hheld : Hold.handle i ∈ ys ++ c.outside) (hfull : c.FullAt h i) (hwrites : ¬ c.reads)
    (hclear : c.Clears h v.holds (.handle i)) (hloose : ∀ l, ¬ c.tied i l) :
    c.Leads (Heap.assign i v) h (fun _ h' ↦ c.Free h (.handle i) → c.At made ys h')
      (c.Faults made ys) := by
  obtain ⟨b, _, hi, -⟩ := ha.exists_value (ha.isSome_of_mem hheld)
  refine Leads.bind (ha.copy hv).ends fun w h₁ ⟨hw, ha₁, hg₁⟩ ↦ ?_
  subst hw
  refine (ha₁.setValue (fun hr ↦ hg₁.matched (hm hr)) hheld (hfull.adds ha hi hg₁.toAdds)
    hwrites (hclear.quiet ha hv hg₁.quiet) hloose).mono (fun _ h₂ hset hfree ↦ ?_) fun _ _ hf ↦ hf
  exact hset (ha.free_mono hfree hg₁.onward)

/-- **A write in two steps**: first the handle has the value, and all blocks that have a value are
held as before; then what the handle had is given up. -/
theorem At.setValue_written {v : Value Obj} (ha : c.At made (v.holds ++ ys) h)
    (hm : c.regular → h.Matched v) (hheld : Hold.handle i ∈ ys ++ c.outside) :
    Ends (Heap.setValue i v) h
      (fun _ h' ↦ ∃ (g : Heap Obj) (zs : List Hold), h' = g.release zs ∧ g.valueOf? i = some v ∧
        g.Sound (zs ++ (handleHolds made ++ (ys ++ c.outside))) ∧
        ∀ x, (h.content? x).isSome → ¬ h.Unset x → g.count x = h.count x)
      fun _ _ ↦ True := by
  have hheld' : Hold.handle i ∈ (v.holds ++ ys) ++ c.outside := by
    rw [List.append_assoc]
    exact List.mem_append_right _ hheld
  obtain ⟨b, old, hi, hb, -⟩ := ha.exists_value (ha.isSome_of_mem hheld')
  have hsome : (h.content? (.block b)).isSome :=
    Heap.isSome_of_valueAt? hb
  rw [Heap.setValue]
  refine Ends.after (Heap.look_eq hi) (Ends.after (Heap.look_eq hb) ?_)
  refine Ends.after (Heap.isSole_eq b h) ?_
  split
  · rename_i hcond
    obtain ⟨hsole, -⟩ := Bool.and_eq_true_iff.1 hcond
    have hcount := (Heap.holders?_eq_some_iff hsome).1 (beq_iff_eq.1 hsole)
    have hcell : h.cell? (.block b) = some (1, .value old) := by
      rw [At.exists_cell? (Heap.content?_block.2 hb), hcount]
    have hnew : (h.withValue b v).valueAt? b = some v := by
      refine Heap.content?_block.1 (Heap.content?_eq (n := 1) ?_)
      rw [(Heap.changes_withValue hcell v).cell, if_pos rfl]
    have hblock : (h.withValue b v).blockOf? i = some b := hi
    refine Ends.after rfl (Ends.of_ok rfl ⟨h.withValue b v, old.holds, rfl, ?_,
      ha.sound_append.withValue hcell (ha.ne_blank hi hcount),
      fun x _ _ ↦ Heap.count_withValue hcell v x⟩)
    rw [Heap.valueOf?, hblock, Option.bind_some, hnew]
  · refine Ends.bind ((ha.place hm).mono (fun _ _ hh ↦ hh) fun _ _ _ ↦ trivial) ?_
    rintro b' h₁ ⟨ha₁, hg₁, hb'⟩
    have hi₁ := hg₁.blockOf? hi
    have hcell := At.exists_cell? (Heap.content?_handle.2 hi₁)
    have hc := Heap.changes_withBlock hcell b'
    have ha₁' : c.At made ([.block b'] ++ ys) h₁ := ha₁
    refine Ends.of_ok (Heap.rebind_eq hi₁) ⟨h₁.withBlock i b', [.block b], rfl, ?_,
      ha₁'.sound_append.withBlock hcell, fun x hx hset ↦ ?_⟩
    · have hnew : (h₁.withBlock i b').blockOf? i = some b' := by
        refine Heap.content?_handle.1 (Heap.content?_eq (n := h₁.count (.handle i)) ?_)
        rw [hc.cell, if_pos rfl]
      have hvalue : (h₁.withBlock i b').valueAt? b' = some v := hb'
      rw [Heap.valueOf?, hnew, Option.bind_some, hvalue]
    · rw [hc.count, ← hg₁.count x hx hset]
      split
      · rename_i he
        rw [he]
      · rfl

/-- **A handle shows what was written to it**, and no block that has a value is held more. -/
theorem At.setValue_shows {v : Value Obj} (ha : c.At made (v.holds ++ ys) h)
    (hm : c.regular → h.Matched v) (hheld : Hold.handle i ∈ ys ++ c.outside) :
    Ends (Heap.setValue i v) h
      (fun _ h' ↦ h'.valueOf? i = some v ∧ h'.Sound (handleHolds made ++ (ys ++ c.outside)) ∧
        ∀ x, (h.content? x).isSome → ¬ h.Unset x → h'.count x ≤ h.count x)
      fun _ _ ↦ True := by
  refine (ha.setValue_written hm hheld).mono ?_ fun _ _ _ ↦ trivial
  rintro _ _ ⟨g, zs, rfl, hv, hs, hcount⟩
  -- giving up what the handle had does not change what it shows
  have hr := Heap.released_release hs
  have hthere := hr.sound.isSome_of_mem (List.mem_append_right _ hheld)
  refine ⟨hr.quiet.valueOf? hs hr.sound hv hthere, hr.sound, fun x hx hset ↦ ?_⟩
  rw [← hcount x hx hset]
  exact hs.count_release_le x

/-- The same for a copy of the value, whose list is held more. -/
theorem At.assign_shows {v : Value Obj} (ha : c.At made ys h)
    (hv : ∀ y ∈ v.holds, (h.content? y).isSome) (hm : c.regular → h.Matched v)
    (hheld : Hold.handle i ∈ ys ++ c.outside) :
    Ends (Heap.assign i v) h
      (fun _ h' ↦ h'.valueOf? i = some v ∧ h'.Sound (handleHolds made ++ (ys ++ c.outside)) ∧
        ∀ x, (h.content? x).isSome → ¬ h.Unset x → x ∉ v.holds → h'.count x ≤ h.count x)
      fun _ _ ↦ True := by
  refine Ends.bind ((ha.copy hv).ends) fun w h₁ ⟨hw, ha₁, hg₁⟩ ↦ ?_
  subst hw
  refine (ha₁.setValue_shows (fun hr ↦ hg₁.matched (hm hr)) hheld).mono
    (fun _ h₂ ⟨hshows, hs, hle⟩ ↦ ⟨hshows, hs, fun x hx hset hnot ↦ ?_⟩) fun _ _ _ ↦ trivial
  rw [← hg₁.count x hx hnot]
  exact hle x (hg₁.isSome hx) fun hunset ↦ hset (hg₁.unset hx hunset)

/-- The handle must have a value before and after where variables without one are to share a block.
-/
theorem At.overwrite {v old : Value Obj} (ha : c.At made (v.holds ++ ys) h) (hcalm : c.Calm h)
    (hm : c.regular → h.Matched v) (hheld : Hold.handle i ∈ ys ++ c.outside)
    (hfree : c.Free h (.handle i)) (hwrites : ¬ c.reads)
    (hclear : c.Clears h v.holds (.handle i)) (hloose : ∀ l, ¬ c.tied i l)
    (hold : h.valueOf? i = some old) (hset : c.single → v ≠ .uninit ∧ old ≠ .uninit) :
    c.Leads (Heap.overwrite i v) h (fun _ h' ↦ c.At made ys h') (c.Faults made ys) := by
  have hheld' : Hold.handle i ∈ (v.holds ++ ys) ++ c.outside := by
    rw [List.append_assoc]
    exact List.mem_append_right _ hheld
  have hmem (y : Hold) (hy : y ∈ v.holds) :
      y ∈ handleHolds made ++ ((v.holds ++ ys) ++ c.outside) :=
    List.mem_append_right _ (List.mem_append_left _ (List.mem_append_left _ hy))
  refine Leads.bind (At.holding (ha.ownClearing hcalm hheld' hfree hold (fun hone ↦ (hset hone).2)
    (hclear.seenPast hmem))) fun b h₁ ⟨⟨ha₁, hsteady, hi, hown, _⟩, hends, _⟩ ↦ ?_
  have hm₁ (hr : c.regular) : h₁.Matched v := by
    refine hsteady.matched ha.sound.tidy (hm hr) fun y hy ↦ ?_
    exact ha₁.isSome_of_mem (List.mem_append_left _ (List.mem_append_left _ hy))
  refine Leads.after (Heap.look_eq hown.value) (Leads.after rfl (.of_ok rfl fun hreads ↦ ?_))
  exact (At.withValue ha₁ hown (fun y ↦ Nat.add_comm _ _) (fun hu ↦ absurd (hreads hu) hwrites)
    (fun hr _ ↦ hm₁ hr) hends (fun hone he ↦ absurd he (hset hone).1)
    fun j l ht hj ↦ (hloose l (ha₁.eq_of_block hi hown.sole hj ▸ ht)).elim).1.release.1

theorem At.increment (ha : c.At made ys h) (hcalm : c.Calm h)
    (hheld : Hold.handle i ∈ ys ++ c.outside) (hfree : c.Free h (.handle i))
    (hwrites : ¬ c.reads) :
    c.Leads (Heap.increment i) h (fun _ h' ↦ c.At made ys h') (c.Faults made ys) := by
  obtain ⟨_, v, -, -, hv⟩ := ha.exists_value (ha.isSome_of_mem hheld)
  rw [Heap.increment]
  refine Leads.after (Heap.look_eq hv) ?_
  split
  · rename_i hnumeric
    have hset : v ≠ .uninit := by
      rintro rfl
      cases hnumeric
    refine Leads.bind (ha.own hcalm hheld hfree hv fun _ ↦ hset)
      fun b h₁ ⟨ha₁, _, _, hown, _⟩ ↦ ?_
    refine Leads.after (Heap.look_eq hown.value) (.of_ok rfl fun hreads ↦ ?_)
    have hholds : v.increment.holds = v.holds := by
      cases v <;> rfl
    refine (ha₁.withSame hown hholds (fun hu ↦ absurd (hreads hu) hwrites) (fun _ _ ↦ ?_)
      fun _ hnew ↦ ?_).1
    · refine Heap.matched_of_holds (hholds.trans ?_)
      cases v with
      | scalar s => rfl
      | array l => cases hnumeric
      | struct names l => cases hnumeric
    · cases v with
      | scalar s => cases s <;> first | rfl | cases hnew
      | array l => cases hnew
      | struct names l => cases hnew
  · exact .of_ends (.pure ha)

end ScriptHeap.Scene
