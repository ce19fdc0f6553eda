import ScriptHeap.Session.Run
import ScriptHeap.Proofs.Heap.Calls
import ScriptHeap.Proofs.Heap.Cycles

/-!
# Sessions at a scene

A step of a session is watched as one operation on its heap.  While it runs, the registers stay as
they are and all that they hold is held on the outside; what the step holds on its own account comes
on top of that for some time.  At the end it fills or empties a register.

## What is here

* `Scene.withOutside`, `Scene.At.widen` — what others hold changes in the course of a step.
* `Scene.Done` — how the heap stands to the scene when a step has ended.
* `Scene.Stands`, `Scene.Settled`, `Scene.Plays` — the same for sessions: in the middle of a step,
  at its end, and for an operation that leads from the one to the other.
* `Scene.Stands.keepReference`, `Scene.Stands.withOperand`, … — a rule for each part of a step.
-/

set_option autoImplicit false
namespace ScriptHeap

/-! ## What registers hold -/

namespace Registers

variable {α : Type}

theorem lookup_perm {entries : List (String × α)} (hd : (entries.map (·.1)).Nodup) (name : String) :
    (entries.map (·.2)).Perm
      ((entries.lookup name).toList ++ (entries.filter fun e ↦ e.1 != name).map (·.2)) := by
  induction entries with
  | nil => exact .refl _
  | cons e entries ih =>
    obtain ⟨key, a⟩ := e
    obtain ⟨hkey, hd⟩ := List.nodup_cons.1 hd
    by_cases hk : key = name
    · subst hk
      have hrest : (entries.filter fun e ↦ e.1 != key) = entries := by
        refine List.filter_eq_self.2 fun e he ↦ bne_iff_ne.2 fun hek ↦ hkey ?_
        exact List.mem_map.2 ⟨e, he, hek⟩
      rw [List.filter_cons_of_neg (by simp), hrest]
      simp
    · rw [List.filter_cons_of_pos (by simpa using hk), List.lookup_cons,
        beq_eq_false_iff_ne.2 fun he ↦ hk he.symm]
      exact ((ih hd).cons a).trans List.perm_middle.symm

/-- The contents of registers with those of one in front. -/
theorem contents_perm (rs : Registers α) (name : String) :
    rs.contents.Perm ((rs.get? name).toList ++ (rs.erase name).contents) :=
  lookup_perm rs.distinct name

/-- The same for what the contents hold. -/
theorem holds_perm (rs : Registers α) (name : String) (f : α → List Hold) :
    (rs.contents.flatMap f).Perm
      (((rs.get? name).map f).getD [] ++ (rs.erase name).contents.flatMap f) := by
  refine ((rs.contents_perm name).flatMap_right f).trans (.of_eq ?_)
  rw [List.flatMap_append]
  cases rs.get? name <;> simp

theorem mem_contents_of_get? {rs : Registers α} {name : String} {a : α}
    (ha : rs.get? name = some a) : a ∈ rs.contents := by
  refine (rs.contents_perm name).mem_iff.2 (List.mem_append_left _ ?_)
  rw [ha]
  exact List.mem_singleton_self a

theorem mem_contents_of_erase {rs : Registers α} {name : String} {a : α}
    (ha : a ∈ (rs.erase name).contents) : a ∈ rs.contents :=
  (rs.contents_perm name).mem_iff.2 (List.mem_append_right _ ha)

end Registers

variable {Obj : Type}

namespace Session

/-- The holds of a session with those of a reference register in front. -/
theorem holds_references (s : Session Obj) (name : String) :
    s.holds.Perm (((s.references.get? name).map referenceHolds).getD [] ++
      { s with references := s.references.erase name }.holds) := by
  refine List.perm_iff_count.2 fun x ↦ ?_
  have hx := (s.references.holds_perm name referenceHolds).count_eq x
  simp only [holds, List.count_append] at hx ⊢
  omega

@[inherit_doc holds_references]
theorem holds_values (s : Session Obj) (name : String) :
    s.holds.Perm (((s.values.get? name).map Stored.holds).getD [] ++
      { s with values := s.values.erase name }.holds) := by
  refine List.perm_iff_count.2 fun x ↦ ?_
  have hx := (s.values.holds_perm name Stored.holds).count_eq x
  simp only [holds, List.count_append] at hx ⊢
  omega

@[inherit_doc holds_references]
theorem holds_blocks (s : Session Obj) (name : String) :
    s.holds.Perm ((s.blocks.get? name).toList.map .block ++
      { s with blocks := s.blocks.erase name }.holds) := by
  refine List.perm_iff_count.2 fun x ↦ ?_
  have hx := ((s.blocks.contents_perm name).map Hold.block).count_eq x
  simp only [holds, List.count_append, List.map_append] at hx ⊢
  omega

@[inherit_doc holds_references]
theorem holds_cursors (s : Session Obj) (name : String) :
    s.holds.Perm (((s.cursors.get? name).map Cursor.holds).getD [] ++
      { s with cursors := s.cursors.erase name }.holds) := by
  refine List.perm_iff_count.2 fun x ↦ ?_
  have hx := (s.cursors.holds_perm name Cursor.holds).count_eq x
  simp only [holds, List.count_append] at hx ⊢
  omega

/-- What a reference register is filled with and what all registers hold, when what was there before
is given up. -/
theorem holds_insertReference (s : Session Obj) (name : String) (r : Option HandleId) :
    (referenceHolds r ++ s.holds).Perm
      (((s.references.get? name).map referenceHolds).getD [] ++
        { s with references := s.references.insert name r }.holds) := by
  refine List.perm_iff_count.2 fun x ↦ ?_
  have hx := (s.holds_references name).count_eq x
  simp only [holds, Registers.insert, Registers.contents, List.map_cons, List.flatMap_cons,
    List.count_append] at hx ⊢
  omega

@[inherit_doc holds_insertReference]
theorem holds_insertValue (s : Session Obj) (name : String) (v : Stored Obj) :
    (v.holds ++ s.holds).Perm
      (((s.values.get? name).map Stored.holds).getD [] ++
        { s with values := s.values.insert name v }.holds) := by
  refine List.perm_iff_count.2 fun x ↦ ?_
  have hx := (s.holds_values name).count_eq x
  simp only [holds, Registers.insert, Registers.contents, List.map_cons, List.flatMap_cons,
    List.count_append] at hx ⊢
  omega

@[inherit_doc holds_insertReference]
theorem holds_insertBlock (s : Session Obj) (name : String) (b : BlockId) :
    ([Hold.block b] ++ s.holds).Perm
      ((s.blocks.get? name).toList.map Hold.block ++
        { s with blocks := s.blocks.insert name b }.holds) := by
  refine List.perm_iff_count.2 fun x ↦ ?_
  have hx := (s.holds_blocks name).count_eq x
  simp only [holds, Registers.insert, Registers.contents, List.map_cons, List.count_append,
    List.count_cons, List.count_nil] at hx ⊢
  omega

@[inherit_doc holds_insertReference]
theorem holds_insertCursor (s : Session Obj) (name : String) (k : Cursor) :
    (k.holds ++ s.holds).Perm
      (((s.cursors.get? name).map Cursor.holds).getD [] ++
        { s with cursors := s.cursors.insert name k }.holds) := by
  refine List.perm_iff_count.2 fun x ↦ ?_
  have hx := (s.holds_cursors name).count_eq x
  simp only [holds, Registers.insert, Registers.contents, List.map_cons, List.flatMap_cons,
    List.count_append] at hx ⊢
  omega

theorem mem_holds_of_value {s : Session Obj} {x : Stored Obj} (hx : x ∈ s.values.contents) :
    ∀ y ∈ x.holds, y ∈ s.holds := by
  intro y hy
  refine List.mem_append_left _ (List.mem_append_left _ (List.mem_append_right _ ?_))
  exact List.mem_flatMap.2 ⟨x, hx, hy⟩

theorem onHeap_of_ok {α : Type} {act : HeapM Obj α} {s : Session Obj} {a : α} {h : Heap Obj}
    (hrun : act s.heap = .ok a h) : onHeap act s = .ok a { s with heap := h } := by
  rw [onHeap.eq_def]
  simp only [hrun]

theorem onHeap_of_error {α : Type} {act : HeapM Obj α} {s : Session Obj} {fault : Fault}
    {h : Heap Obj} (hrun : act s.heap = .error fault h) :
    onHeap act s = .error fault { s with heap := h } := by
  rw [onHeap.eq_def]
  simp only [hrun]

theorem exhausts_onHeap {α : Type} {act : HeapM Obj α} {s : Session Obj} :
    Exhausts (onHeap act) s ↔ Exhausts act s.heap := by
  constructor
  · rintro ⟨pool, capacity, t, he⟩
    cases hact : act s.heap with
    | ok a h => cases (onHeap_of_ok hact).symm.trans he
    | error fault h =>
      cases (onHeap_of_error hact).symm.trans he
      exact ⟨pool, capacity, h, hact⟩
  · rintro ⟨pool, capacity, h, he⟩
    exact ⟨pool, capacity, _, onHeap_of_error he⟩

/-- An operation on the heap of a session. -/
theorem ends_onHeap {α : Type} {act : HeapM Obj α} {s : Session Obj} {good : α → Heap Obj → Prop}
    {bad : Fault → Heap Obj → Prop} (hact : Ends act s.heap good bad) :
    Ends (onHeap act) s (fun a t ↦ ∃ h, t = { s with heap := h } ∧ good a h)
      fun fault t ↦ ∃ h, t = { s with heap := h } ∧ bad fault h := by
  unfold Ends at hact
  split at hact
  · rename_i a h hrun
    exact Ends.of_ok (onHeap_of_ok hrun) ⟨h, rfl, hact⟩
  · rename_i fault h hrun
    exact Ends.of_error (onHeap_of_error hrun) ⟨h, rfl, hact⟩

theorem deref_of_some {s : Session Obj} {name : String} {i : HandleId}
    (hr : s.references.get? name = some (some i)) : deref name s = .ok i s := by
  have hreference : reference name s = .ok (s.references.get? name).join s := rfl
  rw [deref, bind_of_ok hreference, hr]
  rfl

/-- A reference that is followed. -/
theorem ends_deref (name : String) (s : Session Obj) :
    Ends (deref name) s (fun i t ↦ t = s ∧ s.references.get? name = some (some i))
      fun f t ↦ t = s ∧ f = .nullReference ∧ (s.references.get? name).join = none := by
  cases hr : (s.references.get? name).join with
  | none =>
    have hreference : reference name s = .ok (s.references.get? name).join s := rfl
    rw [Ends, deref, bind_of_ok hreference, hr]
    exact ⟨rfl, rfl, rfl⟩
  | some i =>
    have hr' := Option.join_eq_some_iff.1 hr
    exact Ends.of_ok (deref_of_some hr') ⟨rfl, hr'⟩

/-! ## Operations that need no block -/

section
variable {α : Type} {act : SessionM Obj α}

theorem frugal_look (f : Heap Obj → Option α) : Frugal (onHeap (Heap.look f)) :=
  fun s he ↦ not_exhausts_look s.heap (exhausts_onHeap.1 he)

theorem frugal_letGo (xs : List Hold) : Frugal (letGo xs : SessionM Obj Unit) :=
  fun _ ↦ not_exhausts_of_ok rfl

theorem frugal_holding (xs : List Hold) (hact : Frugal act) : Frugal (holding xs act) :=
  fun s he ↦ hact s (he.of_tryCatch fun _ _ ↦ ⟨_, rfl⟩)

theorem frugal_writtenReference (r : Option HandleId) :
    Frugal (writtenReference r : SessionM Obj _) := by
  cases r with
  | none => exact .pure none
  | some i => exact (frugal_look _).bind fun d ↦ .pure (some d)

theorem frugal_reference (name : String) : Frugal (reference name : SessionM Obj _) :=
  fun _ ↦ not_exhausts_of_ok rfl

theorem frugal_deliver (into : Option String) (r : Option HandleId) :
    Frugal (deliver into r : SessionM Obj (Answer Obj)) := by
  refine (frugal_holding _ (frugal_writtenReference r)).bind fun contents ↦ ?_
  cases into with
  | some name => exact fun _ ↦ not_exhausts_of_ok rfl
  | none => exact fun _ ↦ not_exhausts_of_ok rfl

theorem frugal_deliverValue (target : Option String) (v : Value Obj) :
    Frugal (deliverValue target v) := by
  refine (frugal_holding _ (frugal_look _)).bind fun d ↦ ?_
  cases target with
  | some name => exact fun _ ↦ not_exhausts_of_ok rfl
  | none => exact fun _ ↦ not_exhausts_of_ok rfl

end

end Session

namespace Scene

variable [HostObject Obj] {c : Scene Obj} {made : List HandleId} {xs ys zs : List Hold}
  {h h' : Heap Obj}

/-! ## Other holds outside -/

/-- A scene with other holds on the outside. -/
def withOutside (c : Scene Obj) (os : List Hold) : Scene Obj :=
  { c with outside := os }

theorem Ties.withOutside {i : HandleId} {l : ListId} (ht : c.Ties h i l) (os : List Hold) :
    (c.withOutside os).Ties h i l :=
  ⟨ht.stores, ht.elements⟩

/-- Holds that others may look from as long as nothing was changed. -/
theorem At.widen (ha : c.At made (xs ++ ys) h) (hq : c.before.Quiet h) :
    (c.withOutside (xs ++ c.outside)).At made ys h :=
  { ha with
    sound := by
      refine ha.sound.perm (.append_left _ ?_)
      rw [List.append_assoc]
      exact List.perm_append_comm_assoc _ _ _
    kept := fun r hr y hy ↦ by
      refine hq.kept c.sound ha.sound hr.born ?_ hy
      rcases hr.stays with hout | ⟨-, hk⟩
      · refine ha.isSome_of_mem ?_
        rcases List.mem_append.1 hout with hx | ho
        · exact List.mem_append_left _ (List.mem_append_left _ hx)
        · exact List.mem_append_right _ ho
      · exact hk
    tied := fun i l ht hi ↦ (ha.tied i l ht hi).withOutside _ }

/-! ## The end of a step -/

/-- A cell that others look from to the end: they still hold it, or it is a handle that is still
there. -/
structure Lasts (c : Scene Obj) (rest : List Hold) (h : Heap Obj) (r : Hold) : Prop where
  spared : ∀ i, r = .handle i → c.spared i
  born : c.before.Born r
  stays : r ∈ c.outside ∧ r ∈ rest ∨ (∃ i, r = .handle i) ∧ (h.content? r).isSome

/-- How a heap with certain holds stands to a scene that is over. -/
structure Done (c : Scene Obj) (rest : List Hold) (h : Heap Obj) : Prop where
  sound : h.Sound rest
  onward : c.before.Onward h
  kept : ∀ r, c.Lasts rest h r → ∀ y, c.before.Clear c.blocked r y →
    h.content? y = c.before.content? y
  shown : c.unseen → c.before.Alike h
  apart : ∀ e, c.before.Born (.handle e) → c.before.uses (.handle e) = 0 →
    h.uses (.handle e) = 0
  still : ∀ x, c.Watched x → h.content? x = c.before.content? x ∨ h.content? x = none
  regular : c.regular → h.Regular
  acyclic : c.acyclic → ¬ h.Endless
  single : c.single → h.OneBlank
  tied : ∀ i l, c.tied i l → (h.content? (.handle i)).isSome → c.Ties h i l

theorem At.done {rest : List Hold} (ha : c.At [] ys h) (hp : (ys ++ c.outside).Perm rest) :
    c.Done rest h where
  sound := ha.sound.perm hp
  onward := ha.onward
  kept r hr y hy := ha.kept r ⟨hr.spared, hr.born, hr.stays.imp_left And.left⟩ y hy
  shown := ha.shown
  apart := ha.apart
  still := ha.still
  regular hr b v hv := ha.regular hr b v (Option.some_ne_none b).symm hv
  acyclic := ha.acyclic
  single := ha.single
  tied := ha.tied

theorem Done.perm {rest rest' : List Hold} (hd : c.Done rest h) (hp : rest.Perm rest') :
    c.Done rest' h :=
  { hd with
    sound := hd.sound.perm hp
    kept := fun r hr y hy ↦
      hd.kept r ⟨hr.spared, hr.born, hr.stays.imp_left fun hx ↦ ⟨hx.1, hp.mem_iff.2 hx.2⟩⟩ y hy }

theorem Done.ofOutside {os rest : List Hold} (hd : (c.withOutside os).Done rest h)
    (hsub : ∀ x ∈ c.outside, x ∈ os) : c.Done rest h :=
  { hd with
    kept := fun r hr y hy ↦
      hd.kept r ⟨hr.spared, hr.born, hr.stays.imp_left fun hx ↦ ⟨hsub r hx.1, hx.2⟩⟩ y hy
    tied := fun i l ht hi ↦ (hd.tied i l ht hi).withOutside c.outside }

/-- What is given up at last. -/
theorem Done.release {rest : List Hold} (hd : c.Done (xs ++ rest) h) :
    c.Done rest (h.release xs) := by
  have hr := Heap.released_release hd.sound
  refine ⟨hr.sound, hd.onward.trans hr.quiet.onward, fun r hlasts y hy ↦ ?_, fun hread ↦ ?_,
    fun e he h0 ↦ ?_, fun x hw ↦ ?_, fun hreg b v hv ↦ ?_, fun hac ↦ hr.not_endless (hd.acyclic hac),
    fun hone b v hv hblank ↦ ?_, fun i l ht hi ↦ ?_⟩
  · have hlasts' : c.Lasts (xs ++ rest) h r := by
      refine ⟨hlasts.spared, hlasts.born, ?_⟩
      rcases hlasts.stays with ⟨hout, hrest⟩ | ⟨hi, hk⟩
      · exact .inl ⟨hout, List.mem_append_right _ hrest⟩
      · exact .inr ⟨hi, hr.quiet.onward.gone r (hd.onward.born r hlasts.born) hk⟩
    have hthere : ((h.release xs).content? r).isSome := by
      rcases hlasts.stays with ⟨-, hrest⟩ | ⟨-, hk⟩
      · exact hr.sound.isSome_of_mem hrest
      · exact hk
    have hy' := hy.congr (hd.kept r hlasts')
    rw [hr.quiet.kept hd.sound hr.sound (hd.onward.born r hlasts.born) hthere hy',
      hd.kept r hlasts' y hy]
  · exact (hd.shown hread).trans hd.onward.born (hr.quiet.alike hd.sound hr.sound)
  · exact Nat.le_zero.1 (hd.apart e he h0 ▸ hr.uses_le (.handle e))
  · cases hx : (h.release xs).content? x with
    | none => exact .inr rfl
    | some k =>
      refine (hd.still x hw).imp (fun hsame ↦ ?_) fun hnone ↦ ?_
      · exact (hr.sub x k hx).symm.trans hsame
      · exact nomatch hnone.symm.trans (hr.sub x k hx)
  · have hv₀ := Heap.content?_block.1 (hr.sub _ _ (Heap.content?_block.2 hv))
    refine hr.quiet.steady.matched hd.sound.tidy (hd.regular hreg b v hv₀) fun y hy ↦ ?_
    refine hr.sound.isSome_of_mem_holdsOf (y := .block b) ?_
    rwa [Heap.holdsOf_block hv]
  · have hv₀ := Heap.content?_block.1 (hr.sub _ _ (Heap.content?_block.2 hv))
    exact hr.quiet.onward.blank b (hd.single hone b v hv₀ hblank)
  · have hi₀ := hr.quiet.onward.gone _ (hd.onward.born _ (tied_born ht).1) hi
    refine (hd.tied i l ht hi₀).quiet hr.quiet hd.sound hr.sound hi fun e _ h0 ↦ ?_
    exact Nat.le_zero.1 (h0 ▸ hr.uses_le (.handle e))

/-! ## Sessions -/

/-- A session in the middle of a step: the step has some holds on its own account, and others have
those of the registers and some more. -/
structure Stands (c : Scene Obj) (xs ys : List Hold) (s : Session Obj) : Prop where
  here : c.At [] ys s.heap
  outside : c.outside.Perm (xs ++ s.holds)
  values : c.regular → ∀ v, Stored.own v ∈ s.values.contents → c.before.Matched v

/-- A session at the end of a step. -/
structure Settled (c : Scene Obj) (xs : List Hold) (s : Session Obj) : Prop where
  done : c.Done (xs ++ s.holds) s.heap
  values : c.regular → ∀ v, Stored.own v ∈ s.values.contents → s.heap.Matched v

/-- The faults that a step may end with: those of operations on the heap, a reference to nothing
that was followed, and where there is a circle, a value without end that was to be written out. -/
def Foreseen (c : Scene Obj) (h : Heap Obj) (f : Fault) : Prop :=
  f = .dangling ∧ h.Endless ∨ c.Expects h f ∨ f = .nullReference ∧ c.strays

/-- A step that ends with a fault has given up all that it held. -/
def Fails (c : Scene Obj) (xs : List Hold) (f : Fault) (s : Session Obj) : Prop :=
  c.Settled xs s ∧ c.Foreseen s.heap f

theorem Foreseen.release {f : Fault} {rest : List Hold} (hf : c.Foreseen h f)
    (hr : h.Released (h.release xs) rest) : c.Foreseen (h.release xs) f :=
  hf.imp (fun hd ↦ ⟨hd.1, hr.endless hd.2⟩) fun hrest ↦ hrest.imp_left fun he ↦ he.release xs

/-- An operation that leads a session to the end of a step. -/
def Plays {α : Type} (c : Scene Obj) (xs : List Hold) (act : SessionM Obj α) (s : Session Obj) :
    Prop :=
  Ends act s (fun _ t ↦ c.Settled xs t) (c.Fails xs)

/-- An operation that may write and leads a session to the end of a step. -/
def Performs {α : Type} (c : Scene Obj) (xs : List Hold) (act : SessionM Obj α) (s : Session Obj) :
    Prop :=
  c.Leads act s (fun _ t ↦ c.Settled xs t) (c.Fails xs)

theorem Plays.performs {α : Type} {act : SessionM Obj α} {s : Session Obj}
    (hact : c.Plays xs act s) : c.Performs xs act s :=
  .of_ends hact

theorem Stands.mem_outside {s : Session Obj} (hs : c.Stands xs ys s) {x : Hold} (hx : x ∈ s.holds) :
    x ∈ c.outside :=
  hs.outside.mem_iff.2 (List.mem_append_right _ hx)

theorem Stands.withHeap {s : Session Obj} (hs : c.Stands xs ys s) (ha : c.At [] zs h) :
    c.Stands xs zs { s with heap := h } :=
  ⟨ha, hs.outside, hs.values⟩

/-- The lists of values in registers are seen from outside, so they are as they were. -/
theorem Stands.matched {s : Session Obj} (hs : c.Stands xs ys s) (hr : c.regular) {v : Value Obj}
    (hv : Stored.own v ∈ s.values.contents) : s.heap.Matched v := by
  refine (hs.values hr v hv).of_lists fun l is hl his ↦ ?_
  have hout : Hold.list l ∈ c.outside := by
    refine hs.mem_outside (Session.mem_holds_of_value hv _ ?_)
    show Hold.list l ∈ v.holds
    exact Heap.list_mem_holds hl
  obtain ⟨n, hn⟩ := Heap.exists_cell?_of_content? (Heap.content?_list.2 his)
  have hlooks : c.Looks s.heap (.list l) :=
    ⟨by simp, Heap.born_of_cell? c.sound.tidy hn, .inl hout⟩
  rw [← Heap.content?_list, hs.here.kept _ hlooks _ (.here (by simp))]
  exact Heap.content?_list.2 his

theorem Stands.settled {s : Session Obj} (hs : c.Stands xs [] s) : c.Settled xs s :=
  ⟨hs.here.done hs.outside, fun hr _ hv ↦ hs.matched hr hv⟩

theorem Settled.plays {α : Type} {s : Session Obj} (hs : c.Settled xs s) (a : α) :
    c.Plays xs (pure a) s :=
  Ends.pure hs

theorem Plays.andThen {α β : Type} {act : SessionM Obj α} {f : α → SessionM Obj β}
    {s : Session Obj} (hact : c.Plays xs act s)
    (hf : ∀ a t, c.Settled xs t → c.Plays xs (f a) t) : c.Plays xs (act >>= f) s :=
  Ends.bind hact fun a t ht ↦ hf a t ht

/-- An operation on the heap. -/
theorem Stands.ends_onHeap {α : Type} {act : HeapM Obj α} {s : Session Obj}
    {good : α → Heap Obj → Prop} (hs : c.Stands xs ys s)
    (hact : Ends act s.heap good (c.Faults [] [])) :
    Ends (Session.onHeap act) s (fun a t ↦ ∃ h, t = { s with heap := h } ∧ good a h)
      (c.Fails xs) := by
  refine (Session.ends_onHeap hact).mono (fun a t ht ↦ ht) ?_
  rintro fault _ ⟨h, rfl, ha, hf⟩
  exact ⟨(hs.withHeap ha).settled, .inr (.inl hf)⟩

@[inherit_doc Stands.ends_onHeap]
theorem Stands.runs_onHeap {α : Type} {act : HeapM Obj α} {s : Session Obj}
    {good : α → Heap Obj → Prop} (hs : c.Stands xs ys s) (hact : Runs act s.heap good) :
    Ends (Session.onHeap act) s (fun a t ↦ ∃ h, t = { s with heap := h } ∧ good a h)
      (c.Fails xs) :=
  hs.ends_onHeap hact.ends

/-- An operation on the heap, and what comes after it. -/
theorem Stands.onHeap {α β : Type} {act : HeapM Obj α} {f : α → SessionM Obj β} {s : Session Obj}
    {good : α → Heap Obj → Prop} (hs : c.Stands xs ys s)
    (hact : Ends act s.heap good (c.Faults [] []))
    (hf : ∀ a h, good a h → c.Plays xs (f a) { s with heap := h }) :
    c.Plays xs (Session.onHeap act >>= f) s := by
  refine (hs.ends_onHeap hact).bind ?_
  rintro a _ ⟨h, rfl, ha⟩
  exact hf a h ha

@[inherit_doc Stands.onHeap]
theorem Stands.onHeapRuns {α β : Type} {act : HeapM Obj α} {f : α → SessionM Obj β}
    {s : Session Obj} {good : α → Heap Obj → Prop} (hs : c.Stands xs ys s)
    (hact : Runs act s.heap good)
    (hf : ∀ a h, good a h → c.Plays xs (f a) { s with heap := h }) :
    c.Plays xs (Session.onHeap act >>= f) s :=
  hs.onHeap hact.ends hf

/-- An operation on the heap that may write, and what comes after it, for which no block is needed.
-/
theorem Stands.onHeapThen {α β : Type} {act : HeapM Obj α} {f : α → SessionM Obj β}
    {s : Session Obj} {good : α → Heap Obj → Prop} (hs : c.Stands xs ys s)
    (hact : c.Leads act s.heap good (c.Faults [] [])) (hfrugal : ∀ a, Frugal (f a))
    (hf : ∀ a h, good a h → c.Plays xs (f a) { s with heap := h }) :
    c.Performs xs (Session.onHeap act >>= f) s := by
  have hrun : c.Leads (Session.onHeap act) s (fun a t ↦ ∃ h, t = { s with heap := h } ∧ good a h)
      (c.Fails xs) :=
    fun hwhy ↦ hs.ends_onHeap (hact fun hu ↦ (hwhy hu).imp_right Session.exhausts_onHeap.1)
  refine hrun.andThen (fun a t _ ↦ hfrugal a t) ?_
  rintro a _ ⟨h, rfl, ha⟩
  exact hf a h ha

/-! ## Registers filled and emptied -/

/-- Other registers, with holds to be given up. -/
theorem Stands.regroup {s t : Session Obj} {old : List Hold} (hs : c.Stands xs zs s)
    (hheap : t.heap = s.heap) (hp : (zs ++ s.holds).Perm (old ++ t.holds)) :
    c.Done (old ++ (xs ++ t.holds)) t.heap := by
  rw [hheap]
  refine hs.here.done (List.perm_iff_count.2 fun x ↦ ?_)
  have hout := hs.outside.count_eq x
  have hx := hp.count_eq x
  simp only [List.count_append] at hout hx ⊢
  omega

/-- The same when they are given up. -/
theorem Stands.exchange {s t : Session Obj} {old : List Hold} (hs : c.Stands xs zs s)
    (hheap : t.heap = s.heap) (hp : (zs ++ s.holds).Perm (old ++ t.holds))
    (hvalues : c.regular → ∀ v, Stored.own v ∈ t.values.contents → s.heap.Matched v) :
    c.Plays xs (Session.letGo old) t := by
  have hdone := hs.regroup hheap hp
  have hr := Heap.released_release hdone.sound
  refine Ends.of_ok rfl ⟨hdone.release, fun hreg v hv ↦ ?_⟩
  refine hr.quiet.steady.matched hdone.sound.tidy (hheap ▸ hvalues hreg v hv) fun y hy ↦ ?_
  exact hr.sound.isSome_of_mem
    (List.mem_append_right _ (Session.mem_holds_of_value (s := t) hv y hy))

/-- A reference register is filled. -/
theorem Stands.keepReference {s : Session Obj} {r : Option HandleId}
    (hs : c.Stands xs (referenceHolds r) s) (name : String) :
    c.Plays xs (Session.keepReference name r) s :=
  Ends.after rfl (Ends.after rfl
    (hs.exchange rfl (s.holds_insertReference name r) fun hr _ hv ↦ hs.matched hr hv))

/-- A value register is filled. -/
theorem Stands.keepValue {s : Session Obj} {x : Stored Obj} (hs : c.Stands xs x.holds s)
    (hx : c.regular → ∀ v, x = .own v → s.heap.Matched v) (name : String) :
    c.Plays xs (Session.keepValue name x) s := by
  refine Ends.after rfl (Ends.after rfl
    (hs.exchange rfl (s.holds_insertValue name x) fun hr v hv ↦ ?_))
  rcases List.mem_cons.1 hv with he | hv
  · exact hx hr v he.symm
  · exact hs.matched hr (Registers.mem_contents_of_erase hv)

/-- A block register is filled. -/
theorem Stands.keepBlock {s : Session Obj} {b : BlockId} (hs : c.Stands xs [.block b] s)
    (name : String) : c.Plays xs (Session.keepBlock name b) s :=
  Ends.after rfl (Ends.after rfl
    (hs.exchange rfl (s.holds_insertBlock name b) fun hr _ hv ↦ hs.matched hr hv))

/-- A cursor register is filled. -/
theorem Stands.keepCursor {s : Session Obj} {k : Cursor} (hs : c.Stands xs k.holds s)
    (name : String) : c.Plays xs (Session.keepCursor name k) s :=
  Ends.after rfl (Ends.after rfl
    (hs.exchange rfl (s.holds_insertCursor name k) fun hr _ hv ↦ hs.matched hr hv))

/-- What the step holds is given up. -/
theorem Stands.letGo {s : Session Obj} (hs : c.Stands xs zs s) :
    c.Plays xs (Session.letGo zs) s :=
  hs.exchange rfl (.refl _) fun hr _ hv ↦ hs.matched hr hv

/-! ## Looking -/

/-- An operation that leaves the session as it is.  All that can go wrong is that something without
end was to be written out. -/
def Looking {α : Type} (act : SessionM Obj α) (s : Session Obj) : Prop :=
  Ends act s (fun _ t ↦ t = s) fun f t ↦ t = s ∧ f = .dangling ∧ s.heap.Endless

section
variable {α β : Type} {act : SessionM Obj α} {f : α → SessionM Obj β} {s : Session Obj}

omit [HostObject Obj] in
theorem Looking.pure (a : α) : Looking (pure a) s :=
  Ends.pure rfl

omit [HostObject Obj] in
theorem Looking.bind (hact : Looking act s) (hf : ∀ a, Looking (f a) s) :
    Looking (act >>= f) s := by
  refine Ends.bind hact fun a t ht ↦ ?_
  subst ht
  exact hf a

omit [HostObject Obj] in
theorem Looking.get : Looking (get : SessionM Obj (Session Obj)) s :=
  Ends.of_ok rfl rfl

omit [HostObject Obj] in
/-- A look that finds something, and what comes after it. -/
theorem Looking.found {g : Heap Obj → Option α} {a : α} (ha : g s.heap = some a)
    (hf : Looking (f a) s) : Looking (Session.onHeap (Heap.look g) >>= f) s :=
  Ends.after (Session.onHeap_of_ok (Heap.look_eq ha)) hf

omit [HostObject Obj] in
/-- A look that only finds nothing where there is a circle. -/
theorem Looking.look {g : Heap Obj → Option α} (hg : ¬ s.heap.Endless → (g s.heap).isSome) :
    Looking (Session.onHeap (Heap.look g)) s := by
  cases ha : g s.heap with
  | some a => exact Ends.of_ok (Session.onHeap_of_ok (Heap.look_eq ha)) rfl
  | none =>
    refine Ends.of_error (Session.onHeap_of_error (Heap.look_of_none ha))
      ⟨rfl, rfl, Classical.byContradiction ?_⟩
    intro hends
    have hsome := hg hends
    rw [ha] at hsome
    cases hsome

omit [HostObject Obj] in
theorem Looking.mapM {γ : Type} {g : γ → SessionM Obj α} {as : List γ}
    (hg : ∀ x ∈ as, Looking (g x) s) : Looking (as.mapM g) s := by
  induction as with
  | nil => exact .pure _
  | cons a as ih =>
    rw [List.mapM_cons]
    have hrest := ih fun x hx ↦ hg x (List.mem_cons_of_mem a hx)
    exact (hg a List.mem_cons_self).bind fun _ ↦ hrest.bind fun _ ↦ .pure _

omit [HostObject Obj] in
/-- A value that is there written out. -/
theorem Looking.written (hs : s.heap.Sound zs) {v : Value Obj}
    (hv : ∀ y ∈ v.holds, (s.heap.content? y).isSome) : Looking (Session.written v) s :=
  .look fun hends ↦ hs.datum?_isSome hends hv

omit [HostObject Obj] in
/-- A handle that is there written out. -/
theorem Looking.contents (hs : s.heap.Sound zs) {i : HandleId}
    (hi : (s.heap.content? (.handle i)).isSome) :
    Looking (Session.onHeap (Heap.look (·.contents? i))) s := by
  obtain ⟨b, v, -, hb, hv⟩ := hs.exists_value hi
  refine .look fun hends ↦ ?_
  rw [Heap.contents?, hv]
  exact hs.datum?_isSome hends (hs.isSome_of_value hb)

omit [HostObject Obj] in
theorem Looking.writtenReference (hs : s.heap.Sound zs) {r : Option HandleId}
    (hr : ∀ y ∈ referenceHolds r, (s.heap.content? y).isSome) :
    Looking (Session.writtenReference r) s := by
  cases r with
  | none => exact .pure none
  | some i =>
    have hi := hr (.handle i) (List.mem_singleton_self _)
    exact (Looking.contents hs hi).bind fun d ↦ .pure (some d)

omit [HostObject Obj] in
theorem Looking.reference (name : String) : Looking (Session.reference name) s :=
  Looking.get.bind fun _ ↦ .pure _

omit [HostObject Obj] in
/-- The value of a handle that is there, and what comes after it. -/
theorem Looking.read (hs : s.heap.Sound zs) {i : HandleId} {f : Value Obj → SessionM Obj β}
    (hi : (s.heap.content? (.handle i)).isSome)
    (hf : ∀ v, (∀ y ∈ v.holds, (s.heap.content? y).isSome) → Looking (f v) s) :
    Looking (Session.onHeap (Heap.read i) >>= f) s := by
  obtain ⟨b, v, -, hb, hv⟩ := hs.exists_value hi
  exact .found hv (hf v (hs.isSome_of_value hb))

omit [HostObject Obj] in
/-- The list of a handle that is there, and what comes after it. -/
theorem Looking.listOf? (hs : s.heap.Sound zs) {i : HandleId} {f : Option ListId → SessionM Obj β}
    (hi : (s.heap.content? (.handle i)).isSome)
    (hf : ∀ r, (∀ l, r = some l → (s.heap.content? (.list l)).isSome) → Looking (f r) s) :
    Looking (Session.listOf? i >>= f) s := by
  rw [Session.listOf?, bind_assoc]
  refine Looking.read hs hi fun v hv ↦ ?_
  rw [pure_bind]
  refine hf v.list? fun l hl ↦ hv (.list l) ?_
  exact Heap.list_mem_holds hl

omit [HostObject Obj] in
/-- The elements of a handle that is there, and what comes after it. -/
theorem Looking.elementsOf (hs : s.heap.Sound zs) {i : HandleId}
    {f : List HandleId → SessionM Obj β} (hi : (s.heap.content? (.handle i)).isSome)
    (hf : ∀ is, (∀ e ∈ is, (s.heap.content? (.handle e)).isSome) → Looking (f is) s) :
    Looking (Session.elementsOf i >>= f) s := by
  rw [Session.elementsOf, bind_assoc]
  refine Looking.listOf? hs hi fun r hr ↦ ?_
  cases r with
  | none => exact hf [] fun e he ↦ absurd he List.not_mem_nil
  | some l =>
    obtain ⟨is, his, hthere⟩ := hs.exists_elements (hr l rfl)
    exact .found his (hf is hthere)

omit [HostObject Obj] in
theorem Looking.placeOf? (hs : s.heap.Sound zs) {i : HandleId}
    (hi : (s.heap.content? (.handle i)).isSome) (name : String) :
    Looking (Session.placeOf? i name) s :=
  Looking.read hs hi fun _ _ ↦ .pure _

/-- What comes after a look. -/
theorem Looking.andThen (hact : Looking act s) (hs : c.Stands xs [] s)
    (hf : ∀ a, c.Plays xs (f a) s) : c.Plays xs (act >>= f) s := by
  refine Ends.bind (hact.mono (fun a t ht ↦ ht) fun e t ht ↦ ?_) fun a t ht ↦ ?_
  · obtain ⟨rfl, he⟩ := ht
    exact ⟨hs.settled, .inl he⟩
  · subst ht
    exact hf a

/-- An operation that leaves the session as it is, while something is held. -/
theorem Stands.ends_holding {good : α → Prop} (hs : c.Stands xs ys s)
    (hact : Ends act s (fun a t ↦ t = s ∧ good a) fun e t ↦ t = s ∧ c.Foreseen s.heap e) :
    Ends (Session.holding ys act) s (fun a t ↦ t = s ∧ good a) (c.Fails xs) := by
  refine Ends.tryCatch hact fun e t ⟨ht, he⟩ ↦ ?_
  subst ht
  have hs' : c.Stands xs (ys ++ []) t := by
    rwa [List.append_nil]
  have hr := Heap.released_release hs'.here.sound_append
  exact Ends.after rfl
    (Ends.throw ⟨(hs'.withHeap hs'.here.release.1).settled, he.release hr⟩)

/-- The same, and what comes after it. -/
theorem Stands.holding {good : α → Prop} (hs : c.Stands xs ys s)
    (hact : Ends act s (fun a t ↦ t = s ∧ good a) fun e t ↦ t = s ∧ c.Foreseen s.heap e)
    (hf : ∀ a, good a → c.Plays xs (f a) s) : c.Plays xs (Session.holding ys act >>= f) s := by
  refine (hs.ends_holding hact).bind ?_
  rintro a _ ⟨rfl, ha⟩
  exact hf a ha

@[inherit_doc Stands.holding]
theorem Stands.leadsHolding {good : α → Prop} (hs : c.Stands xs ys s)
    (hact : Ends act s (fun a t ↦ t = s ∧ good a) fun e t ↦ t = s ∧ c.Foreseen s.heap e)
    (hf : ∀ a, good a → c.Performs xs (f a) s) :
    c.Performs xs (Session.holding ys act >>= f) s := by
  refine Leads.bind (hs.ends_holding hact) ?_
  rintro a _ ⟨rfl, ha⟩
  exact hf a ha

/-- What comes after a look while something is held. -/
theorem Stands.lookingOn (hs : c.Stands xs ys s) (hact : Looking act s)
    (hf : ∀ a, c.Plays xs (f a) s) : c.Plays xs (Session.holding ys act >>= f) s := by
  have hlook : Ends act s (fun _ t ↦ t = s ∧ True) fun e t ↦ t = s ∧ c.Foreseen s.heap e :=
    hact.mono (fun _ _ ht ↦ ⟨ht, trivial⟩) fun _ _ ht ↦ ⟨ht.1, .inl ht.2⟩
  exact hs.holding hlook fun a _ ↦ hf a

theorem Looking.plays (hact : Looking act s) (hs : c.Stands xs [] s) : c.Plays xs act s := by
  refine hact.mono (fun _ _ ht ↦ ht ▸ hs.settled) fun e t ht ↦ ?_
  obtain ⟨rfl, he⟩ := ht
  exact ⟨hs.settled, .inl he⟩

/-- What a step holds, or a register, is there. -/
theorem Stands.isSome (hs : c.Stands xs ys s) {x : Hold} (hx : x ∈ ys ∨ x ∈ s.holds) :
    (s.heap.content? x).isSome :=
  hs.here.isSome_of_mem (List.mem_append.2 (hx.imp_right hs.mem_outside))

/-- What comes after a reference was followed. -/
theorem Stands.deref {name : String} {f : HandleId → SessionM Obj β} (hs : c.Stands xs [] s)
    (hstrays : (s.references.get? name).join = none → c.strays)
    (hf : ∀ i, s.references.get? name = some (some i) → c.Performs xs (f i) s) :
    c.Performs xs (Session.deref name >>= f) s := by
  refine Leads.bind ((Session.ends_deref name s).mono (fun i t ht ↦ ht) ?_) ?_
  · rintro fault _ ⟨rfl, hfault, hnone⟩
    exact ⟨hs.settled, .inr (.inr ⟨hfault, hstrays hnone⟩)⟩
  · rintro i _ ⟨rfl, hr⟩
    exact hf i hr

end

/-! ## Results -/

/-- A reference that is the result of a step. -/
theorem Stands.deliver {s : Session Obj} {r : Option HandleId}
    (hs : c.Stands xs (referenceHolds r ++ []) s) (into : Option String) :
    c.Plays xs (Session.deliver into r) s := by
  rw [List.append_nil] at hs
  rw [Session.deliver]
  refine hs.lookingOn (Looking.writtenReference hs.here.sound fun y hy ↦ hs.isSome (.inl hy))
    fun contents ↦ ?_
  cases into with
  | some name => exact (hs.keepReference name).andThen fun _ _ ht ↦ ht.plays _
  | none => exact hs.letGo.andThen fun _ _ ht ↦ ht.plays _

/-- A value that is the result of a step. -/
theorem Stands.deliverValue {s : Session Obj} {v : Value Obj} (hs : c.Stands xs (v.holds ++ []) s)
    (hm : c.regular → s.heap.Matched v) (target : Option String) :
    c.Plays xs (Session.deliverValue target v) s := by
  rw [List.append_nil] at hs
  rw [Session.deliverValue]
  refine hs.lookingOn (Looking.written hs.here.sound fun y hy ↦ hs.isSome (.inl hy)) fun d ↦ ?_
  cases target with
  | some name =>
    have hs' : c.Stands xs (Stored.own v).holds s := hs
    refine (hs'.keepValue (fun hr w he ↦ ?_) name).andThen fun _ _ ht ↦ ht.plays _
    cases he
    exact hm hr
  | none => exact hs.letGo.andThen fun _ _ ht ↦ ht.plays _

/-! ## What a step holds while it runs -/

theorem Settled.release {s : Session Obj}
    (hs : (c.withOutside (zs ++ c.outside)).Settled (zs ++ xs) s) :
    c.Settled xs { s with heap := s.heap.release zs } ∧
      s.heap.Released (s.heap.release zs) (xs ++ s.holds) := by
  have hdone : c.Done (zs ++ (xs ++ s.holds)) s.heap := by
    refine (hs.done.ofOutside (c := c) fun x hx ↦ List.mem_append_right _ hx).perm (.of_eq ?_)
    rw [List.append_assoc]
  have hr := Heap.released_release hdone.sound
  refine ⟨⟨hdone.release, fun hreg v hv ↦ ?_⟩, hr⟩
  refine hr.quiet.steady.matched hdone.sound.tidy (hs.values hreg v hv) fun y hy ↦ ?_
  exact hr.sound.isSome_of_mem
    (List.mem_append_right _ (Session.mem_holds_of_value hv y hy))

/-- An operation during which something is held. -/
theorem Plays.during {α : Type} {act : SessionM Obj α} {s : Session Obj}
    (hact : (c.withOutside (zs ++ c.outside)).Plays (zs ++ xs) act s) :
    c.Plays xs (Session.during zs act) s := by
  refine Ends.bind (Ends.tryCatch hact fun e t ht ↦ ?_) fun a t ht ↦ ?_
  · exact Ends.after rfl (Ends.throw ⟨ht.1.release.1, ht.2.release ht.1.release.2⟩)
  · exact Ends.after rfl (Ends.pure ht.release.1)

@[inherit_doc Plays.during]
theorem Performs.during {α : Type} {act : SessionM Obj α} {s : Session Obj}
    (hact : (c.withOutside (zs ++ c.outside)).Performs (zs ++ xs) act s) :
    c.Performs xs (Session.during zs act) s := by
  refine fun hwhy ↦ Plays.during (hact fun hu ↦ (hwhy hu).imp_right fun he ↦ ?_)
  exact (he.first fun _ _ _ ↦ not_exhausts_of_ok rfl).of_tryCatch fun _ t ↦ ⟨_, rfl⟩

end Scene
end ScriptHeap
