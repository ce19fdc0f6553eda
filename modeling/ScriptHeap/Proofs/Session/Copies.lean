import Mathlib
import ScriptHeap.Proofs.Session.Frame
import ScriptHeap.Proofs.Datum
import ScriptHeap.Host.Sample

/-!
# Copies

A copy of a variable shows what the variable showed.  A container is copied by one more hold of its
element list, and the list is taken apart when one of its holders is to be changed.  The elements
are handles, though, and a reference to one of them that was taken before still writes to it: the
copy sees that, like everybody else.  So a copy stays as it was exactly as long as no step changes
what a handle reached from it shows.

## What is here

* `Session.Copies` — a step has made a copy of what a handle shows, and where the copy is.
* `Session.Copies.shows` — the copy shows what the handle showed, and no list has it as an element.
* `Heap.shape_of_reaches` — when a step leaves a cell as it is seen, so it does the variable it
  works on, if that is reached from there.
* `Session.EveryStep` — what holds of every step of a run.
* `Session.copy_kept_iff` — how long a copy stays as it was.
* `Session.copy_written_through` — a copy that a write to an older reference changes.
-/

set_option autoImplicit false
namespace ScriptHeap

variable {Obj : Type}

namespace Heap

/-! ## What is held by a cell that is seen as before -/

variable {h h' : Heap Obj} {xs ys : List Hold}

theorem Sound.exists_valueOf?_of_mem (hs : h.Sound xs) {i : HandleId} {x : Hold}
    (hi : .handle i ∈ h.holdsOf x) : ∃ v, h.valueOf? i = some v := by
  obtain ⟨-, v, -, -, hv⟩ := hs.exists_value (hs.isSome_of_mem_holdsOf hi)
  exact ⟨v, hv⟩

/-- What is held by a cell is seen as before when the cell is, and is what it was. -/
theorem shape_of_mem_holdsOf (hs : h.Sound xs) (hs' : h'.Sound ys) {x y : Hold}
    (hx : h'.content? x = h.content? x)
    (hshape : ∀ depth, shape depth h' x = shape depth h x) (hy : y ∈ h.holdsOf x) (depth : Nat) :
    shape depth h' y = shape depth h y := by
  obtain ⟨k, hk, hky⟩ := (mem_holdsOf y).1 hy
  rcases content?_sort hk with ⟨b, v, rfl, rfl, hv⟩ | ⟨i, b, rfl, rfl, hb⟩ | ⟨l, is, rfl, rfl, his⟩
  · have hv' := valueAt?_congr hx
    have houtline (d : Nat) : outline d h' v = outline d h v := by
      have hd := hshape d
      rw [shape, shape, hv', hv] at hd
      exact (List.cons.inj hd).1
    obtain ⟨l, rfl, hl⟩ : ∃ l, y = .list l ∧ v.list? = some l := by
      cases v with
      | scalar s => exact absurd hky List.not_mem_nil
      | array l => exact ⟨l, List.mem_singleton.1 hky, rfl⟩
      | struct names l => exact ⟨l, List.mem_singleton.1 hky, rfl⟩
    rw [← elements_outline hl, ← elements_outline hl, houtline]
  · obtain rfl := List.mem_singleton.1 hky
    have hd := hshape depth
    rwa [shape, shape, valueOf?, valueOf?, blockOf?_congr hx, hb] at hd
  · obtain ⟨i, hi, rfl⟩ := List.mem_map.1 hky
    have hitems : h'.items l = h.items l := by rw [items, items, elements?_congr hx]
    have hd := hshape depth
    rw [shape, shape, hitems, items_eq his] at hd
    have hseen := List.map_inj_left.1 hd i hi
    have hmem : Hold.handle i ∈ h'.holdsOf (.list l) := by rwa [holdsOf, hx]
    obtain ⟨v, hv⟩ := hs.exists_valueOf?_of_mem hy
    obtain ⟨v', hv'⟩ := hs'.exists_valueOf?_of_mem hmem
    rw [shape, shape, hv, hv', Option.map_some, Option.map_some]
    rw [shown_eq hv, shown_eq hv'] at hseen
    rw [hseen]

/-- **When a cell is seen as before**, so is the first blocked handle on any way from there: the
cells up to it are what they were. -/
theorem shape_of_reaches (hs : h.Sound xs) (hs' : h'.Sound ys) {blocked : HandleId → Prop}
    {x : Hold} (hkept : ∀ y, h.Clear blocked x y → h'.content? y = h.content? y)
    (hshape : ∀ depth, shape depth h' x = shape depth h x) {j : HandleId} (hj : blocked j)
    (hreach : h.Reaches x (.handle j)) :
    ∃ i, blocked i ∧ ∀ depth, shape depth h' (.handle i) = shape depth h (.handle i) := by
  have hmet {z : Hold} (hz : ∀ depth, shape depth h' z = shape depth h z)
      (hclear : (∀ i, z = .handle i → ¬ blocked i) → h.Clear blocked x z) :
      (h.Clear blocked x z ∧ ∀ depth, shape depth h' z = shape depth h z) ∨
        ∃ i, blocked i ∧ ∀ depth, shape depth h' (.handle i) = shape depth h (.handle i) := by
    by_cases hb : ∃ i, z = .handle i ∧ blocked i
    · obtain ⟨i, rfl, hi⟩ := hb
      exact .inr ⟨i, hi, hz⟩
    · exact .inl ⟨hclear fun i hi hbi ↦ hb ⟨i, hi, hbi⟩, hz⟩
  have hway {z : Hold} (hz : h.Reaches x z) :
      (h.Clear blocked x z ∧ ∀ depth, shape depth h' z = shape depth h z) ∨
        ∃ i, blocked i ∧ ∀ depth, shape depth h' (.handle i) = shape depth h (.handle i) := by
    induction hz with
    | here _ => exact hmet hshape .here
    | next hy hz _ ih =>
      rcases ih with ⟨hclear, hseen⟩ | hfound
      · exact hmet (shape_of_mem_holdsOf hs hs' (hkept _ hclear) hseen hz) (.next hclear hz)
      · exact .inr hfound
  rcases hway hreach with ⟨hclear, -⟩ | hfound
  · exact absurd hj (hclear.not_blocked rfl)
  · exact hfound

/-! ## What is still there after a quiet change -/

theorem Quiet.valueAt? (hq : h.Quiet h') (hs : h.Sound xs) (hs' : h'.Sound ys) {b : BlockId}
    {v : Value Obj} (hv : h.valueAt? b = some v) (hthere : (h'.content? (.block b)).isSome) :
    h'.valueAt? b = some v := by
  obtain ⟨n, hn⟩ := exists_cell?_of_content? (content?_block.2 hv)
  have hhere : h.Clear (fun _ ↦ False) (.block b) (.block b) := .here fun _ _ hf ↦ hf
  rw [valueAt?_congr (hq.kept hs hs' (born_of_cell? hs.tidy hn) hthere hhere), hv]

end Heap

namespace Root

variable {r : Root Obj} {h h' : Heap Obj}

/-- The cells that a root looks from are seen as before when it shows the same. -/
theorem shape_of_same (hsame : r.Same h h') {y : Hold} (hy : y ∈ r.holds) (depth : Nat) :
    Heap.shape depth h' y = Heap.shape depth h y := by
  cases r with
  | handle i =>
    obtain rfl := List.mem_singleton.1 hy
    exact congrArg Option.toList (hsame depth)
  | block b =>
    obtain rfl := List.mem_singleton.1 hy
    exact congrArg Option.toList (hsame depth)
  | stored x =>
    cases x with
    | snapshot b =>
      obtain rfl := List.mem_singleton.1 hy
      exact congrArg Option.toList (hsame depth)
    | own v =>
      have houtline := Option.some.inj (hsame (depth + 1))
      obtain ⟨l, hl⟩ : ∃ l, v.list? = some l := by
        cases v with
        | scalar s => exact absurd hy List.not_mem_nil
        | array l => exact ⟨l, rfl⟩
        | struct names l => exact ⟨l, rfl⟩
      have hy' : y ∈ v.holds := hy
      rw [Heap.holds_of_list? hl] at hy'
      obtain rfl := List.mem_singleton.1 hy'
      rw [← Heap.elements_outline hl, ← Heap.elements_outline hl, houtline]

/-- What a root is written out as stays the same when it shows the same. -/
theorem written_eq {d d' : Datum Obj} (hsame : r.Same h h')
    (hd : (r.value? h).bind h.datum? = some d) (hd' : (r.value? h').bind h'.datum? = some d') :
    d' = d := by
  obtain ⟨v, hv, hvd⟩ := Option.bind_eq_some_iff.1 hd
  obtain ⟨v', hv', hvd'⟩ := Option.bind_eq_some_iff.1 hd'
  have hdepth := hsame (max h.depth h'.depth)
  rw [hv, hv', Option.map_some, Option.map_some,
    Heap.outline_of_datumWithin hvd (Nat.le_max_left _ _),
    Heap.outline_of_datumWithin hvd' (Nat.le_max_right _ _)] at hdepth
  exact Option.some.inj hdepth

end Root

/-! ## Steps that make copies -/

namespace Session

/-- The variable that a step copies. -/
def copied? (s : Session Obj) : Step Obj → Option HandleId
  | .bind _ (.reference source) | .duplicate _ source | .snapshot source _ =>
    (s.references.get? source).join
  | _ => none

/-- Where the copy is that a step has made. -/
def copyOf? (s : Session Obj) : Step Obj → Option (Root Obj)
  | .bind name (.reference _) | .duplicate name _ => (s.references.get? name).join.map .handle
  | .snapshot _ name => (s.values.get? name).map .stored
  | _ => none

/-- No list has a root as an element. -/
def Loose (s : Session Obj) (r : Root Obj) : Prop :=
  ∀ j, r = .handle j → s.heap.uses (.handle j) = 0

/-- A root shows a value, and no list has it as an element. -/
structure Shows (s : Session Obj) (r : Root Obj) (v : Value Obj) : Prop where
  has : s.Has r
  value : r.value? s.heap = some v
  loose : s.Loose r

/-- The list of a container that a root shows is there. -/
theorem Has.isSome_of_list? {s : Session Obj} {r : Root Obj} {v : Value Obj} {l : ListId}
    (hr : s.Has r) (hs : s.Books) (hv : r.value? s.heap = some v) (hl : v.list? = some l) :
    (s.heap.content? (.list l)).isSome := by
  have hblock {b : BlockId} (hb : s.heap.valueAt? b = some v) :
      (s.heap.content? (.list l)).isSome := by
    exact hs.isSome_of_mem_holdsOf (Heap.list_mem_holdsOf hb hl)
  cases r with
  | handle i =>
    obtain ⟨b, -, hb⟩ := Option.bind_eq_some_iff.1 hv
    exact hblock hb
  | block b => exact hblock hv
  | stored x =>
    cases x with
    | snapshot b => exact hblock hv
    | own w =>
      cases hv
      refine hr.isSome hs ?_
      show Hold.list l ∈ v.holds
      exact Heap.list_mem_holds hl

end Session

namespace Scene

variable [HostObject Obj] {c : Scene Obj} {xs ys : List Hold} {s : Session Obj}
  {name source : String} {i : HandleId}

/-- A new handle that is kept in a register. -/
theorem Stands.keepCopy {j : HandleId} {v : Value Obj} (hs : c.Stands xs [.handle j] s)
    (hv : s.heap.valueOf? j = some v) (hloose : s.heap.uses (.handle j) = 0) (name : String) :
    Runs (Session.keepReference name (some j)) s fun _ t ↦
      t.references.get? name = some (some j) ∧ t.Shows (.handle j) v := by
  have hs' : c.Stands xs (referenceHolds (some j)) s := hs
  let t : Session Obj := { s with references := s.references.insert name (some j) }
  have hget : t.references.get? name = some (some j) := by
    rw [Registers.get?_insert, if_pos rfl]
  have hsound := (hs'.regroup (t := t) rfl (s.holds_insertReference name (some j))).sound
  have hr := Heap.released_release hsound
  have hthere := hr.sound.isSome_of_mem
    (List.mem_append_right _ (Session.mem_holds_of_reference hget))
  have hshown := hr.quiet.valueOf? hsound hr.sound hv hthere
  refine ⟨(), _, rfl, hget, ⟨?_, hshown, fun e he ↦ ?_⟩⟩
  · obtain ⟨b, hb, -⟩ := Option.bind_eq_some_iff.1 hshown
    obtain ⟨cell, hcell, -⟩ := Option.map_eq_some_iff.1 hb
    exact Option.isSome_iff_exists.2 ⟨cell, hcell⟩
  · cases he
    exact Nat.le_zero.1 (hloose ▸ hr.uses_le (.handle j))

/-- A block that is kept in a value register. -/
theorem Stands.keepSnapshot {b : BlockId} {v : Value Obj} (hs : c.Stands xs [.block b] s)
    (hv : s.heap.valueAt? b = some v) (name : String) :
    Runs (Session.keepValue name (.snapshot b)) s fun _ t ↦
      t.values.get? name = some (.snapshot b) ∧ t.Shows (.stored (.snapshot b)) v := by
  have hs' : c.Stands xs (Stored.snapshot b : Stored Obj).holds s := hs
  let t : Session Obj := { s with values := s.values.insert name (.snapshot b) }
  have hget : t.values.get? name = some (.snapshot b) := by
    rw [Registers.get?_insert, if_pos rfl]
  have hsound := (hs'.regroup (t := t) rfl (s.holds_insertValue name (.snapshot b))).sound
  have hr := Heap.released_release hsound
  have hmem := Session.mem_holds_of_value (Registers.mem_contents_of_get? hget) (.block b)
    (List.mem_singleton_self _)
  have hthere := hr.sound.isSome_of_mem (List.mem_append_right _ hmem)
  refine ⟨(), _, rfl, hget, ⟨?_, ?_, fun e he ↦ by cases he⟩⟩
  · exact Registers.mem_contents_of_get? hget
  · exact hr.quiet.valueAt? hsound hr.sound hv hthere

/-- What a step leads to that makes a copy. -/
def Copying (s : Session Obj) (x : Step Obj) (i : HandleId) : Prop :=
  Ends (Session.apply x) s
    (fun _ t ↦ ∃ r v, s.heap.valueOf? i = some v ∧ t.copyOf? x = some r ∧ t.Shows r v)
    fun _ _ ↦ True

theorem Begins.copyingBind (hs : c.Begins xs [] s)
    (hf : c.Fits s (.bind name (.reference source)))
    (hi : s.references.get? source = some (some i)) :
    Copying s (.bind name (.reference source)) i := by
  have hsuits := hf.suits (List.mem_singleton_self (Operand.reference source))
  obtain ⟨_, w, -, -, hw⟩ :=
    hs.stands.here.exists_value (hs.isSome (Session.mem_holds_of_reference hi))
  refine Ends.bind ((hs.ends_operandCopy hsuits).mono (fun v t ht ↦ ht) ?_) ?_
  · exact fun _ _ _ ↦ trivial
  rintro v _ ⟨h, rfl, -, hs₁, hm, hoffers, -⟩
  obtain rfl := hoffers.eq_of_offered (by rw [Session.offered?, hi, ← hw]; rfl)
  have hnew := Session.ends_onHeap (hs₁.stands.here.bindNew hm)
  refine Ends.bind (hnew.mono (fun j t ht ↦ ht) fun _ _ _ ↦ trivial) ?_
  rintro j _ ⟨h', rfl, ha, -, hj, -⟩
  have hloose := ha.loose j List.mem_cons_self
  obtain ⟨_, t, hrun, hget, hshows⟩ :=
    Stands.keepCopy (hs₁.stands.withHeap ha.settle) hj hloose name
  refine Ends.after hrun (.pure ⟨.handle j, v, hw, ?_, hshows⟩)
  rw [Session.copyOf?, hget]
  rfl

theorem Begins.copyingDuplicate (hs : c.Begins xs [] s)
    (hi : s.references.get? source = some (some i)) :
    Copying s (.duplicate name source) i := by
  have hreference : Session.reference source s = .ok (some i) s := by
    show EStateM.Result.ok (s.references.get? source).join s = _
    rw [hi]
    rfl
  have hthere := hs.isSome (Session.mem_holds_of_reference hi)
  obtain ⟨b, v, hb, hv, hvalue⟩ := hs.stands.here.exists_value hthere
  obtain ⟨j, h, hrun, ha, ⟨b', hb', hg, -⟩, hj, -⟩ := hs.stands.here.duplicate hthere
  have hmap : ((some i).mapM fun i ↦ Session.onHeap (Heap.duplicate i)) s
      = .ok (some j) { s with heap := h } :=
    bind_of_ok (Session.onHeap_of_ok hrun)
  have hjv : h.valueOf? j = some v := by
    rw [Heap.valueOf?, hj, hb, Option.bind_some, hg.valueAt? hv]
  obtain ⟨_, t, hkeep, hget, hshows⟩ :=
    Stands.keepCopy (hs.stands.withHeap ha.settle) hjv (ha.loose j List.mem_cons_self) name
  refine Ends.after hreference (Ends.after hmap (Ends.after hkeep ?_))
  refine .pure ⟨.handle j, v, hvalue, ?_, hshows⟩
  rw [Session.copyOf?, hget]
  rfl

theorem Begins.copyingSnapshot (hs : c.Begins xs [] s)
    (hi : s.references.get? source = some (some i)) :
    Copying s (.snapshot source name) i := by
  have hthere := hs.isSome (Session.mem_holds_of_reference hi)
  obtain ⟨b, h, hrun, ha, hg, hb, -⟩ := hs.stands.here.snapshot hthere
  obtain ⟨v, hv, hiv⟩ := hs.stands.here.sound.exists_valueOf? hb
  obtain ⟨_, t, hkeep, hget, hshows⟩ :=
    Stands.keepSnapshot (hs.stands.withHeap ha) (hg.valueAt? hv) name
  refine Ends.after (Session.deref_of_some hi)
    (Ends.after (Session.onHeap_of_ok hrun) (Ends.after hkeep ?_))
  refine .pure ⟨.stored (.snapshot b), v, hiv, ?_, hshows⟩
  rw [Session.copyOf?, hget]
  rfl

end Scene

namespace Session

variable [HostObject Obj] {s t : Session Obj} {x : Step Obj} {i : HandleId} {r : Root Obj}

/-- A step has made a copy of what a handle shows. -/
structure Copies (s : Session Obj) (x : Step Obj) (i : HandleId) (r : Root Obj) : Prop where
  done : (s.step x).1 = .done
  source : s.copied? x = some i
  copy : (s.step x).2.copyOf? x = some r

theorem exists_of_ends {good : Answer Obj → Session Obj → Prop}
    (hx : Ends (apply x) s good fun _ _ ↦ True) (hdone : (s.step x).1 = .done) :
    ∃ a, good a (s.step x).2 := by
  unfold Ends at hx
  rw [step] at hdone ⊢
  split at hx
  · rename_i a t hrun
    rw [hrun]
    exact ⟨a, hx⟩
  · rename_i fault t hrun
    rw [hrun] at hdone
    cases hdone

theorem Copies.copying (hs : s.Books) (hc : s.Copies x i r) : Scene.Copying s x i := by
  have hbegins := Scene.begins_ofStep hs x
  have hsource := hc.source
  unfold copied? at hsource
  split at hsource
  · exact hbegins.copyingBind (Scene.fits_ofStep hs _) (Option.join_eq_some_iff.1 hsource)
  · exact hbegins.copyingDuplicate (Option.join_eq_some_iff.1 hsource)
  · exact hbegins.copyingSnapshot (Option.join_eq_some_iff.1 hsource)
  · cases hsource

theorem Copies.reads (hc : s.Copies x i r) : s.Reads x := by
  have hsource := hc.source
  unfold copied? at hsource
  split at hsource
  · trivial
  · trivial
  · trivial
  · cases hsource

/-- **A copy shows what was copied**, all the way down, and no list has it as an element. -/
theorem Copies.shows (hs : s.Books) (hc : s.Copies x i r) :
    (s.step x).2.Has r ∧ (s.step x).2.Loose r ∧
      ∀ depth, (r.value? (s.step x).2.heap).map (Heap.outline depth (s.step x).2.heap) =
        (s.heap.valueOf? i).map (Heap.outline depth s.heap) := by
  obtain ⟨-, r', v, hv, hcopy, hshows⟩ := exists_of_ends (hc.copying hs) hc.done
  cases hcopy.symm.trans hc.copy
  have hd := (Scene.settled_step hs x).done
  refine ⟨hshows.has, hshows.loose, fun depth ↦ ?_⟩
  rw [hshows.value, hv, Option.map_some, Option.map_some]
  refine congrArg some (Heap.outline_of_list (fun l hl ↦ ?_) depth)
  obtain ⟨b, -, hb⟩ := Option.bind_eq_some_iff.1 hv
  have hborn := hs.born_of_mem_holdsOf (Heap.list_mem_holdsOf hb hl)
  have hthere := hshows.has.isSome_of_list? hd.sound hshows.value hl
  exact (hd.shown (.inl hc.reads) _ hborn hthere).2

/-! ## How long a copy stays as it was -/

/-- Something holds of every step of a run: of the session before it, the step, and the session
after it. -/
def EveryStep (P : Session Obj → Step Obj → Session Obj → Prop) (s : Session Obj) :
    List (Step Obj) → Prop
  | [] => True
  | x :: xs => P s x (s.step x).2 ∧ EveryStep P (s.step x).2 xs

theorem EveryStep.mono {P Q : Session Obj → Step Obj → Session Obj → Prop} {s : Session Obj}
    {xs : List (Step Obj)} (h : EveryStep P s xs) (hPQ : ∀ s x t, P s x t → Q s x t) :
    EveryStep Q s xs := by
  induction xs generalizing s with
  | nil => trivial
  | cons x xs ih => exact ⟨hPQ _ _ _ h.1, ih h.2⟩

/-- If the variable that a step works on is reached from a root, it shows the same after the step.
-/
def Spares (r : Root Obj) (s : Session Obj) (x : Step Obj) (t : Session Obj) : Prop :=
  ∀ j, s.target? x = some j → r.Reaches s.heap j → (Root.handle j).Same s.heap t.heap

theorem Loose.step (hs : s.Books) (hr : s.Has r) (hl : s.Loose r) (x : Step Obj) :
    (s.step x).2.Loose r := by
  have hd := (Scene.settled_step hs x).done
  intro j hj
  subst hj
  obtain ⟨k, hk⟩ := Option.isSome_iff_exists.1 (hr.isSome hs (List.mem_singleton_self _))
  obtain ⟨n, hn⟩ := Heap.exists_cell?_of_content? hk
  exact hd.apart j (Heap.born_of_cell? hs.tidy hn) (hl j rfl)

/-- **One step** leaves a root that no list has as an element exactly when it leaves the variable
that it works on, as far as that is reached. -/
theorem Books.same_step_iff (hs : s.Books) (hr : s.Has r) (hl : s.Loose r)
    (hr' : (s.step x).2.Has r) :
    r.Same s.heap (s.step x).2.heap ↔ Spares r s x (s.step x).2 := by
  constructor
  · rintro hsame j hj ⟨y, hy, hreach⟩
    have hd := (Scene.settled_step hs x).done
    have hkept := hd.kept y (hr.lasts hs hr' (fun e _ he ↦ hl e he) y hy)
    obtain ⟨i, hi, hseen⟩ :=
      Heap.shape_of_reaches hs hd.sound hkept (Root.shape_of_same hsame hy) hj hreach
    cases hj.symm.trans hi
    exact fun depth ↦ Root.toList_inj (hseen depth)
  · exact fun hspares ↦ hs.same_step hr hr' (fun e _ he ↦ hl e he) hspares

theorem Books.kept_iff {h : Heap Obj} {xs : List (Step Obj)} (hs : s.Books) (hr : s.Has r)
    (hl : s.Loose r) (hsame : r.Same h s.heap) (hstays : s.EveryStep (fun _ _ t ↦ t.Has r) xs) :
    s.EveryStep (fun _ _ t ↦ r.Same h t.heap) xs ↔ s.EveryStep (Spares r) xs := by
  induction xs generalizing s with
  | nil => exact Iff.rfl
  | cons x xs ih =>
    obtain ⟨hr', hstays⟩ := hstays
    have hstep := hs.same_step_iff hr hl hr'
    have hrest := fun hsame' ↦ ih (hs.step x) hr' (hl.step hs hr x) hsame' hstays
    constructor
    · rintro ⟨hx, hxs⟩
      exact ⟨hstep.1 (hsame.symm.trans hx), (hrest hx).1 hxs⟩
    · rintro ⟨hx, hxs⟩
      have hx' := hsame.trans (hstep.2 hx)
      exact ⟨hx', (hrest hx').2 hxs⟩

/-- **How long a copy stays as it was.**  In a session that steps have led to, the copy of a
variable shows what the variable shows.  As long as the copy is there, it goes on to show that, all
the way down and whatever steps come, exactly until a step changes the variable it works on and this
variable is reached from the copy. -/
theorem copy_kept_iff {xs : List (Step Obj)} (hs : s.Reachable) (hc : s.Copies x i r)
    (hstays : (s.step x).2.EveryStep (fun _ _ t ↦ t.Has r) xs) :
    (∀ depth, (r.value? (s.step x).2.heap).map (Heap.outline depth (s.step x).2.heap) =
      ((Root.handle i).value? s.heap).map (Heap.outline depth s.heap)) ∧
    ((s.step x).2.EveryStep (fun _ _ t ↦ r.Same (s.step x).2.heap t.heap) xs ↔
      (s.step x).2.EveryStep (Spares r) xs) := by
  obtain ⟨hr, hl, hshows⟩ := hc.shows hs.books
  exact ⟨hshows, (hs.books.step x).kept_iff hr hl (.refl r _) hstays⟩

/-! ## A copy that is written through -/

/-- An array of two numbers, and a reference to the first of them. -/
def withElement : Session SampleObject :=
  ((start ⟨false, ⟨4, none⟩⟩).run
    [.bind "h" (.literal (.array [.scalar (.integer 1), .scalar (.integer 2)])),
      .subscript "h" (.literal (.scalar (.integer 1))) (some "e")]).2

/-- The array is copied. -/
def withCopy : Session SampleObject :=
  (withElement.step (.bind "c" (.reference "h"))).2

/-- The first of the numbers is written to by means of the reference. -/
def writeElement : Step SampleObject :=
  .assign "e" (.literal (.scalar (.integer 99)))

def withWrite : Session SampleObject :=
  (withCopy.step writeElement).2

theorem reachable_withElement : withElement.Reachable := by
  unfold withElement
  exact ⟨_, _, rfl⟩

theorem copies_withElement :
    withElement.Copies (.bind "c" (.reference "h")) ⟨2⟩ (.handle ⟨3⟩) where
  done := by cbv
  source := by decide +kernel
  copy := by cbv

theorem has_withWrite : withWrite.Has (.handle ⟨3⟩) := by
  show (withWrite.heap.handle? ⟨3⟩).isSome = true
  decide +kernel

/-- The copy of the array stays as it was exactly when the write leaves the element. -/
theorem copy_kept_iff_withElement :
    withElement.Reachable ∧ withElement.Copies (.bind "c" (.reference "h")) ⟨2⟩ (.handle ⟨3⟩) ∧
      withCopy.EveryStep (fun _ _ t ↦ t.Has (.handle ⟨3⟩)) [writeElement] ∧
      (withCopy.EveryStep (fun _ _ t ↦ (Root.handle ⟨3⟩).Same withCopy.heap t.heap) [writeElement] ↔
        withCopy.EveryStep (Spares (.handle ⟨3⟩)) [writeElement]) := by
  have hstays : withCopy.EveryStep (fun _ _ t ↦ t.Has (.handle ⟨3⟩)) [writeElement] :=
    ⟨has_withWrite, trivial⟩
  unfold withCopy at hstays ⊢
  have hkept := copy_kept_iff reachable_withElement copies_withElement hstays
  exact ⟨reachable_withElement, copies_withElement, hstays, hkept.2⟩

/-- **A copy is not apart.**  The copy of the array shows the write, though the reference was taken
from the array before. -/
theorem copy_written_through :
    withElement.Reachable ∧ withElement.Copies (.bind "c" (.reference "h")) ⟨2⟩ (.handle ⟨3⟩) ∧
      withElement.references.get? "e" = some (some ⟨0⟩) ∧
      withCopy.target? writeElement = some ⟨0⟩ ∧
      withWrite.Has (.handle ⟨3⟩) ∧
      withCopy.heap.contents? ⟨3⟩ = some (.array [.scalar (.integer 1), .scalar (.integer 2)]) ∧
      withWrite.heap.contents? ⟨3⟩ = some (.array [.scalar (.integer 99), .scalar (.integer 2)]) ∧
      ¬ (Root.handle ⟨3⟩).Same withCopy.heap withWrite.heap := by
  have hbefore : withCopy.heap.contents? ⟨3⟩ =
      some (.array [.scalar (.integer 1), .scalar (.integer 2)]) := by cbv
  have hafter : withWrite.heap.contents? ⟨3⟩ =
      some (.array [.scalar (.integer 99), .scalar (.integer 2)]) := by cbv
  refine ⟨reachable_withElement, copies_withElement, by decide +kernel, by decide +kernel, has_withWrite,
    hbefore, hafter, fun hsame ↦ ?_⟩
  have heq := Root.written_eq hsame hbefore hafter
  cases heq

end Session
end ScriptHeap
