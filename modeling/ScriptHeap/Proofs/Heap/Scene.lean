import ScriptHeap.Proofs.Heap.Cycles
import ScriptHeap.Proofs.Outcome

/-!
# What an operation leaves alone

An operation is watched against the heap that it began with.  Others hold things on the outside;
from there they see certain cells, and an operation on some handles may change what is seen through
these handles and nothing else.  What had more than one holder is not changed at all.

## What is here

* `Scene` — the heap before, the holds outside, the handles that may be written.
* `Scene.At` — how the heap stands to the scene at some moment of an operation: it is sound with the
  holds that the operation has by then, all that is seen from outside past the blocked handles is as
  it was, and so is all that had more than one holder.
* `Scene.Free` — a cell that nobody outside sees and that was not shared, which the operation may
  therefore change.
* `Scene.Calm` — nothing is held less than before the operation, so what has a single holder had no
  other, and the variables that are to keep their lists share them with nobody.
* `Scene.At.quiet`, `Scene.At.changes` — the steps that keep a heap at a scene.
* `Scene.Given` — values whose holds stay.
* `Scene.Clears` — what is to be stored does not lead back to where it is stored.
* `Scene.Ties` — a variable still has its element list, with the handles that were in it.
* `Heap.Operands` — a variable and a value that does not lead back to it.
-/

set_option autoImplicit false
namespace ScriptHeap

variable {Obj : Type}

namespace Heap

/-- What is left of a heap in which a pool had no block to give: some holds were given up. -/
structure Spent (h : Heap Obj) (pool : PoolName) (capacity : Nat) (h' : Heap Obj) : Prop where
  exhausted : (h.pools.get pool).isExhausted = true
  capacity : (h.pools.get pool).capacity = capacity
  released : ∃ xs, h' = h.release xs

theorem release_release (h : Heap Obj) (xs ys : List Hold) :
    (h.release xs).release ys = h.release (xs ++ ys) :=
  List.foldl_append.symm

theorem Spent.release {h h' : Heap Obj} {pool : PoolName} {capacity : Nat}
    (hs : h.Spent pool capacity h') (ys : List Hold) : h.Spent pool capacity (h'.release ys) := by
  obtain ⟨xs, rfl⟩ := hs.released
  exact ⟨hs.exhausted, hs.capacity, xs ++ ys, h.release_release xs ys⟩

/-- A variable has an element list: the value in its block does. -/
def Stores (h : Heap Obj) (i : HandleId) (l : ListId) : Prop :=
  ∃ b v, h.blockOf? i = some b ∧ h.valueAt? b = some v ∧ v.list? = some l

/-- A variable shares neither its block nor its element list. -/
def Owns (h : Heap Obj) (i : HandleId) (l : ListId) : Prop :=
  ∃ b v, h.blockOf? i = some b ∧ h.count (.block b) = 1 ∧ h.valueAt? b = some v ∧
    v.list? = some l ∧ h.count (.list l) = 1

theorem Owns.stores {h : Heap Obj} {i : HandleId} {l : ListId} (ho : h.Owns i l) :
    h.Stores i l := by
  obtain ⟨b, v, hi, -, hb, hl, -⟩ := ho
  exact ⟨b, v, hi, hb, hl⟩

/-- The only block without a value, and the only one in the pool of such blocks, is the one that the
heap keeps. -/
def OneBlank (h : Heap Obj) : Prop :=
  ∀ b v, h.valueAt? b = some v → v = .uninit ∨ b.pool = .uninit → h.blank = some b

end Heap

/-! ## Scenes -/

/-- What an operation is watched against. -/
structure Scene (Obj : Type) [HostObject Obj] where
  /-- The heap when the operation began. -/
  before : Heap Obj
  /-- All holds from outside the heap at that time. -/
  holds : List Hold
  sound : before.Sound holds
  /-- The holds that others have while the operation runs. -/
  outside : List Hold
  /-- The handles through which others may see changes. -/
  blocked : HandleId → Prop
  /-- The handles from which others look. -/
  spared : HandleId → Prop
  /-- Whether the operation only reads. -/
  reads : Prop
  /-- Whether nobody is to see a change. -/
  unseen : Prop
  /-- Whether structs have a name for each element, at the beginning and ever after. -/
  regular : Prop
  regular_before : regular → before.Regular
  /-- Whether an element taken out of a struct that has names has one. -/
  named : Prop
  /-- Whether no cells hold each other in a circle, at the beginning and ever after. -/
  acyclic : Prop
  acyclic_before : acyclic → ¬ before.Endless
  /-- Whether variables without a value share one block, at the beginning and ever after.  No object
  says that it is no value. -/
  single : Prop
  single_before : single → before.OneBlank
  single_kind : single → ∀ o : Obj, HostObject.kind o ≠ .uninit
  /-- Whether the operation follows a reference that refers to nothing. -/
  strays : Prop
  /-- The variables that are to keep their lists. -/
  tied : HandleId → ListId → Prop
  tied_before : ∀ i l, tied i l → acyclic ∧ before.Stores i l
  /-- The elements that may leave such a list. -/
  leaves : HandleId → Prop

namespace Scene

variable [HostObject Obj] {c : Scene Obj}

/-- A cell that others look from: they hold it, or it is a handle that is still there. -/
structure Looks (c : Scene Obj) (h : Heap Obj) (r : Hold) : Prop where
  spared : ∀ i, r = .handle i → c.spared i
  born : c.before.Born r
  stays : r ∈ c.outside ∨ (∃ i, r = .handle i) ∧ (h.content? r).isSome

/-- A block or a list that had more than one holder before. -/
def Watched (c : Scene Obj) (x : Hold) : Prop :=
  (∀ i, x ≠ .handle i) ∧ 1 < c.before.count x

/-- Nobody outside sees a cell, and it was not shared. -/
structure Free (c : Scene Obj) (h : Heap Obj) (x : Hold) : Prop where
  hidden : ∀ r, c.Looks h r → ¬ c.before.Clear c.blocked r x
  unshared : ¬ c.Watched x

/-- A cell has at least as many holders as before. -/
def Full (c : Scene Obj) (h : Heap Obj) (x : Hold) : Prop :=
  c.before.count x ≤ h.count x

/-- The variables that are to keep their lists share neither block nor list. -/
def Sole (c : Scene Obj) (h : Heap Obj) : Prop :=
  ∀ i l, c.tied i l →
    ∃ b, h.blockOf? i = some b ∧ h.count (.block b) = 1 ∧ h.count (.list l) = 1

/-- All cells have as many holders as before, and those that are to be kept have one. -/
structure Calm (c : Scene Obj) (h : Heap Obj) : Prop where
  full : ∀ x, c.Full h x
  sole : c.Sole h

/-- A variable has the list that it is to keep, with the handles that were in it.  One that left is
in no list now. -/
structure Ties (c : Scene Obj) (h : Heap Obj) (i : HandleId) (l : ListId) : Prop where
  stores : h.Stores i l
  elements : ∀ e, .handle e ∈ c.before.holdsOf (.list l) →
    .handle e ∈ h.holdsOf (.list l) ∨ c.leaves e ∧ h.uses (.handle e) = 0

/-- How a heap stands to a scene, when the operation has made handles that are in no list yet and
has some other holds.  The value of a block that is being written need not match for the moment. -/
structure At (c : Scene Obj) (made : List HandleId) (ys : List Hold) (h : Heap Obj)
    (written : Option BlockId := none) : Prop where
  sound : h.Sound (handleHolds made ++ (ys ++ c.outside))
  nodup : made.Nodup
  fresh : ∀ e ∈ made, ¬ c.before.Born (.handle e)
  loose : ∀ e ∈ made, h.uses (.handle e) = 0
  onward : c.before.Onward h
  kept : ∀ r, c.Looks h r → ∀ y, c.before.Clear c.blocked r y →
    h.content? y = c.before.content? y
  shown : c.unseen → c.before.Alike h
  apart : ∀ e, c.before.Born (.handle e) → c.before.uses (.handle e) = 0 →
    h.uses (.handle e) = 0
  still : ∀ x, c.Watched x → h.content? x = c.before.content? x ∨ h.content? x = none
  regular : c.regular → ∀ b v, written ≠ some b → h.valueAt? b = some v → h.Matched v
  acyclic : c.acyclic → ¬ h.Endless
  single : c.single → h.OneBlank
  tied : ∀ i l, c.tied i l → (h.content? (.handle i)).isSome → c.Ties h i l

section
variable {u : Option BlockId} {made : List HandleId} {ys zs : List Hold} {h h' : Heap Obj}
  {x : Hold}

/-- The beginning of an operation that has certain holds of its own. -/
theorem At.start (hp : c.holds.Perm (ys ++ c.outside)) : c.At [] ys c.before where
  sound := c.sound.perm hp
  nodup := List.nodup_nil
  fresh _ he := absurd he List.not_mem_nil
  loose _ he := absurd he List.not_mem_nil
  onward := .refl _
  kept _ _ _ _ := rfl
  shown _ := .refl _
  apart _ _ h0 := h0
  still _ _ := .inl rfl
  regular hr b v _ hv := c.regular_before hr b v hv
  acyclic := c.acyclic_before
  single := c.single_before
  tied i l ht _ := ⟨(c.tied_before i l ht).2, fun _ he ↦ .inl he⟩

/-- The scene of an operation that may write to certain handles of a heap. -/
def ofHeap {h : Heap Obj} {xs : List Hold} (hs : h.Sound xs) (blocked : HandleId → Prop) :
    Scene Obj where
  before := h
  holds := xs
  sound := hs
  outside := xs
  blocked := blocked
  spared _ := True
  reads := False
  unseen := False
  regular := False
  regular_before := False.elim
  named := True
  acyclic := ¬ h.Endless
  acyclic_before hac := hac
  single := False
  single_before := False.elim
  single_kind := False.elim
  strays := False
  tied _ _ := False
  tied_before _ _ := False.elim
  leaves _ := False

theorem at_ofHeap {xs : List Hold} (hs : h.Sound xs) (blocked : HandleId → Prop) :
    (ofHeap hs blocked).At [] [] h :=
  At.start (.refl _)

theorem calm_before (hsole : c.Sole c.before) : c.Calm c.before :=
  ⟨fun _ ↦ Nat.le_refl _, hsole⟩

theorem Full.adds (hf : c.Full h x) (ha : h.Adds h') : c.Full h' x :=
  Nat.le_trans hf (ha.le x)

theorem Calm.adds (hc : c.Calm h) (ha : h.Adds h') (hsole : c.Sole h') : c.Calm h' :=
  ⟨fun x ↦ (hc.full x).adds ha, hsole⟩

/-- What has a single holder and had no more is not watched. -/
theorem Full.not_watched (hf : c.Full h x) (hx : h.count x = 1) : ¬ c.Watched x := by
  intro hw
  exact absurd (hw.2.trans_le (hx ▸ hf)) (Nat.lt_irrefl 1)

theorem full_of_not_born (hx : ¬ c.before.Born x) (h : Heap Obj) : c.Full h x := by
  have hnone := (c.sound.holdsOf_of_not_born hx).1
  rw [Full, Heap.count_eq_zero hnone]
  exact Nat.zero_le _

/-- A block may be written. -/
theorem At.write (ha : c.At made ys h) (u : Option BlockId) : c.At made ys h u :=
  { ha with regular := fun hr b v _ hv ↦ ha.regular hr b v (Option.some_ne_none b).symm hv }

/-- The value that was written matches. -/
theorem At.finish {b : BlockId} (ha : c.At made ys h (some b))
    (hm : c.regular → ∀ v, h.valueAt? b = some v → h.Matched v) : c.At made ys h :=
  { ha with
    regular := fun hr b' v _ hv ↦ by
      by_cases hb : b = b'
      · exact hm hr v (hb ▸ hv)
      · exact ha.regular hr b' v (fun he ↦ hb (Option.some.inj he)) hv }

theorem Looks.of_onward {r : Hold} (hb : c.before.Onward h) (ho : h.Onward h')
    (hr : c.Looks h' r) : c.Looks h r := by
  refine ⟨hr.spared, hr.born, ?_⟩
  rcases hr.stays with hout | ⟨hi, hk⟩
  · exact .inl hout
  · exact .inr ⟨hi, ho.gone r (hb.born r hr.born) hk⟩

theorem At.free_mono (ha : c.At made ys h u) (hf : c.Free h x) (ho : h.Onward h') : c.Free h' x :=
  ⟨fun r hr ↦ hf.hidden r (hr.of_onward ha.onward ho), hf.unshared⟩

theorem free_of_blocked {i : HandleId} (hi : c.blocked i) (h : Heap Obj) :
    c.Free h (.handle i) :=
  ⟨fun _ _ hc ↦ hc.not_blocked rfl hi, fun hw ↦ hw.1 i rfl⟩

/-- What is seen from outside holds what it held. -/
theorem At.holdsOf (ha : c.At made ys h u) {r y : Hold} (hr : c.Looks h r)
    (hc : c.before.Clear c.blocked r y) : h.holdsOf y = c.before.holdsOf y := by
  rw [Heap.holdsOf, ha.kept r hr y hc, Heap.holdsOf]

/-- What was not there before is not seen from outside. -/
theorem free_of_not_born (hx : ¬ c.before.Born x) (h : Heap Obj) : c.Free h x where
  hidden _ hr hc := hx (hc.born c.sound hr.born)
  unshared hw := by
    have hcell := (c.sound.holdsOf_of_not_born hx).1
    exact absurd hw.2 (by rw [Heap.count_eq_zero hcell]; exact Nat.not_lt_zero 1)

/-- What is held by a free cell alone is free, unless others look from there or held it before. -/
theorem At.free_of_sole (ha : c.At made ys h u) {p : Hold} (hp : c.Free h p) (hx : x ∈ h.holdsOf p)
    (hsole : h.count x = 1) (hhandle : ∀ i, x ≠ .handle i) (hfull : c.Full h x) : c.Free h x := by
  have hcount := ha.sound.counted x
  have hxp := List.count_pos_iff.2 hx
  have huse := h.count_holdsOf_le_uses x p
  refine ⟨fun r hr hc ↦ ?_, hfull.not_watched hsole⟩
  cases hc with
  | here =>
    rcases hr.stays with hout | ⟨⟨i, hi⟩, -⟩
    · have hpos := List.count_pos_iff.2 hout
      simp only [List.count_append] at hcount
      omega
    · exact hhandle i hi
  | @next y _ hy hz _ =>
    have hyp : p ≠ y := fun he ↦ hp.hidden r hr (he ▸ hy)
    rw [← ha.holdsOf hr hy] at hz
    have hzy := List.count_pos_iff.2 hz
    have htwo := h.count_holdsOf_add_le_uses x hyp
    omega

/-- An element of a free list is free, unless others look from there.  What was in no list before is
not in one now. -/
theorem At.free_element (ha : c.At made ys h u) {l : ListId} {e : HandleId}
    (hl : c.Free h (.list l)) (he : Hold.handle e ∈ h.holdsOf (.list l))
    (hspared : c.spared e → c.before.uses (.handle e) = 0) : c.Free h (.handle e) := by
  have hsingle := ha.sound.single e
  have hel := List.count_pos_iff.2 he
  refine ⟨fun r hr hc ↦ ?_, fun hw ↦ hw.1 e rfl⟩
  cases hc with
  | here =>
    have hnone := ha.apart e hr.born (hspared (hr.spared e rfl))
    have huse := h.count_holdsOf_le_uses (.handle e) (.list l)
    omega
  | @next y _ hy hz _ =>
    have hly : Hold.list l ≠ y := fun he ↦ hl.hidden r hr (he ▸ hy)
    rw [← ha.holdsOf hr hy] at hz
    have hzy := List.count_pos_iff.2 hz
    have htwo := h.count_holdsOf_add_le_uses (.handle e) hly
    omega

/-! ## Lists that are kept -/

section
variable {i : HandleId} {l : ListId} {os os' : List Hold}

/-- A list that is to be kept was there before. -/
theorem tied_born (ht : c.tied i l) : c.before.Born (.handle i) ∧ c.before.Born (.list l) := by
  obtain ⟨b, v, hi, hb, hl⟩ := (c.tied_before i l ht).2
  refine ⟨Heap.born_of_content? c.sound.tidy (Heap.content?_handle.2 hi), ?_⟩
  exact c.sound.born_of_mem_holdsOf (Heap.list_mem_holdsOf hb hl)

/-- A variable that has its list still keeps it as long as the list is not written. -/
theorem Ties.of_stores (ht : c.Ties h i l) (hstores : h'.Stores i l)
    (hlist : h'.content? (.list l) = h.content? (.list l))
    (huses : ∀ e, c.before.Born (.handle e) → h.uses (.handle e) = 0 → h'.uses (.handle e) = 0) :
    c.Ties h' i l := by
  refine ⟨hstores, fun e he ↦ (ht.elements e he).imp (fun hmem ↦ ?_) fun hleft ↦ ⟨hleft.1, ?_⟩⟩
  · rwa [Heap.holdsOf, hlist, ← Heap.holdsOf]
  · exact huses e (c.sound.born_of_mem_holdsOf he) hleft.2

/-- A variable that stays keeps its list when nothing is written. -/
theorem Ties.quiet (ht : c.Ties h i l) (hq : h.Quiet h') (hs : h.Sound os) (hs' : h'.Sound os')
    (hi : (h'.content? (.handle i)).isSome)
    (huses : ∀ e, c.before.Born (.handle e) → h.uses (.handle e) = 0 → h'.uses (.handle e) = 0) :
    c.Ties h' i l := by
  obtain ⟨b, v, hb, hv, hl⟩ := ht.stores
  -- what is held from a cell that stays is there and is as it was
  have hstays {y : Hold} {k : Content Obj} (hy : h.content? y = some k)
      (hthere : (h'.content? y).isSome) : h'.content? y = some k := by
    obtain ⟨k', hk'⟩ := Option.isSome_iff_exists.1 hthere
    have hsame := hq.content y (Heap.born_of_content? hs.tidy hy) k' hk'
    rw [hk', ← hsame, hy]
  have hheld {y z : Hold} (hz : z ∈ h'.holdsOf y) : (h'.content? z).isSome := by
    exact hs'.isSome_of_mem_holdsOf hz
  have hhandle := hstays (Heap.content?_handle.2 hb) hi
  have hb' := Heap.content?_handle.1 hhandle
  have hblock := hstays (Heap.content?_block.2 hv) (hheld (Heap.mem_holdsOf_of_blockOf? hb'))
  have hv' := Heap.content?_block.1 hblock
  obtain ⟨is, his, -⟩ := hs.exists_elements (l := l) (hs.isSome_of_value hv _
    (Heap.list_mem_holds hl))
  have hlist := hstays (Heap.content?_list.2 his) (hheld (Heap.list_mem_holdsOf hv' hl))
  exact ht.of_stores ⟨b, v, hb', hv', hl⟩ (hlist.trans (Heap.content?_list.2 his).symm) huses

/-- A variable keeps its list when another cell is written. -/
theorem Ties.changes {new : Option (Nat × Content Obj)} (ht : c.Ties h i l)
    (hc : h.Changes h' x new) (hi : x ≠ .handle i) (hb : ∀ b, h.blockOf? i = some b → x ≠ .block b)
    (hl : x ≠ .list l)
    (huses : ∀ e, c.before.Born (.handle e) → h.uses (.handle e) = 0 → h'.uses (.handle e) = 0) :
    c.Ties h' i l := by
  have hsame {y : Hold} (hy : x ≠ y) : h'.content? y = h.content? y :=
    hc.content?_of_ne hy.symm
  obtain ⟨b, v, hib, hv, hvl⟩ := ht.stores
  exact ht.of_stores ⟨b, v, (Heap.blockOf?_congr (hsame hi)).trans hib,
    (Heap.valueAt?_congr (hsame (hb b hib))).trans hv, hvl⟩ (hsame hl) huses

/-- What is still there of the variables that are to keep their lists. -/
theorem At.ties (ha : c.At made ys h u) (ht : c.tied i l) (ho : h.Onward h')
    (hi : (h'.content? (.handle i)).isSome) : c.Ties h i l :=
  ha.tied i l ht (ho.gone _ (ha.onward.born _ (tied_born ht).1) hi)

end

/-! ## Steps -/

/-- A value that may stand in a block that is new. -/
structure Admits (c : Scene Obj) (h h' : Heap Obj) (b : BlockId) (v : Value Obj) : Prop where
  matched : c.regular → h.Matched v
  blank : c.single → v = .uninit ∨ b.pool = .uninit → h'.blank = some b

/-- **A quiet step.**  Whatever is seen from outside is held from there, so it does not go. -/
theorem At.quiet {made' : List HandleId} (ha : c.At made ys h u) (hq : h.Quiet h')
    (hs : h'.Sound (handleHolds made' ++ (zs ++ c.outside))) (hnodup : made'.Nodup)
    (hfresh : ∀ e ∈ made', ¬ c.before.Born (.handle e))
    (hloose : ∀ e ∈ made', h'.uses (.handle e) = 0)
    (hapart : ∀ e, c.before.Born (.handle e) → h.uses (.handle e) = 0 →
      h'.uses (.handle e) = 0)
    (hends : ¬ h.Endless → ¬ h'.Endless)
    (hvalues : ∀ b v, h'.valueAt? b = some v → h.valueAt? b = some v ∨ c.Admits h h' b v) :
    c.At made' zs h' u where
  sound := hs
  nodup := hnodup
  fresh := hfresh
  loose := hloose
  onward := ha.onward.trans hq.onward
  kept r hr y hy := by
    have hr' := hr.of_onward ha.onward hq.onward
    have hy' := hy.congr (ha.kept r hr')
    have hthere : (h'.content? r).isSome := by
      rcases hr.stays with hout | ⟨-, hk⟩
      · exact hs.isSome_of_mem (List.mem_append_right _ (List.mem_append_right _ hout))
      · exact hk
    rw [hq.kept ha.sound hs (ha.onward.born r hr.born) hthere hy', ha.kept r hr' y hy]
  shown hread := (ha.shown hread).trans ha.onward.born (hq.alike ha.sound hs)
  apart e he h0 := hapart e he (ha.apart e he h0)
  still x hw := by
    have hborn : h.Born x := by
      obtain ⟨k, hk⟩ := Heap.exists_cell?_of_count (Nat.lt_of_succ_lt hw.2)
      exact ha.onward.born x (Heap.born_of_cell? c.sound.tidy hk)
    cases hx : h'.content? x with
    | none => exact .inr rfl
    | some k =>
      have hold := hq.content x hborn k hx
      rcases ha.still x hw with hsame | hnone
      · exact .inl (hold.symm.trans hsame)
      · rw [hnone] at hold
        cases hold
  regular hr b v hb hv := by
    have hm : h.Matched v := (hvalues b v hv).elim (ha.regular hr b v hb) fun hv ↦ hv.matched hr
    refine hq.steady.matched ha.sound.tidy hm fun y hy ↦ ?_
    have hmem : y ∈ h'.holdsOf (.block b) := by
      rwa [Heap.holdsOf_block hv]
    exact hs.isSome_of_mem_holdsOf hmem
  acyclic hends₀ := hends (ha.acyclic hends₀)
  single hone b v hv hblank := by
    rcases hvalues b v hv with hold | hnew
    · exact hq.onward.blank b (ha.single hone b v hold hblank)
    · exact hnew.blank hone hblank
  tied i l ht hi := (ha.ties ht hq.onward hi).quiet hq ha.sound hs hi hapart

/-- A quiet step after which no handle is in more lists than before. -/
theorem At.quiet_of_uses_le (ha : c.At made ys h u) (hq : h.Quiet h')
    (hs : h'.Sound (handleHolds made ++ (zs ++ c.outside)))
    (huses : ∀ e, h'.uses (.handle e) ≤ h.uses (.handle e))
    (hends : ¬ h.Endless → ¬ h'.Endless)
    (hvalues : ∀ b v, h'.valueAt? b = some v → h.valueAt? b = some v ∨ c.Admits h h' b v) :
    c.At made zs h' u := by
  refine ha.quiet hq hs ha.nodup ha.fresh (fun e he ↦ ?_) (fun e _ h0 ↦ ?_) hends hvalues
  · exact Nat.le_zero.1 (ha.loose e he ▸ huses e)
  · exact Nat.le_zero.1 (h0 ▸ huses e)

/-- **A change of a free cell** that is there.  Where nobody is to see a change, all must be seen as
before; where no circle is to be closed, what the cell holds then must not lead back to it. -/
theorem At.changes {made' : List HandleId} {n : Nat} {k : Content Obj}
    {new : Option (Nat × Content Obj)} (ha : c.At made ys h u) (hc : h.Changes h' x new)
    (hx : h.cell? x = some (n, k)) (hfree : c.Free h x)
    (hs : h'.Sound (handleHolds made' ++ (zs ++ c.outside))) (hnodup : made'.Nodup)
    (hfresh : ∀ e ∈ made', ¬ c.before.Born (.handle e))
    (hloose : ∀ e ∈ made', h'.uses (.handle e) = 0)
    (hapart : ∀ e, c.before.Born (.handle e) → h.uses (.handle e) = 0 → h'.uses (.handle e) = 0)
    (hshown : c.unseen → c.before.Alike h')
    (hregular : c.regular → ∀ b v, u ≠ some b → h'.valueAt? b = some v → h'.Matched v)
    (hends : c.acyclic → ∀ y ∈ Heap.newHolds new, ¬ h.Reaches y x)
    (hsingle : c.single → h'.OneBlank)
    (htied : ∀ i l, c.tied i l → c.Ties h i l → (h'.content? (.handle i)).isSome → c.Ties h' i l) :
    c.At made' zs h' u where
  sound := hs
  nodup := hnodup
  fresh := hfresh
  loose := hloose
  onward := ha.onward.trans (hc.onward hx)
  kept r hr y hy := by
    have hr' := hr.of_onward ha.onward (hc.onward hx)
    have hyx : y ≠ x := fun he ↦ hfree.hidden r hr' (he ▸ hy)
    rw [hc.content?_of_ne hyx]
    exact ha.kept r hr' y hy
  shown := hshown
  apart e he h0 := hapart e he (ha.apart e he h0)
  still y hw := by
    have hyx : y ≠ x := fun he ↦ hfree.unshared (he ▸ hw)
    rw [hc.content?_of_ne hyx]
    exact ha.still y hw
  regular := hregular
  acyclic hends₀ := hc.not_endless (hends hends₀) (ha.acyclic hends₀)
  single := hsingle
  tied i l ht hi := htied i l ht (ha.ties ht (hc.onward hx) hi) hi

/-! ## Bookkeeping -/

/-- The holds of the operation in front of all others. -/
theorem At.sound_append {xs : List Hold} (ha : c.At made (xs ++ ys) h u) :
    h.Sound (xs ++ (handleHolds made ++ (ys ++ c.outside))) := by
  refine ha.sound.perm ?_
  rw [List.append_assoc]
  exact List.perm_append_comm_assoc _ _ _

/-- The faults that an operation on a heap may end with, and what it leaves: no name was followed in
vain, no place was without a name where elements that are taken out have one, without circles no
variable was read while it was being written, and where a pool had no block to give, holds were
given up since then and nothing else was done. -/
def Expects (c : Scene Obj) (h : Heap Obj) : Fault → Prop
  | .exhausted pool capacity =>
    ∃ h₀, c.before.Onward h₀ ∧ (c.unseen → c.before.Alike h₀) ∧ h₀.Spent pool capacity h
  | .busy => ¬ c.acyclic
  | .unnamedPlace _ _ => ¬ c.named
  | .nullReference | .dangling => False

theorem Expects.release {f : Fault} (hf : c.Expects h f) (xs : List Hold) :
    c.Expects (h.release xs) f := by
  cases f with
  | exhausted pool capacity =>
    obtain ⟨h₀, hon, hshown, hspent⟩ := hf
    exact ⟨h₀, hon, hshown, hspent.release xs⟩
  | nullReference => exact hf
  | unnamedPlace place names => exact hf
  | busy => exact hf
  | dangling => exact hf

/-- How an operation may fault: what it held on its own account is given up. -/
def Faults (c : Scene Obj) (made : List HandleId) (ys : List Hold) (f : Fault) (h : Heap Obj) :
    Prop :=
  c.At made ys h ∧ c.Expects h f

theorem At.perm (ha : c.At made ys h u) (hp : ys.Perm zs) : c.At made zs h u :=
  { ha with sound := ha.sound.perm (.append_left _ (.append_right _ hp)) }

theorem At.permMade {made' : List HandleId} (ha : c.At made ys h u) (hp : made.Perm made') :
    c.At made' ys h u :=
  { ha with
    sound := ha.sound.perm (.append_right _ (hp.map _))
    nodup := hp.nodup_iff.1 ha.nodup
    fresh := fun i hi ↦ ha.fresh i (hp.mem_iff.2 hi)
    loose := fun i hi ↦ ha.loose i (hp.mem_iff.2 hi) }

/-- A new handle that may go into a list or not. -/
theorem At.settle {e : HandleId} (ha : c.At (e :: made) ys h u) : c.At made (.handle e :: ys) h u :=
  { ha with
    sound := ha.sound.perm List.perm_middle.symm
    nodup := (List.nodup_cons.1 ha.nodup).2
    fresh := fun i hi ↦ ha.fresh i (List.mem_cons_of_mem _ hi)
    loose := fun i hi ↦ ha.loose i (List.mem_cons_of_mem _ hi) }

theorem At.settleAll {is : List HandleId} (ha : c.At (is ++ made) ys h u) :
    c.At made (handleHolds is ++ ys) h u := by
  induction is generalizing ys with
  | nil => exact ha
  | cons e is ih => exact (ih ha.settle).perm List.perm_middle

/-- What the operation or others hold is there. -/
theorem At.isSome_of_mem (ha : c.At made ys h u) (hx : x ∈ ys ++ c.outside) :
    (h.content? x).isSome :=
  ha.sound.isSome_of_mem (List.mem_append_right _ hx)

omit [HostObject Obj] in
/-- What is held is there. -/
theorem isSome_of_count (hx : 0 < h.count x) : (h.content? x).isSome := by
  obtain ⟨k, hk⟩ := Heap.exists_cell?_of_count hx
  rw [Heap.content?_eq hk]
  rfl

/-- A value whose holds stay as long as the operation runs: the operation has them, others do, or a
block does that others hold. -/
def Given (c : Scene Obj) (ys : List Hold) (v : Value Obj) : Prop :=
  ∀ y ∈ v.holds, y ∈ ys ++ c.outside ∨ ∃ b, .block b ∈ c.outside ∧ y ∈ c.before.holdsOf (.block b)

theorem Given.mono {v : Value Obj} (hv : c.Given ys v) (hsub : ∀ y ∈ ys, y ∈ zs) :
    c.Given zs v := by
  intro y hy
  refine (hv y hy).imp_left fun hmem ↦ ?_
  rcases List.mem_append.1 hmem with hmem | hmem
  · exact List.mem_append_left _ (hsub y hmem)
  · exact List.mem_append_right _ hmem

/-- A block that others hold holds what it held. -/
theorem At.holdsOf_given (ha : c.At made ys h u) {b : BlockId} {y : Hold}
    (hb : .block b ∈ c.outside) (hy : y ∈ c.before.holdsOf (.block b)) :
    h.holdsOf (.block b) = c.before.holdsOf (.block b) := by
  obtain ⟨k, hk, -⟩ := (Heap.mem_holdsOf y).1 hy
  refine ha.holdsOf (r := .block b) ⟨fun i hi ↦ (nomatch hi), ?_, .inl hb⟩
    (.here fun i hi ↦ nomatch hi)
  exact Heap.born_of_content? c.sound.tidy hk

theorem At.count_pos (ha : c.At made ys h u) {v : Value Obj} (hv : c.Given ys v) :
    ∀ y ∈ v.holds, 0 < h.count y := by
  intro y hy
  rw [ha.sound.counted]
  rcases hv y hy with hmem | ⟨b, hb, hmem⟩
  · exact Nat.add_pos_right _ (List.count_pos_iff.2 (List.mem_append_right _ hmem))
  · rw [← ha.holdsOf_given hb hmem] at hmem
    have huse := h.count_holdsOf_le_uses y (.block b)
    have hpos := List.count_pos_iff.2 hmem
    omega

/-- A cell that others hold, and from which none of the handles is reached that may be written. -/
structure Remote (c : Scene Obj) (y : Hold) : Prop where
  spared : ∀ i, y = .handle i → c.spared i
  born : c.before.Born y
  held : y ∈ c.outside
  apart : ∀ i, c.blocked i → ¬ c.before.Reaches y (.handle i)

theorem Remote.looks {y : Hold} (hy : c.Remote y) (h : Heap Obj) : c.Looks h y :=
  ⟨hy.spared, hy.born, .inl hy.held⟩

theorem Remote.clear {y z : Hold} (hy : c.Remote y) (hz : c.before.Reaches y z) :
    c.before.Clear c.blocked y z :=
  hz.clear hy.apart

/-- What is reached from such a cell was reached before. -/
theorem At.reaches_before (ha : c.At made ys h u) {y z : Hold} (hy : c.Remote y)
    (hz : h.Reaches y z) : c.before.Reaches y z := by
  induction hz with
  | here _ => exact .refl _ y
  | next _ hw _ ih =>
    rw [ha.holdsOf (hy.looks h) (hy.clear ih)] at hw
    exact ih.next hw

/-- No way leads from such a cell to a free one. -/
theorem At.not_reaches (ha : c.At made ys h u) {y : Hold} (hy : c.Remote y)
    (hfree : c.Free h x) : ¬ h.Reaches y x :=
  fun hreach ↦ hfree.hidden y (hy.looks h) (hy.clear (ha.reaches_before hy hreach))

/-- None of certain cells leads to a cell, if no circle is to be closed. -/
def Clears (c : Scene Obj) (h : Heap Obj) (zs : List Hold) (x : Hold) : Prop :=
  c.acyclic → ∀ z ∈ zs, ¬ h.Reaches z x

theorem Clears.of_nil (hzs : zs = []) (h : Heap Obj) (x : Hold) : c.Clears h zs x := by
  subst hzs
  exact fun _ _ hz ↦ absurd hz List.not_mem_nil

theorem Clears.quiet (hclear : c.Clears h zs x) (ha : c.At made ys h u)
    (hzs : ∀ z ∈ zs, (h.content? z).isSome) (hq : h.Quiet h') : c.Clears h' zs x := by
  intro hac z hz hreach
  obtain ⟨k, hk⟩ := Option.isSome_iff_exists.1 (hzs z hz)
  obtain ⟨n, hn⟩ := Heap.exists_cell?_of_content? hk
  exact hclear hac z hz (hq.reaches ha.sound (Heap.born_of_cell? ha.sound.tidy hn) hreach)

/-! ## Lists with a single holder -/

section
variable {i : HandleId} {l : ListId} {b : BlockId} {v w : Value Obj}

/-- A block with a single holder is the block of one variable. -/
theorem At.eq_of_block {j : HandleId} (ha : c.At made ys h u) (hi : h.blockOf? i = some b)
    (hsole : h.count (.block b) = 1) (hj : h.blockOf? j = some b) : j = i :=
  Hold.handle.inj ((ha.sound.sole_holder (Heap.mem_holdsOf_of_blockOf? hi) hsole).2 _
    (Heap.mem_holdsOf_of_blockOf? hj))

/-- The value of a variable that is to keep its list. -/
theorem Ties.list? (ht : c.Ties h i l) (hi : h.blockOf? i = some b) (hb : h.valueAt? b = some v) :
    v.list? = some l := by
  obtain ⟨b', w, hi', hb', hl⟩ := ht.stores
  obtain rfl := Option.some.inj (hi.symm.trans hi')
  obtain rfl := Option.some.inj (hb.symm.trans hb')
  exact hl

/-- A given value does not have a list that one variable alone has. -/
theorem At.not_given (ha : c.At made ys h u) (hv : c.Given ys v) (hi : h.blockOf? i = some b)
    (hblock : h.count (.block b) = 1) (hb : h.valueAt? b = some w) (hl : w.list? = some l)
    (hlist : h.count (.list l) = 1) : Hold.list l ∉ v.holds := by
  obtain ⟨hout, honly⟩ := ha.sound.sole_holder (Heap.list_mem_holdsOf hb hl) hlist
  intro hmem
  rcases hv _ hmem with hgiven | ⟨b', hb', hgiven⟩
  · exact hout (List.mem_append_right _ hgiven)
  · rw [← ha.holdsOf_given hb' hgiven] at hgiven
    cases honly _ hgiven
    exact (ha.sound.sole_holder (Heap.mem_holdsOf_of_blockOf? hi) hblock).1
      (List.mem_append_right _ (List.mem_append_right _ hb'))

/-- A variable that is to keep its list, at a moment when it shares nothing. -/
theorem Sole.exists_value (hs : c.Sole h) (ha : c.At made ys h u) (ht : c.tied i l) :
    ∃ b v, h.blockOf? i = some b ∧ h.count (.block b) = 1 ∧ h.valueAt? b = some v ∧
      v.list? = some l ∧ h.count (.list l) = 1 := by
  obtain ⟨b, hi, hblock, hlist⟩ := hs i l ht
  obtain ⟨b', v, hi', hb, hl⟩ := (ha.tied i l ht (by
    rw [Heap.content?_handle.2 hi]
    rfl)).stores
  obtain rfl := Option.some.inj (hi.symm.trans hi')
  exact ⟨b, v, hi, hblock, hb, hl, hlist⟩

/-- Given values do not have it. -/
theorem Sole.not_given (hs : c.Sole h) (ha : c.At made ys h u) (ht : c.tied i l)
    (hv : c.Given ys v) : Hold.list l ∉ v.holds := by
  obtain ⟨b, w, hi, hblock, hb, hl, hlist⟩ := hs.exists_value ha ht
  exact ha.not_given hv hi hblock hb hl hlist

/-- Neither do other variables. -/
theorem Sole.unique {j : HandleId} (hs : c.Sole h) (ha : c.At made ys h u) (ht : c.tied i l)
    (hj : h.valueOf? j = some v) (hl : v.list? = some l) : j = i := by
  obtain ⟨b, w, hi, hblock, hb, hwl, hlist⟩ := hs.exists_value ha ht
  obtain ⟨b', hjb, hb'⟩ := Option.bind_eq_some_iff.1 hj
  cases (ha.sound.sole_holder (Heap.list_mem_holdsOf hb hwl) hlist).2 _
    (Heap.list_mem_holdsOf hb' hl)
  exact ha.eq_of_block hi hblock hjb

/-- New cells leave it that way when they do not hold what the variables have. -/
theorem Sole.grows {touched : Hold → Prop} (hs : c.Sole h) (hg : h.Grows h' touched)
    (hn : ∀ i l b, c.tied i l → h.blockOf? i = some b → ¬ touched (.list l) ∧ ¬ touched (.block b)) :
    c.Sole h' := by
  intro i l ht
  obtain ⟨b, hi, hblock, hlist⟩ := hs i l ht
  have hthere {y : Hold} (hy : h.count y = 1) : (h.content? y).isSome := by
    refine isSome_of_count ?_
    rw [hy]
    exact Nat.one_pos
  obtain ⟨hnl, hnb⟩ := hn i l b ht hi
  exact ⟨b, hg.blockOf? hi, (hg.count _ (hthere hblock) hnb).trans hblock,
    (hg.count _ (hthere hlist) hnl).trans hlist⟩

/-- What is held more than once is not theirs. -/
theorem Sole.release_one (hs : c.Sole h) (hx : 1 < h.count x) : c.Sole (h.release [x]) := by
  intro i l ht
  obtain ⟨b, hi, hblock, hlist⟩ := hs i l ht
  have hcount {y : Hold} (hy : h.count y = 1) : (h.release [x]).count y = 1 := by
    rw [Heap.count_release_one hx, if_neg, hy]
    rintro rfl
    omega
  exact ⟨b, (Heap.blockOf?_congr (Heap.content?_release_one hx _)).trans hi, hcount hblock,
    hcount hlist⟩

/-- Blocks without a value are not theirs. -/
theorem Sole.grows_unset (hs : c.Sole h) (ha : c.At made ys h u) (hg : h.Grows h' h.Unset) :
    c.Sole h' := by
  refine hs.grows hg fun i l b ht hi ↦ ⟨h.not_unset_list l, fun hu ↦ ?_⟩
  obtain ⟨b', v, hi', -, hb, hl, -⟩ := hs.exists_value ha ht
  obtain rfl := Option.some.inj (hi.symm.trans hi')
  cases hu.symm.trans (Heap.content?_block.2 hb)
  cases hl

end

theorem At.isSome_of_given (ha : c.At made ys h u) {v : Value Obj} (hv : c.Given ys v) :
    ∀ y ∈ v.holds, (h.content? y).isSome :=
  fun y hy ↦ isSome_of_count (ha.count_pos hv y hy)

theorem At.isSome_of_made (ha : c.At made ys h u) {e : HandleId} (he : e ∈ made) :
    (h.content? (.handle e)).isSome := by
  exact ha.sound.isSome_of_mem (List.mem_append_left _ (List.mem_map.2 ⟨e, he, rfl⟩))

end

end Scene

/-! ## Operands -/

namespace Heap

variable {h : Heap Obj} {xs : List Hold} {i : HandleId} {a v : Value Obj}

/-- A value that somebody outside has: they have its list, or a block with it. -/
def Backed (h : Heap Obj) (xs : List Hold) (v : Value Obj) : Prop :=
  ∀ y ∈ v.holds, y ∈ xs ∨ ∃ b, .block b ∈ xs ∧ y ∈ h.holdsOf (.block b)

/-- In a heap without circles, somebody outside has a variable with a value and another value, from
which the variable is not reached. -/
structure Operands (h : Heap Obj) (xs : List Hold) (i : HandleId) (a v : Value Obj) : Prop where
  sound : h.Sound xs
  grounded : ¬ h.Endless
  held : .handle i ∈ xs
  left : h.valueOf? i = some a
  right : h.Backed xs v
  apart : ∀ y ∈ v.holds, ¬ h.Reaches y (.handle i)

/-- A variable and the value that is in it, of which somebody has a snapshot. -/
theorem Operands.ofSnapshot {b : BlockId} (hs : h.Sound xs) (hends : ¬ h.Endless)
    (hi : .handle i ∈ xs) (hb : .block b ∈ xs) (hblock : h.blockOf? i = some b)
    (hvalue : h.valueAt? b = some a) : h.Operands xs i a a where
  sound := hs
  grounded := hends
  held := hi
  left := by rw [valueOf?, hblock, Option.bind_some, hvalue]
  right y hy := .inr ⟨b, hb, (mem_holdsOf y).2 ⟨_, content?_block.2 hvalue, hy⟩⟩
  apart y hy hreach := by
    -- the variable would be reached from what it holds
    have hheld : Hold.block b ∈ h.holdsOf (.handle i) :=
      (mem_holdsOf _).2 ⟨_, content?_handle.2 hblock, List.mem_singleton_self _⟩
    exact hends ⟨.block b, y, (mem_holdsOf y).2 ⟨_, content?_block.2 hvalue, hy⟩, hreach.next hheld⟩

variable [HostObject Obj]

theorem Operands.given (ho : h.Operands xs i a v) :
    (Scene.ofHeap ho.sound (· = i)).Given [] v :=
  ho.right

/-- The operands are there. -/
theorem Operands.isSome (ho : h.Operands xs i a v) :
    (∀ y ∈ a.holds, (h.content? y).isSome) ∧ ∀ y ∈ v.holds, (h.content? y).isSome := by
  obtain ⟨b, -, hb⟩ := Option.bind_eq_some_iff.1 ho.left
  exact ⟨ho.sound.isSome_of_value hb, (Scene.at_ofHeap ho.sound (· = i)).isSome_of_given ho.given⟩

end Heap
end ScriptHeap
