import ScriptHeap.Proofs.Heap.Making

/-!
# Blocks and lists of one's own

A write to a handle goes to a block that is the handle's own, and a change of elements to a list
that is the block's own.  What has a single holder, had no other before, and is seen by nobody
outside may be changed.  On the way the old block of a handle, and nothing else, may come to be held
once less than before; its new block then holds the list of its value once more.

## What is here

* `Scene.At.withBlock`, `Scene.At.withValue`, `Scene.At.withElements` — the changes of single cells.
* `Scene.Owned`, `Scene.OwnList` — a block that is the own one of a handle, with its value, and a
  list that is the own one of a block.
* `Scene.Ready` — what must be known of a value's list before it is made its block's own.
* `Scene.At.own`, `Scene.At.ownListIn` — block and list made the handle's own.
-/

set_option autoImplicit false
namespace ScriptHeap

variable {Obj : Type}

/-! ## Single steps -/

theorem Heap.ne_uninit_of_kind [HostObject Obj] {v : Value Obj} {k : Kind} (hv : v.kind = k)
    (hk : k ≠ .uninit) : v ≠ .uninit := by
  rintro rfl
  exact hk hv.symm

theorem Heap.ne_uninit_of_list? {v : Value Obj} {l : ListId} (hl : v.list? = some l) :
    v ≠ .uninit := by
  rintro rfl
  cases hl

theorem Heap.rebind_eq {h : Heap Obj} {i : HandleId} {b old : BlockId}
    (hi : h.blockOf? i = some old) :
    Heap.rebind i b h = .ok () ((h.withBlock i b).release [.block old]) :=
  bind_of_ok (Heap.look_eq hi)

/-- It makes no difference whether the hold is given up before or after a block is written. -/
theorem Heap.withValue_release_list {h : Heap Obj} {l : ListId} {b : BlockId} {w : Value Obj}
    (hl : 1 < h.count (.list l)) :
    (h.release [.list l]).withValue b w = (h.withValue b w).release [.list l] := by
  have hcount : (h.withValue b w).count (.list l) = h.count (.list l) := rfl
  rw [Heap.release_one hl, Heap.release_one (hcount ▸ hl)]
  obtain ⟨k, hk⟩ := Heap.exists_cell?_of_count (Nat.lt_of_succ_lt hl)
  obtain ⟨cell, hcell, he⟩ := Option.map_eq_some_iff.1 hk
  rw [← (Prod.mk.inj he).1] at hl
  have hcell' : (h.withValue b w).list? l = some cell := hcell
  simp only [Heap.dropOne, hcell, hcell', if_neg (Nat.not_le.2 hl)]
  rfl

theorem Heap.count_withValue {h : Heap Obj} {b : BlockId} {k : Content Obj}
    (hb : h.cell? (.block b) = some (1, k)) (w : Value Obj) (x : Hold) :
    (h.withValue b w).count x = h.count x := by
  rw [(Heap.changes_withValue hb w).count]
  split
  · rename_i hx
    rw [hx, Heap.count_eq hb]
  · rfl

theorem Heap.OneBlank.withValue {h : Heap Obj} {b : BlockId} {v w : Value Obj} {k : Content Obj}
    (hone : h.OneBlank) (hb : h.cell? (.block b) = some (1, k)) (hv : h.valueAt? b = some v)
    (hset : w = .uninit → v = .uninit) : (h.withValue b w).OneBlank := by
  intro b' v' hv' hblank
  have hcell := (Heap.changes_withValue hb w).cell (.block b')
  by_cases hbb : b' = b
  · subst hbb
    rw [if_pos rfl] at hcell
    obtain rfl : w = v' := Option.some.inj
      ((Heap.content?_block.1 (Heap.content?_eq hcell)).symm.trans hv')
    exact hone b' v hv (hblank.imp_left hset)
  · rw [if_neg fun he ↦ hbb (Hold.block.inj he)] at hcell
    refine hone b' v' ?_ hblank
    rw [← Heap.content?_block, Heap.content?, ← hcell]
    exact Heap.content?_block.2 hv'

namespace Scene

variable [HostObject Obj] {c : Scene Obj} {u : Option BlockId} {made : List HandleId}
  {ys : List Hold}
  {h h' : Heap Obj}

/-! ## Changes of single cells -/

/-- Another block for a handle. -/
theorem At.withBlock {i : HandleId} {b old : BlockId} (ha : c.At made (.block b :: ys) h)
    (hi : h.blockOf? i = some old) (hfree : c.Free h (.handle i))
    (hshown : c.unseen → h.valueAt? b = h.valueOf? i)
    (hends : c.acyclic → ¬ h.Reaches (.block b) (.handle i))
    (hlist : ∀ l, c.tied i l → ∃ v, h.valueAt? b = some v ∧ v.list? = some l) :
    c.At made (.block old :: ys) (h.withBlock i b) := by
  have hcell := At.exists_cell? (Heap.content?_handle.2 hi)
  have hc := Heap.changes_withBlock hcell b
  have huses (e : HandleId) : (h.withBlock i b).uses (.handle e) = h.uses (.handle e) := by
    have hu := hc.uses (.handle e)
    rw [Heap.holdsOf_handle hi] at hu
    simpa [Heap.newHolds, Content.holds] using hu
  refine ha.changes hc hcell hfree ?_ ha.nodup ha.fresh (fun e he ↦ ?_) (fun e _ h0 ↦ ?_) ?_
    ha.regular (fun hac y hy ↦ ?_) ha.single fun j l ht hties _ ↦ ?_
  · exact ((ha.sound.perm List.perm_middle).withBlock hcell).perm List.perm_middle.symm
  · exact (huses e).trans (ha.loose e he)
  · exact (huses e).trans h0
  · intro hread
    obtain ⟨v, hv, hiv⟩ := ha.sound.exists_valueOf? hi
    refine (ha.shown hread).trans ha.onward.born ?_
    exact ha.sound.alike_withBlock hiv ((hshown hread).trans hiv)
  · obtain rfl := List.mem_singleton.1 hy
    exact hends hac
  · have hapart (e : HandleId) (_ : c.before.Born (.handle e)) (h0 : h.uses (.handle e) = 0) :=
      (huses e).trans h0
    by_cases hji : i = j
    · subst hji
      obtain ⟨v, hv, hl⟩ := hlist l ht
      exact hties.of_stores ⟨b, v, Heap.content?_handle.1 hc.content?_self, hv, hl⟩ rfl hapart
    · exact hties.changes hc (fun he ↦ hji (Hold.handle.inj he)) (by simp) (by simp) hapart

/-- A block that a handle alone holds is not the one of variables without a value. -/
theorem At.ne_blank {i : HandleId} {b : BlockId} (ha : c.At made ys h u)
    (hi : h.blockOf? i = some b) (hsole : h.count (.block b) = 1) : h.blank ≠ some b := by
  intro hblank
  have hown : h.ownHolds.count (.block b) = 1 := by
    rw [Heap.ownHolds, hblank]
    simp
  have hheld : (h.holdsOf (.handle i)).count (.block b) = 1 := by
    rw [Heap.holdsOf_handle hi]
    simp
  have htwo := h.count_holdsOf_add_ownHolds_le_uses (.block b) (.handle i)
  have hcount := ha.sound.counted (.block b)
  omega

/-- A block that is the own one of a handle: it has no other holder, and nobody outside sees it. -/
structure Owned (c : Scene Obj) (h : Heap Obj) (b : BlockId) (v : Value Obj) : Prop where
  value : h.valueAt? b = some v
  sole : h.count (.block b) = 1
  holder : ∃ i, h.blockOf? i = some b
  free : c.Free h (.block b)

section
variable {b : BlockId} {v w : Value Obj}

theorem Owned.cell? (ho : c.Owned h b v) : h.cell? (.block b) = some (1, .value v) := by
  rw [At.exists_cell? (Heap.content?_block.2 ho.value), ho.sole]

theorem Owned.isSome (ho : c.Owned h b v) : (h.content? (.block b)).isSome :=
  Heap.isSome_of_valueAt? ho.value

/-- New cells leave a block its handle's own. -/
theorem Owned.grows {touched : Hold → Prop} (ho : c.Owned h b v) (ha : c.At made ys h u)
    (hg : h.Grows h' touched) (hn : ¬ touched (.block b)) : c.Owned h' b v where
  value := hg.valueAt? ho.value
  sole := (hg.count _ ho.isSome hn).trans ho.sole
  holder := by
    obtain ⟨i, hi⟩ := ho.holder
    exact ⟨i, hg.blockOf? hi⟩
  free := ha.free_mono ho.free hg.onward

/-- A change of a list leaves a block its handle's own. -/
theorem Owned.changes {l : ListId} {new : Option (Nat × Content Obj)} {n : Nat} {k : Content Obj}
    (ho : c.Owned h b v) (ha : c.At made ys h u) (hc : h.Changes h' (.list l) new)
    (hl : h.cell? (.list l) = some (n, k)) : c.Owned h' b v where
  value := by
    rw [Heap.valueAt?_congr (hc.content?_of_ne (by simp))]
    exact ho.value
  sole := by
    rw [Heap.count, hc.cell, if_neg (by simp)]
    exact ho.sole
  holder := by
    obtain ⟨i, hi⟩ := ho.holder
    refine ⟨i, ?_⟩
    rw [← Heap.content?_handle, hc.content?_of_ne (by simp)]
    exact Heap.content?_handle.2 hi
  free := ha.free_mono ho.free (hc.onward hl)

/-- Another value in a block that is a handle's own. -/
theorem At.withValue {taken left : List Hold} (ha : c.At made (taken ++ ys) h u)
    (ho : c.Owned h b v)
    (hbalance : ∀ y, v.holds.count y + taken.count y = w.holds.count y + left.count y)
    (hshown : c.unseen → h.Alike (h.withValue b w))
    (hm : c.regular → u ≠ some b → h.Matched w)
    (hclear : c.Clears h w.holds (.block b)) (hset : c.single → w = .uninit → v = .uninit)
    (hlist : ∀ i l, c.tied i l → h.blockOf? i = some b → w.list? = some l) :
    c.At made (left ++ ys) (h.withValue b w) u ∧ c.Owned (h.withValue b w) b w ∧
      h.Steady (h.withValue b w) := by
  have hc := Heap.changes_withValue ho.cell? w
  have huses (e : HandleId) : (h.withValue b w).uses (.handle e) = h.uses (.handle e) := by
    have hu := hc.uses (.handle e)
    rw [Heap.holdsOf_block ho.value, Heap.newHolds,
      Option.map_some, Option.getD_some, Content.holds, Heap.Sound.count_handle_holds,
      Heap.Sound.count_handle_holds] at hu
    exact hu
  have hsteady := hc.steady ho.cell? (by simp)
  have hcontent (x : Hold) (hx : x ≠ .block b) : (h.withValue b w).content? x = h.content? x :=
    hc.content?_of_ne hx
  have hvalue : (h.withValue b w).valueAt? b = some w := Heap.valueAt?_withValue ho.cell? w
  obtain ⟨i, hi⟩ := ho.holder
  refine ⟨ha.changes hc ho.cell? ho.free ?_ ha.nodup ha.fresh (fun e he ↦ ?_) (fun e _ h0 ↦ ?_)
    (fun hread ↦ (ha.shown hread).trans ha.onward.born (hshown hread)) (fun hr b' v' hu hv' ↦ ?_)
    hclear (fun hone ↦ (ha.single hone).withValue ho.cell? ho.value (hset hone))
    fun j l ht hties _ ↦ ?_, ⟨hvalue, ?_, ⟨i, ?_⟩, ?_⟩, hsteady⟩
  · have hs := ha.sound_append.of_replaced taken left ho.cell? hc hbalance (fun e ↦ .inl ?_)
      fun b' hb' he ↦ ?_
    · refine hs.perm ?_
      rw [List.append_assoc]
      exact List.perm_append_comm_assoc _ _ _
    · rw [Content.holds, Heap.Sound.count_handle_holds]
      exact Nat.zero_le _
    · cases he
      exact ha.ne_blank hi ho.sole hb'
  · exact (huses e).trans (ha.loose e he)
  · exact (huses e).trans h0
  · by_cases hb : b' = b
    · subst hb
      obtain rfl := Option.some.inj (hvalue.symm.trans hv')
      exact hm hr hu
    · refine ha.regular hr b' v' hu ?_
      rwa [Heap.valueAt?_congr (hcontent _ fun he ↦ hb (Hold.block.inj he))] at hv'
  · have hapart (e : HandleId) (_ : c.before.Born (.handle e)) (h0 : h.uses (.handle e) = 0) :=
      (huses e).trans h0
    by_cases hj : h.blockOf? j = some b
    · refine hties.of_stores ⟨b, w, ?_, hvalue, hlist j l ht hj⟩ (hcontent _ (by simp)) hapart
      exact (Heap.blockOf?_congr (hcontent _ (by simp))).trans hj
    · refine hties.changes hc (by simp) (fun b' hb' he ↦ hj ?_) (by simp) hapart
      rw [Hold.block.inj he]
      exact hb'
  · rw [hc.count, if_pos rfl]
  · rw [← Heap.content?_handle, hcontent (.handle i) (by simp)]
    exact Heap.content?_handle.2 hi
  · exact ha.free_mono ho.free hsteady.toOnward

/-- The same where the value has the holds that the other had. -/
theorem At.withSame (ha : c.At made ys h u) (ho : c.Owned h b v) (hholds : w.holds = v.holds)
    (hshown : c.unseen → h.Alike (h.withValue b w)) (hm : c.regular → u ≠ some b → h.Matched w)
    (hset : c.single → w = .uninit → v = .uninit) :
    c.At made ys (h.withValue b w) u ∧ c.Owned (h.withValue b w) b w ∧
      h.Steady (h.withValue b w) := by
  have ha' : c.At made ([] ++ ys) h u := ha
  have hbalance (y : Hold) : v.holds.count y + [].count y = w.holds.count y + [].count y := by
    rw [hholds]
  refine ha'.withValue ho hbalance hshown hm
    (fun hac y hy hreach ↦ ha.acyclic hac ⟨_, y, ?_, hreach⟩) hset fun i l ht hi ↦ ?_
  · rwa [Heap.holdsOf_block ho.value, ← hholds]
  · rw [Heap.list?_eq_of_holds hholds]
    exact (ha.tied i l ht (Heap.isSome_of_blockOf? hi)).list? hi ho.value

end

theorem At.sound_withElements {l : ListId} {is is' added removed : List HandleId}
    (ha : c.At (added ++ made) ys h u) (hl : h.elements? l = some is)
    (hperm : (is' ++ removed).Perm (is ++ added)) :
    (h.withElements l is').Sound
      (handleHolds made ++ ((handleHolds removed ++ ys) ++ c.outside)) := by
  have hs : h.Sound (handleHolds added ++ (handleHolds made ++ (ys ++ c.outside))) := by
    have := ha.sound
    rwa [handleHolds, List.map_append, List.append_assoc] at this
  have hcell := At.exists_cell? (Heap.content?_list.2 hl)
  have hnodup := (List.nodup_append'.1 ha.nodup).1
  refine (hs.withElements hcell hperm hnodup fun e he ↦ ?_).perm ?_
  · exact ha.loose e (List.mem_append_left _ he)
  · rw [List.append_assoc]
    exact List.perm_append_comm_assoc _ _ _

/-- Other elements in a list fit the values that have it. -/
def FitsList (c : Scene Obj) (h : Heap Obj) (u : Option BlockId) (l : ListId) (is' : List HandleId) :
    Prop :=
  c.regular → ∀ b v, u ≠ some b → h.valueAt? b = some v → v.list? = some l →
    (h.withElements l is').Matched v

/-- As many elements as before always fit. -/
theorem At.fits_of_length {l : ListId} {is is' : List HandleId} (ha : c.At made ys h u)
    (hl : h.elements? l = some is) (hlength : is'.length = is.length) : c.FitsList h u l is' := by
  intro hr b v hu hv hlist
  refine (ha.regular hr b v hu hv).of_length fun l' js hl' hjs ↦ ?_
  obtain rfl := Option.some.inj (hlist.symm.trans hl')
  obtain rfl := Option.some.inj (hl.symm.trans hjs)
  exact ⟨is', Heap.elements?_withElements hl is', hlength⟩

/-- If a single block has the list, only the value in that one counts. -/
theorem At.fits_of_sole {l : ListId} {b : BlockId} {v : Value Obj} {is' : List HandleId}
    (ha : c.At made ys h u) (hv : h.valueAt? b = some v) (hlist : v.list? = some l)
    (hsole : h.count (.list l) = 1)
    (hm : c.regular → u ≠ some b → (h.withElements l is').Matched v) : c.FitsList h u l is' := by
  intro hr b' v' hu hv' hlist'
  have hholds {b : BlockId} {v : Value Obj} (hv : h.valueAt? b = some v) (hl : v.list? = some l) :
      (h.holdsOf (.block b)).count (.list l) = 1 := by
    rw [Heap.holdsOf_block hv, Heap.holds_of_list? hl,
      List.count_singleton_self]
  have hb : b = b' := by
    by_contra hne
    have htwo := h.count_holdsOf_add_le_uses (.list l)
      (y := .block b) (z := .block b') fun he ↦ hne (Hold.block.inj he)
    have hcounted := ha.sound.counted (.list l)
    rw [hholds hv hlist, hholds hv' hlist'] at htwo
    omega
  subst hb
  obtain rfl := Option.some.inj (hv.symm.trans hv')
  exact hm hr hu

/-- An element of a list stays, or it was taken out and is in no list then. -/
theorem At.stays_or_leaves {l : ListId} {is is' added removed : List HandleId} {e : HandleId}
    (ha : c.At (added ++ made) ys h u) (hl : h.elements? l = some is)
    (hperm : (is' ++ removed).Perm (is ++ added)) (he : e ∈ is) (hnew : e ∉ added)
    (hleaves : e ∈ removed → c.leaves e) :
    .handle e ∈ (h.withElements l is').holdsOf (.list l) ∨
      c.leaves e ∧ (h.withElements l is').uses (.handle e) = 0 := by
  rcases List.mem_append.1 (hperm.mem_iff.2 (List.mem_append_left added he)) with hstays | hgoes
  · left
    exact Heap.handle_mem_holdsOf (Heap.elements?_withElements hl is') hstays
  · right
    have hu := (Heap.changes_withElements (At.exists_cell? (Heap.content?_list.2 hl)) is').uses
      (.handle e)
    rw [Heap.holdsOf_list hl] at hu
    simp only [Heap.newHolds, Option.map_some, Option.getD_some, Content.holds,
      Heap.Sound.count_handleHolds] at hu
    have hcount := hperm.count_eq e
    rw [List.count_append, List.count_append, List.count_eq_zero_of_not_mem hnew] at hcount
    have hgoes' := List.count_pos_iff.2 hgoes
    have hsingle := ha.sound.single e
    have hle := h.count_holdsOf_le_uses (.handle e) (.list l)
    rw [Heap.holdsOf_list hl,
      Heap.Sound.count_handleHolds] at hle
    exact ⟨hleaves hgoes, by omega⟩

/-- Other elements in a list that nobody outside sees. -/
theorem At.withElements (added : List HandleId) {l : ListId} {is is' removed : List HandleId}
    (ha : c.At (added ++ made) ys h u) (hl : h.elements? l = some is)
    (hperm : (is' ++ removed).Perm (is ++ added)) (hfree : c.Free h (.list l))
    (hshown : c.unseen → c.before.Alike (h.withElements l is')) (hfits : c.FitsList h u l is')
    (hclear : c.Clears h (handleHolds added) (.list l))
    (hleaves : ∀ i, c.tied i l → ∀ e ∈ removed, c.leaves e) :
    c.At made (handleHolds removed ++ ys) (h.withElements l is') u := by
  have hcell := At.exists_cell? (Heap.content?_list.2 hl)
  have hc := Heap.changes_withElements hcell is'
  obtain ⟨-, hmade, hdisjoint⟩ := List.nodup_append'.1 ha.nodup
  have huses (e : HandleId) (he : e ∉ added) (h0 : h.uses (.handle e) = 0) :
      (h.withElements l is').uses (.handle e) = 0 := by
    have hu := hc.uses (.handle e)
    have hle := h.count_holdsOf_le_uses (.handle e) (.list l)
    have hcount := hperm.count_eq e
    rw [Heap.holdsOf_list hl] at hu hle
    simp only [Heap.newHolds, Option.map_some, Option.getD_some, Content.holds,
      Heap.Sound.count_handleHolds] at hu hle
    rw [List.count_append, List.count_append, List.count_eq_zero_of_not_mem he] at hcount
    omega
  refine ha.changes hc hcell hfree (ha.sound_withElements hl hperm) hmade
    (fun e he ↦ ha.fresh e (List.mem_append_right _ he)) (fun e he ↦ ?_) (fun e hborn h0 ↦ ?_)
    hshown (fun hr b v hu hv ↦ ?_) (fun hac y hy hreach ↦ ?_) ha.single fun i l' ht hties _ ↦ ?_
  · exact huses e (fun hmem ↦ hdisjoint hmem he) (ha.loose e (List.mem_append_right _ he))
  · exact huses e (fun hmem ↦ ha.fresh e (List.mem_append_left _ hmem) hborn) h0
  · have hv₀ : h.valueAt? b = some v := hv
    by_cases hlist : v.list? = some l
    · exact hfits hr b v hu hv₀ hlist
    · refine (ha.regular hr b v hu hv₀).of_lists fun l' js hl' hjs ↦ ?_
      have hne : Hold.list l' ≠ .list l := fun he ↦ hlist (Hold.list.inj he ▸ hl')
      rw [Heap.elements?_congr (hc.content?_of_ne hne)]
      exact hjs
  · obtain ⟨e, he, rfl⟩ := List.mem_map.1 hy
    rcases List.mem_append.1 (hperm.mem_iff.1 (List.mem_append_left removed he)) with he | he
    · exact ha.acyclic hac ⟨_, .handle e, Heap.handle_mem_holdsOf hl he, hreach⟩
    · exact hclear hac _ (List.mem_map.2 ⟨e, he, rfl⟩) hreach
  · have hapart (e : HandleId) (hborn : c.before.Born (.handle e)) (h0 : h.uses (.handle e) = 0) :=
      huses e (fun hmem ↦ ha.fresh e (List.mem_append_left _ hmem) hborn) h0
    by_cases hll : l = l'
    · subst hll
      refine ⟨hties.stores, fun e he ↦ ?_⟩
      have hborn := c.sound.born_of_mem_holdsOf he
      rcases hties.elements e he with hmem | ⟨hleft, h0⟩
      · rw [Heap.holdsOf_list hl] at hmem
        obtain ⟨e', hmem, he'⟩ := List.mem_map.1 hmem
        cases he'
        exact ha.stays_or_leaves hl hperm hmem (fun hadded ↦ ha.fresh e
          (List.mem_append_left _ hadded) hborn) (hleaves i ht e)
      · exact .inr ⟨hleft, hapart e hborn h0⟩
    · exact hties.changes hc (by simp) (by simp) (fun he ↦ hll (Hold.list.inj he)) hapart

/-- The same where no element leaves. -/
theorem At.withMore (added : List HandleId) {l : ListId} {is is' : List HandleId}
    (ha : c.At (added ++ made) ys h u) (hl : h.elements? l = some is)
    (hperm : is'.Perm (is ++ added)) (hfree : c.Free h (.list l))
    (hshown : c.unseen → c.before.Alike (h.withElements l is')) (hfits : c.FitsList h u l is')
    (hclear : c.Clears h (handleHolds added) (.list l)) :
    c.At made ys (h.withElements l is') u := by
  have hperm' : (is' ++ []).Perm (is ++ added) := by
    rwa [List.append_nil]
  exact ha.withElements added hl hperm' hfree hshown hfits hclear fun _ _ _ he ↦
    absurd he List.not_mem_nil

/-! ## What may be held less than before -/

/-- The blocks behind the elements of a list are held as often as before, up to a number of holds.
-/
def Behind (c : Scene Obj) (h : Heap Obj) (l : ListId) (lost : Nat) : Prop :=
  ∀ is, h.elements? l = some is → ∀ e ∈ is, ∀ b, h.blockOf? e = some b →
    c.before.count (.block b) ≤ h.count (.block b) + lost

theorem Behind.mono {l : ListId} {lost : Nat} (hb : c.Behind h l lost)
    (hlist : ∀ is, h'.elements? l = some is → h.elements? l = some is)
    (hblock : ∀ is, h.elements? l = some is → ∀ e ∈ is, ∀ b, h'.blockOf? e = some b →
      h.blockOf? e = some b ∧ h.count (.block b) ≤ h'.count (.block b)) : c.Behind h' l lost := by
  intro is his e he b heb
  obtain ⟨hold, hle⟩ := hblock is (hlist is his) e he b heb
  exact (hb is (hlist is his) e he b hold).trans (Nat.add_le_add_right hle lost)

theorem Behind.adds {l : ListId} {lost : Nat} {xs : List Hold} (hb : c.Behind h l lost)
    (hs : h.Sound xs) (hl : h.Born (.list l)) (ha : h.Adds h') : c.Behind h' l lost := by
  refine hb.mono (fun is his ↦ ha.quiet.steady.lists l is hl his)
    fun is his e he b heb ↦ ⟨?_, ha.le _⟩
  have hmem : Hold.handle e ∈ h.holdsOf (.list l) :=
    Heap.handle_mem_holdsOf his he
  exact Heap.content?_handle.1
    (ha.quiet.content _ (hs.born_of_mem_holdsOf hmem) _ (Heap.content?_handle.2 heb))

/-- What must be known of a value's list before it is made its block's own: the list has the holds
it had, and so have the blocks behind its elements if the list is not shared.  If it is, one of
these blocks may have lost a hold; a list that is to be kept is not. -/
structure Ready (c : Scene Obj) (h : Heap Obj) (v : Value Obj) : Prop where
  list : ∀ l, v.list? = some l → c.Full h (.list l)
  near : ∀ l, v.list? = some l → c.Behind h l 1
  sole : ∀ l, v.list? = some l → h.count (.list l) = 1 → c.Behind h l 0
  tied : ∀ i l, c.tied i l → v.list? = some l → h.count (.list l) = 1

theorem Calm.behind (hc : c.Calm h) (l : ListId) (lost : Nat) : c.Behind h l lost :=
  fun _ _ _ _ b _ ↦ (hc.full (.block b)).trans (Nat.le_add_right _ lost)

theorem Calm.ready (hc : c.Calm h) (v : Value Obj) : c.Ready h v where
  list l _ := hc.full (.list l)
  near l _ := hc.behind l 1
  sole l _ _ := hc.behind l 0
  tied i l ht _ := by
    obtain ⟨_, -, -, hlist⟩ := hc.sole i l ht
    exact hlist

theorem Ready.grows {touched : Hold → Prop} {b : BlockId} {v : Value Obj} (hr : c.Ready h v)
    (ha : c.At made ys h) (hv : h.valueAt? b = some v) (hg : h.Grows h' touched)
    (hn : ∀ i l, c.tied i l → v.list? = some l → ¬ touched (.list l)) : c.Ready h' v where
  list l hl := (hr.list l hl).adds hg.toAdds
  near l hl := by
    obtain ⟨is, his, -⟩ := ha.exists_elements_of_list? (ha.isSome_of_value hv) hl
    exact (hr.near l hl).adds ha.sound (ha.born (Heap.isSome_of_elements? his)) hg.toAdds
  sole l hl hone := by
    obtain ⟨is, his, -⟩ := ha.exists_elements_of_list? (ha.isSome_of_value hv) hl
    have hthere : (h.content? (.list l)).isSome :=
      Heap.isSome_of_elements? his
    have hpos := ha.sound.held _ hthere
    have hle := hg.le (.list l)
    exact (hr.sole l hl (by omega)).adds ha.sound (ha.born hthere) hg.toAdds
  tied i l ht hl := by
    have hone := hr.tied i l ht hl
    exact (hg.count _ (isSome_of_count (by rw [hone]; exact Nat.one_pos)) (hn i l ht hl)).trans hone

/-- A list that is the own one of a block: it has no other holder, nobody outside sees it, and the
blocks behind its elements have the holds they had. -/
structure OwnList (c : Scene Obj) (h : Heap Obj) (m : ListId) : Prop where
  free : c.Free h (.list m)
  sole : h.count (.list m) = 1
  full : c.Behind h m 0

theorem OwnList.full_of_mem {m : ListId} {is : List HandleId} {e : HandleId} {b : BlockId}
    (ho : c.OwnList h m) (his : h.elements? m = some is) (he : e ∈ is)
    (heb : h.blockOf? e = some b) : c.Full h (.block b) :=
  ho.full is his e he b heb

/-- New cells leave a list its block's own. -/
theorem OwnList.grows {touched : Hold → Prop} {m : ListId} (ho : c.OwnList h m)
    (ha : c.At made ys h u) (hg : h.Grows h' touched) (hn : ¬ touched (.list m)) :
    c.OwnList h' m := by
  have hthere := isSome_of_count (by rw [ho.sole]; exact Nat.one_pos)
  obtain ⟨k, hk⟩ := Option.isSome_iff_exists.1 hthere
  obtain ⟨n, hk⟩ := Heap.exists_cell?_of_content? hk
  exact ⟨ha.free_mono ho.free hg.onward, (hg.count _ hthere hn).trans ho.sole,
    ho.full.adds ha.sound (Heap.born_of_cell? ha.sound.tidy hk) hg.toAdds⟩

/-- So does another value in a block. -/
theorem OwnList.withValue {b : BlockId} {v w : Value Obj} {m : ListId} (hm : c.OwnList h m)
    (ha : c.At made ys h u) (ho : c.Owned h b v) : c.OwnList (h.withValue b w) m := by
  have hsteady := (Heap.changes_withValue ho.cell? w).steady ho.cell? (by simp)
  refine ⟨ha.free_mono hm.free hsteady.toOnward, hm.sole, hm.full.mono (fun _ his ↦ his) ?_⟩
  exact fun is his e he b' heb ↦ ⟨heb, Nat.le_of_eq (Heap.count_withValue ho.cell? w _).symm⟩

/-! ## The own block of a handle -/

/-- Another block for a handle, with the old one given up. -/
theorem At.rebound {i : HandleId} {b old : BlockId} {v : Value Obj}
    (ha : c.At made (.block b :: ys) h) (hheld : Hold.handle i ∈ ys ++ c.outside)
    (hi : h.blockOf? i = some old) (hb : h.valueAt? b = some v) (hfree : c.Free h (.handle i))
    (hshown : c.unseen → h.valueOf? i = some v)
    (hclear : c.Clears h v.holds (.handle i)) (hlist : ∀ l, c.tied i l → v.list? = some l) :
    c.At made ys ((h.withBlock i b).release [.block old]) ∧
      h.Steady ((h.withBlock i b).release [.block old]) ∧
      ((h.withBlock i b).release [.block old]).blockOf? i = some b ∧
      ((h.withBlock i b).release [.block old]).valueAt? b = some v ∧
      (h.count (.block b) = 1 →
        ((h.withBlock i b).release [.block old]).count (.block b) = 1) := by
  have hcell := At.exists_cell? (Heap.content?_handle.2 hi)
  have hc := Heap.changes_withBlock hcell b
  have ha₁ := ha.withBlock hi hfree (fun hread ↦ hb.trans (hshown hread).symm) (fun hac hreach ↦ by
    obtain he | ⟨y, hy, hyi⟩ := hreach.cases_head
    · cases he
    · rw [Heap.holdsOf_block hb] at hy
      exact hclear hac y hy hyi) fun l ht ↦ ⟨v, hb, hlist l ht⟩
  have hends : c.At made ([.block old] ++ ys) (h.withBlock i b) := ha₁
  obtain ⟨ha₂, hr⟩ := hends.release
  have hborn (x : Hold) (hx : (h.content? x).isSome) := hc.born x (ha.born hx)
  have hblock : ((h.withBlock i b).release [.block old]).blockOf? i = some b := by
    obtain ⟨k, hk⟩ := Option.isSome_iff_exists.1 (ha₂.isSome_of_mem hheld)
    have hold := hr.quiet.content (.handle i) ?_ k hk
    · rw [hc.content?_self] at hold
      cases hold
      exact Heap.content?_handle.1 hk
    · exact hborn _ (Heap.isSome_of_blockOf? hi)
  have hmem : Hold.block b ∈ ((h.withBlock i b).release [.block old]).holdsOf (.handle i) :=
    Heap.mem_holdsOf_of_blockOf? hblock
  refine ⟨ha₂, (hc.steady hcell (by simp)).trans hr.quiet.steady, hblock, ?_, fun hsole ↦ ?_⟩
  · obtain ⟨k, hk⟩ := ha₂.sound.exists_content?_of_mem_holdsOf hmem
    have hold := hr.quiet.content (.block b) (hborn _ ?_) k hk
    · rw [hc.content?_of_ne (by simp)] at hold
      rw [← Heap.content?_block, hk, ← hold]
      exact Heap.content?_block.2 hb
    · exact Heap.isSome_of_valueAt? hb
  · have hle := hr.uses_le (.block b)
    have hpos := (List.count_pos_iff.2 hmem).trans_le
      (Heap.count_holdsOf_le_uses _ (.block b) (.handle i))
    have h₁ := ha₁.sound.counted (.block b)
    have h₂ := ha₂.sound.counted (.block b)
    rw [hc.count, if_neg (by simp), hsole] at h₁
    simp only [List.count_append, List.count_cons] at h₁ h₂
    omega

/-- The holder of a free block that is held once. -/
theorem At.owned {i : HandleId} {b : BlockId} {v : Value Obj} (ha : c.At made ys h)
    (hfree : c.Free h (.handle i)) (hi : h.blockOf? i = some b) (hb : h.valueAt? b = some v)
    (hsole : h.count (.block b) = 1) (hfull : c.Full h (.block b)) : c.Owned h b v := by
  refine ⟨hb, hsole, ⟨i, hi⟩, ha.free_of_sole hfree ?_ hsole (by simp) hfull⟩
  exact Heap.mem_holdsOf_of_blockOf? hi

/-- A handle that moved from a shared block to a new one: the list of its value is held twice now,
and only the old block has lost a hold. -/
theorem ready_rebound {i : HandleId} {b old : BlockId} {v : Value Obj} (hfull : ∀ x, c.Full h x)
    (hloose : ∀ j l, c.tied j l → v.list? ≠ some l) (hshared : 1 < h.count (.block old))
    (hi : h.blockOf? i = some old) (hold : h.valueAt? old = some v) (hb : h.valueAt? b = some v)
    (hne : b ≠ old)
    (ha : c.At made ys ((h.withBlock i b).release [.block old])) :
    c.Ready ((h.withBlock i b).release [.block old]) v := by
  have hcell := At.exists_cell? (Heap.content?_handle.2 hi)
  have hc := Heap.changes_withBlock hcell b
  have hshared' : 1 < (h.withBlock i b).count (.block old) := hshared
  have hsame (x : Hold) : (h.withBlock i b).count x = h.count x := by
    rw [hc.count]
    split
    · rename_i hx
      rw [hx]
    · rfl
  have hcount (x : Hold) : ((h.withBlock i b).release [.block old]).count x =
      if x = .block old then h.count (.block old) - 1 else h.count x := by
    rw [Heap.count_release_one hshared', hsame, hsame]
  have hlist (l : ListId) :
      c.Full ((h.withBlock i b).release [.block old]) (.list l) := by
    rw [Full, hcount, if_neg (by simp)]
    exact hfull (.list l)
  have hnear (l : ListId) : c.Behind ((h.withBlock i b).release [.block old]) l 1 := by
    intro is _ e _ b' _
    have hle := hfull (.block b')
    rw [Full] at hle
    rw [hcount]
    split
    · rename_i he
      rw [he] at hle ⊢
      omega
    · omega
  refine ⟨fun l _ ↦ hlist l, fun l _ ↦ hnear l, fun l hl hone ↦ ?_,
    fun j l ht hl ↦ (hloose j l ht hl).elim⟩
  -- both blocks hold the list
  have hmem {b' : BlockId} (hb' : h.valueAt? b' = some v) :
      Hold.list l ∈ ((h.withBlock i b).release [.block old]).holdsOf (.block b') := by
    refine Heap.list_mem_holdsOf ?_ hl
    rw [← Heap.content?_block, Heap.content?_release_one hshared', Heap.content?, hc.cell,
      if_neg (by simp)]
    exact Heap.content?_block.2 hb'
  exact (hne (Hold.block.inj ((ha.sound.sole_holder (hmem hold) hone).2 _ (hmem hb)))).elim

/-- **The own block of a handle**, with the value that the handle had.  Where variables without a
value are to share a block, the handle must have one. -/
theorem At.own {i : HandleId} {v : Value Obj} (ha : c.At made ys h) (hcalm : c.Calm h)
    (hheld : Hold.handle i ∈ ys ++ c.outside) (hfree : c.Free h (.handle i))
    (hv : h.valueOf? i = some v) (hset : c.single → v ≠ .uninit) :
    Ends (Heap.own i) h
      (fun b h' ↦ c.At made ys h' ∧ h.Steady h' ∧ h'.blockOf? i = some b ∧ c.Owned h' b v ∧
        c.Ready h' v)
      (c.Faults made ys) := by
  obtain ⟨b, w, hi, hb, hw⟩ := ha.exists_value (ha.isSome_of_mem hheld)
  obtain rfl : w = v := Option.some.inj (hw.symm.trans hv)
  have hsome : (h.content? (.block b)).isSome :=
    Heap.isSome_of_valueAt? hb
  rw [Heap.own]
  refine Ends.after (Heap.look_eq hi) (Ends.after (Heap.isSole_eq b h) ?_)
  split
  · rename_i hsole
    have hcount := (Heap.holders?_eq_some_iff hsome).1 (beq_iff_eq.1 hsole)
    exact .pure ⟨ha, .refl h, hi, ha.owned hfree hi hb hcount (hcalm.full _), hcalm.ready w⟩
  · rename_i hsole
    refine Ends.after (Heap.look_eq hb) ?_
    refine (ha.copy (ha.isSome_of_value hb)).bind fun w' h₁ ⟨hw', ha₁, hg₁⟩ ↦ ?_
    subst hw'
    have hm₁ (hr : c.regular) : h₁.Matched w' :=
      hg₁.matched (ha.regular hr b w' (Option.some_ne_none b).symm hb)
    refine (ha₁.allocate hm₁ hset).bind fun fresh h₂ ⟨ha₂, hg₂, hfresh, hone, hnew, _⟩ ↦ ?_
    have hi₂ := hg₂.blockOf? (hg₁.blockOf? hi)
    have hb₂ := hg₂.valueAt? (hg₁.valueAt? hb)
    have hfree₂ := ha₁.free_mono (ha.free_mono hfree hg₁.onward) hg₂.onward
    have hfull₂ (x : Hold) := ((hcalm.full x).adds hg₁.toAdds).adds hg₂.toAdds
    have hloose (j : HandleId) (l : ListId) (ht : c.tied j l) (hl : w'.list? = some l) : False := by
      obtain rfl := hcalm.sole.unique ha ht hv hl
      obtain ⟨b', hb', hone, -⟩ := hcalm.sole i l ht
      obtain rfl := Option.some.inj (hi.symm.trans hb')
      exact hsole (beq_iff_eq.2 ((Heap.holders?_eq_some_iff hsome).2 hone))
    have hshared : 1 < h₂.count (.block b) := by
      have hpos := ha.sound.held _ hsome
      have hne := mt (Heap.holders?_eq_some_iff hsome).2 fun he ↦ hsole (beq_iff_eq.2 he)
      have h₁ := hg₁.le (.block b)
      have h₂ := hg₂.le (.block b)
      omega
    have hne : fresh ≠ b := by
      rintro rfl
      exact hnew (ha₁.born (hg₁.isSome hsome))
    have hclear : c.Clears h₂ w'.holds (.handle i) := by
      intro hac y hy hreach
      obtain ⟨b', hyb, hib⟩ := Heap.reaches_of_valueOf? (hg₂.valueOf? (hg₁.valueOf? hv)) hy
      exact ha₂.acyclic hac ⟨_, y, hyb, hreach.trans hib⟩
    obtain ⟨ha₃, ho, hblock, hvalue, hcount⟩ := ha₂.rebound hheld hi₂ hfresh hfree₂
      (fun _ ↦ hg₂.valueOf? (hg₁.valueOf? hv)) hclear fun l ht ↦
        (ha₂.tied i l ht (Heap.isSome_of_blockOf? hi₂)).list? hi₂ hb₂
    refine Ends.after (Heap.rebind_eq hi₂) (.pure ⟨ha₃, ?_, hblock, ?_, ?_⟩)
    · exact (hg₁.quiet.steady.trans hg₂.quiet.steady).trans ho
    · refine ha₃.owned (ha₂.free_mono hfree₂ ho.toOnward) hblock hvalue (hcount hone) ?_
      exact full_of_not_born (ha₁.not_born hnew) _
    · exact ready_rebound hfull₂ hloose hshared hi₂ hb₂ hfresh hne ha₃

/-! ## The own list of a block -/

/-- Without circles no element of the container in a block has that block. -/
theorem At.blockOf?_ne_of_element {b : BlockId} {v : Value Obj} {l : ListId} {is : List HandleId}
    (ha : c.At made ys h u) (hac : c.acyclic) (hb : h.valueAt? b = some v) (hl : v.list? = some l)
    (his : h.elements? l = some is) : ∀ e ∈ is, h.blockOf? e ≠ some b := by
  intro e he heb
  have helement : Hold.handle e ∈ h.holdsOf (.list l) :=
    Heap.handle_mem_holdsOf his he
  exact ha.acyclic hac ⟨_, _, Heap.list_mem_holdsOf hb hl,
    ((Heap.Reaches.refl h _).next helement).next (Heap.mem_holdsOf_of_blockOf? heb)⟩

section

omit [HostObject Obj]
variable {b : BlockId} {is : List HandleId}

/-- Variables may be read while a block is written that none of them has. -/
theorem ensureApart_eq (hapart : ∀ i ∈ is, h.blockOf? i ≠ some b) :
    Heap.ensureApart b is h = .ok () h := by
  refine (bind_of_ok (get_eq h)).trans ?_
  rw [if_neg fun hany ↦ ?_]
  · rfl
  · obtain ⟨i, hi, hb⟩ := List.any_eq_true.1 hany
    exact hapart i hi (beq_iff_eq.1 hb)

/-- They may not be read if one of them has it. -/
theorem ends_ensureApart (h : Heap Obj) (b : BlockId) (is : List HandleId) :
    Ends (Heap.ensureApart b is) h (fun _ h' ↦ h' = h ∧ ∀ i ∈ is, h.blockOf? i ≠ some b)
      fun f h' ↦ f = .busy ∧ h' = h ∧ ∃ i ∈ is, h.blockOf? i = some b := by
  by_cases hin : ∃ i ∈ is, h.blockOf? i = some b
  · have hany : (is.any fun i ↦ h.blockOf? i == some b) = true := by
      obtain ⟨i, hi, hb⟩ := hin
      exact List.any_eq_true.2 ⟨i, hi, beq_iff_eq.2 hb⟩
    refine Ends.after (get_eq h) ?_
    rw [if_pos hany]
    exact .throw ⟨rfl, rfl, hin⟩
  · have hapart (i : HandleId) (hi : i ∈ is) (hb : h.blockOf? i = some b) : False :=
      hin ⟨i, hi, hb⟩
    exact .of_ok (ensureApart_eq hapart) ⟨rfl, hapart⟩

end

/-- What is read while a block is written does not have that block. -/
theorem At.ensureApart (ha : c.At made ys h) {b : BlockId} {is : List HandleId}
    (hends : c.acyclic → ∀ i ∈ is, h.blockOf? i ≠ some b) :
    Ends (Heap.ensureApart b is) h (fun _ h' ↦ h' = h ∧ ∀ i ∈ is, h.blockOf? i ≠ some b)
      (c.Faults made ys) := by
  refine (ends_ensureApart h b is).mono (fun _ _ hh ↦ hh) ?_
  rintro _ _ ⟨rfl, rfl, i, hi, hb⟩
  exact ⟨ha, fun hac ↦ hends hac i hi hb⟩

section
variable {b : BlockId} {v w : Value Obj} {l m : ListId} {is js : List HandleId}

/-- The elements of a new list have blocks that are held more often than those of the old list, by
one hold. -/
theorem Ready.behind_copied {h₁ : Heap Obj} (hready : c.Ready h v) (hl : v.list? = some l)
    (his : h.elements? l = some is) (hg : h₁.Adds h') (hm : h'.elements? m = some js)
    (hjs : List.Forall₂ (fun i j ↦ ∃ b, h.blockOf? i = some b ∧ h₁.blockOf? j = some b) is js)
    (hblocks : ∀ j ∈ js, ∀ b, h₁.blockOf? j = some b → h'.blockOf? j = some b)
    (hmore : ∀ j ∈ js, ∀ b, h₁.blockOf? j = some b → h.count (.block b) < h₁.count (.block b)) :
    c.Behind h' m 0 := by
  intro js' hjs' j hj b' hb'
  obtain rfl := Option.some.inj (hm.symm.trans hjs')
  obtain ⟨i, hi, b'', hib, hjb⟩ := Heap.exists_of_forall₂ hjs hj
  obtain rfl := Option.some.inj ((hblocks j hj b'' hjb).symm.trans hb')
  have hnear := hready.near l hl is his i hi b'' hib
  have hlt := hmore j hj b'' hjb
  have hle := hg.le (.block b'')
  omega

/-- A list whose elements have the blocks of those of the list in a block does not lead to that
block: the way would go on from there to the old list, whose elements lead there, too. -/
theorem At.clears_copied (ha : c.At made ys h u) (hb : h.valueAt? b = some v)
    (hl : v.list? = some l) (his : h.elements? l = some is) (hm : h.elements? m = some js)
    (hjs : List.Forall₂ (fun i j ↦ ∃ b, h.blockOf? i = some b ∧ h.blockOf? j = some b) is js)
    (hw : w.list? = some m) : c.Clears h w.holds (.block b) := by
  intro hac y hy hreach
  rw [Heap.holds_of_list? hw] at hy
  obtain rfl := List.mem_singleton.1 hy
  obtain he | ⟨z, hz, hzb⟩ := hreach.cases_head
  · cases he
  rw [Heap.holdsOf_list hm] at hz
  obtain ⟨j, hj, rfl⟩ := List.mem_map.1 hz
  obtain ⟨i, hi, b', hib, hjb⟩ := Heap.exists_of_forall₂ hjs hj
  obtain he | ⟨z, hz, hzb⟩ := hzb.cases_head
  · cases he
  rw [Heap.holdsOf_handle hjb] at hz
  obtain rfl := List.mem_singleton.1 hz
  have helement := (Heap.Reaches.refl h _).next (Heap.handle_mem_holdsOf his hi)
  have hblock := helement.next (Heap.mem_holdsOf_of_blockOf? hib)
  exact ha.acyclic hac ⟨_, _, Heap.list_mem_holdsOf hb hl, hblock.trans hzb⟩

end

/-- A new list with the same contents for the block of a handle, which is then to be written. -/
theorem At.freshList {b : BlockId} {v : Value Obj} {l : ListId} {is : List HandleId}
    (ha : c.At made ys h) (ho : c.Owned h b v) (hready : c.Ready h v) (hl : v.list? = some l)
    (his : h.elements? l = some is) (hapart : ∀ i ∈ is, h.blockOf? i ≠ some b)
    (hloose : ∀ i, ¬ c.tied i l) :
    Runs (do Heap.newList (← Heap.duplicateAll is)) h fun m h' ↦
      ¬ h.Born (.list m) ∧ h'.count (.list l) = h.count (.list l) ∧ h.Shared h' l m ∧
        (∀ i b, h.blockOf? i = some b → h'.blockOf? i = some b) ∧
        ∀ w : Value Obj, w.list? = some m → (c.unseen → w = v.withList m) →
          c.At made (.list l :: ys) (h'.withValue b w) (some b) ∧ h.Steady (h'.withValue b w) ∧
            c.Owned (h'.withValue b w) b w ∧ c.OwnList (h'.withValue b w) m := by
  have hthere := ha.isSome_of_element his
  have hl₀ : (h.content? (.list l)).isSome :=
    Heap.isSome_of_elements? his
  refine (ha.duplicateAll hthere).andThen fun js h₁ ⟨ha₁, hg₁, hjs, _, hmore⟩ ↦ ?_
  refine ha₁.newList.mono fun m h₂ ⟨ha₂, hg₂, hm, hone, hnew⟩ ↦ ?_
  have hnew₀ : ¬ h.Born (.list m) := fun hn ↦ hnew (hg₁.quiet.born _ hn)
  have hblocks {i : HandleId} {b' : BlockId} (hi : h.blockOf? i = some b') :
      h₂.blockOf? i = some b' := hg₂.blockOf? (hg₁.blockOf? hi)
  have hjs₂ : List.Forall₂ (fun i j ↦ ∃ b, h₂.blockOf? i = some b ∧ h₂.blockOf? j = some b) is js :=
    hjs.imp fun i j ⟨b', hi, hj⟩ ↦ ⟨b', hblocks hi, hg₂.blockOf? hj⟩
  have ho₂ : c.Owned h₂ b v := by
    refine (ho.grows ha hg₁ ?_).grows ha₁ hg₂ id
    rintro ⟨i, hi, b', hb', he⟩
    cases he
    exact hapart i hi hb'
  refine ⟨hnew₀, ?_, ⟨is, js, his, hm, ?_⟩, fun i b hb ↦ hblocks hb, fun w hw hread ↦ ?_⟩
  · rw [hg₂.count _ (hg₁.isSome hl₀) id, hg₁.count _ hl₀ (by simp)]
  · exact hjs.imp fun i j ⟨b', hi, hj⟩ ↦ ⟨b', hi, hg₂.blockOf? hj⟩
  · have hswap (y : Hold) : v.holds.count y + [Hold.list m].count y =
        w.holds.count y + [Hold.list l].count y := by
      rw [Heap.holds_of_list? hl, Heap.holds_of_list? hw, Nat.add_comm]
    have his₂ := hg₂.elements? (hg₁.elements? his)
    have hshown (hr : c.unseen) : h₂.Alike (h₂.withValue b w) := by
      rw [hread hr]
      refine ha₂.sound.alike_withValue ho₂.cell? hl ?_
      rw [Heap.items_eq hm, Heap.items_eq his₂]
      exact hjs₂.imp fun i j ⟨b', hi, hj⟩ ↦ hi.trans hj.symm
    have hlist (i : HandleId) (l' : ListId) (ht : c.tied i l') (hi : h₂.blockOf? i = some b) :
        w.list? = some l' := by
      have hl' := (ha₂.tied i l' ht (Heap.isSome_of_blockOf? hi)).list? hi ho₂.value
      obtain rfl := Option.some.inj (hl.symm.trans hl')
      exact (hloose i ht).elim
    obtain ⟨ha₃, ho₃, hsteady⟩ := At.withValue (ha₂.write (some b)) ho₂ hswap hshown
      (fun _ hb ↦ absurd rfl hb) (ha₂.clears_copied ho₂.value hl his₂ hm hjs₂ hw)
      (fun _ he ↦ absurd he (Heap.ne_uninit_of_list? hw)) hlist
    have hfull := hready.behind_copied hl his hg₂.toAdds hm hjs
      (fun j _ b hb ↦ hg₂.blockOf? hb) hmore
    have hown : c.OwnList h₂ m := ⟨free_of_not_born (ha.not_born hnew₀) _, hone, hfull⟩
    exact ⟨ha₃, (hg₁.quiet.steady.trans hg₂.quiet.steady).trans hsteady, ho₃,
      hown.withValue ha₂ ho₂⟩

/-- The list of a block was exchanged; the block is still to be written. -/
def Exchanged (c : Scene Obj) (made : List HandleId) (ys : List Hold) (h : Heap Obj) (b : BlockId)
    (l : ListId) (v : Value Obj) (m : ListId) (h' : Heap Obj) : Prop :=
  ∀ w : Value Obj, w.list? = some m → (c.unseen → w = v.withList m) →
    c.At made ys (h'.withValue b w) (some b) ∧ h.Steady (h'.withValue b w) ∧
      c.Owned (h'.withValue b w) b w ∧ c.OwnList (h'.withValue b w) m ∧
      h.Shared (h'.withValue b w) l m ∧
      ∀ i b', h.blockOf? i = some b' → (h'.withValue b w).blockOf? i = some b'

section
variable {b : BlockId} {v : Value Obj} {l m : ListId} {is : List HandleId}

/-- A list that the block alone holds is its own already. -/
theorem At.exchanged_sole (ha : c.At made ys h) (ho : c.Owned h b v) (hready : c.Ready h v)
    (hl : v.list? = some l) (his : h.elements? l = some is) (hone : h.count (.list l) = 1) :
    c.Exchanged made ys h b l v l h := by
  intro w hw hread
  have hown : c.OwnList h l := by
    refine ⟨ha.free_of_sole ho.free (Heap.list_mem_holdsOf ho.value hl) hone (by simp)
      (hready.list l hl), hone, ?_⟩
    exact hready.sole l hl hone
  have hsame : w.holds = v.holds := by
    rw [Heap.holds_of_list? hl, Heap.holds_of_list? hw]
  have hshown (hr : c.unseen) : h.Alike (h.withValue b w) := by
    rw [hread hr]
    exact ha.sound.alike_withValue ho.cell? hl (Heap.forall₂_same fun _ _ ↦ rfl)
  obtain ⟨ha', ho', hsteady⟩ := (ha.write (some b)).withSame ho hsame hshown
    (fun _ hb ↦ absurd rfl hb) fun _ he ↦ absurd he (Heap.ne_uninit_of_list? hw)
  refine ⟨ha', hsteady, ho', hown.withValue ha ho, ⟨_, _, his, his,
    Heap.forall₂_same fun i hi ↦ ?_⟩, fun _ _ hb ↦ hb⟩
  obtain ⟨b', _, hb', -⟩ := ha.exists_value (ha.isSome_of_element his i hi)
  exact ⟨b', hb', hb'⟩

/-- A list that others hold, too, is given up for a new one. -/
theorem At.exchanged_fresh (ha : c.At made ys h) (his : h.elements? l = some is)
    (hnew : ¬ h.Born (.list m)) (htwo : 1 < h'.count (.list l)) (hshared : h.Shared h' l m)
    (hblocks : ∀ i b, h.blockOf? i = some b → h'.blockOf? i = some b)
    (hput : ∀ w : Value Obj, w.list? = some m → (c.unseen → w = v.withList m) →
      c.At made (.list l :: ys) (h'.withValue b w) (some b) ∧ h.Steady (h'.withValue b w) ∧
        c.Owned (h'.withValue b w) b w ∧ c.OwnList (h'.withValue b w) m) :
    c.Exchanged made ys h b l v m (h'.release [.list l]) := by
  intro w hw hread
  obtain ⟨ha₃, hsteady₃, ho₃, hown₃⟩ := hput w hw hread
  have htwo₃ : 1 < (h'.withValue b w).count (.list l) := htwo
  obtain ⟨k, hk, hc₄⟩ := Heap.changes_release_one htwo₃
  have ha₃' : c.At made ([.list l] ++ ys) (h'.withValue b w) (some b) := ha₃
  obtain ⟨ha₄, hr₄⟩ := ha₃'.release
  have hcontent := Heap.content?_release_one htwo₃
  have hne : Hold.list m ≠ .list l := by
    rintro ⟨⟩
    exact hnew (ha.born (Heap.isSome_of_elements? his))
  obtain ⟨_, js, his', hm, hjs⟩ := hshared
  rw [Heap.withValue_release_list htwo]
  refine ⟨ha₄, hsteady₃.trans hr₄.quiet.steady, ho₃.changes ha₃ hc₄ (At.exists_cell? hk),
    ⟨ha₃.free_mono hown₃.free hr₄.quiet.onward, ?_, ?_⟩, ⟨_, js, his',
    (Heap.elements?_congr (hcontent _)).trans hm, ?_⟩, fun i b' hb' ↦ ?_⟩
  · rw [Heap.count_release_one htwo₃, if_neg hne]
    exact hown₃.sole
  · refine hown₃.full.mono (fun is his ↦ ?_) fun is his e he b' heb ↦ ⟨?_, ?_⟩
    · rwa [← Heap.elements?_congr (hcontent (.list m))]
    · rwa [← Heap.blockOf?_congr (hcontent (.handle e))]
    · rw [Heap.count_release_one htwo₃, if_neg (by simp)]
  · refine hjs.imp ?_
    rintro i j ⟨b', hi, hj⟩
    exact ⟨b', hi, (Heap.blockOf?_congr (hcontent (.handle j))).trans hj⟩
  · exact (Heap.blockOf?_congr (hcontent (.handle i))).trans (hblocks i b' hb')

/-- **The own list of a block**, in exchange for the one that its value has. -/
theorem At.ownListFor (ha : c.At made ys h) (ho : c.Owned h b v) (hready : c.Ready h v)
    (hl : v.list? = some l) :
    Ends (Heap.ownListFor b l) h (c.Exchanged made ys h b l v) (c.Faults made ys) := by
  obtain ⟨is, his, -⟩ := ha.exists_elements_of_list? (ha.isSome_of_value ho.value) hl
  obtain ⟨cell, hcell, rfl⟩ := Option.map_eq_some_iff.1 his
  have hcount : h.count (.list l) = cell.holders := by
    rw [Heap.count, Heap.cell?, hcell]
    rfl
  rw [Heap.ownListFor]
  refine Ends.after (Heap.look_eq hcell) ?_
  by_cases hsole : cell.holders = 1
  · rw [if_neg (not_not.2 hsole), Heap.ownList]
    refine Ends.after (Heap.look_eq hcell) ?_
    rw [if_pos hsole]
    exact .pure (ha.exchanged_sole ho hready hl his (hcount.trans hsole))
  · rw [if_pos hsole]
    refine (ha.ensureApart fun hac ↦ ha.blockOf?_ne_of_element hac ho.value hl his).bind ?_
    rintro _ h₁ ⟨hh₁, hapart⟩
    rw [hh₁, Heap.ownList]
    refine Ends.after (Heap.look_eq hcell) ?_
    rw [if_neg hsole]
    obtain ⟨m, h₂, hrun, hnew, hcount₂, hshared, hblocks, hput⟩ :=
      ha.freshList ho hready hl his hapart fun i ht ↦
        hsole (hcount.symm.trans (hready.tied i _ ht hl))
    obtain ⟨js, h₁', hrun₁, hrun₂⟩ := bind_eq_ok_iff.1 hrun
    have htwo : 1 < h₂.count (.list l) := by
      have hpos := (List.count_pos_iff.2 (Heap.list_mem_holdsOf ho.value hl)).trans_le
        (h.count_holdsOf_le_uses (.list l) (.block b))
      have hcounted := ha.sound.counted (.list l)
      omega
    refine Ends.after hrun₁ (Ends.after hrun₂ (Ends.after rfl (.pure ?_)))
    exact ha.exchanged_fresh his hnew htwo hshared hblocks hput

end

/-- What is known of block and list when both are a handle's own. -/
structure OwnedList (c : Scene Obj) (h h' : Heap Obj) (b : BlockId) (v : Value Obj) (m : ListId) :
    Prop where
  block : c.Owned h' b (v.withList m)
  list : c.OwnList h' m
  shared : ∃ l, v.list? = some l ∧ h.Shared h' l m
  blocks : ∀ i b', h.blockOf? i = some b' → h'.blockOf? i = some b'

theorem OwnedList.list? {b : BlockId} {v : Value Obj} {m : ListId}
    (ho : c.OwnedList h h' b v m) : (v.withList m).list? = some m := by
  obtain ⟨l, hl, -⟩ := ho.shared
  exact Heap.list?_withList hl m

theorem OwnedList.exists_elements {b : BlockId} {v : Value Obj} {m : ListId}
    (ho : c.OwnedList h h' b v m) : ∃ js, h'.elements? m = some js := by
  obtain ⟨l, -, is, js, -, hjs, -⟩ := ho.shared
  exact ⟨js, hjs⟩

/-- The own list of the container in a block. -/
theorem At.ownListIn {b : BlockId} {v : Value Obj} (ha : c.At made ys h) (ho : c.Owned h b v)
    (hready : c.Ready h v) :
    Ends (Heap.ownListIn b) h
      (fun r h' ↦ c.At made ys h' ∧ h.Steady h' ∧ (∀ m, r = some m → c.OwnedList h h' b v m) ∧
        (r = none → v.list? = none))
      (c.Faults made ys) := by
  rw [Heap.ownListIn]
  refine Ends.after (Heap.look_eq ho.value) ?_
  cases hl : v.list? with
  | none => exact .pure ⟨ha, .refl h, fun m hm ↦ (by cases hm), fun _ ↦ rfl⟩
  | some l =>
    refine (ha.ownListFor ho hready hl).bind fun m h₁ hex ↦ ?_
    obtain ⟨ha₁, hsteady, ho₁, hown, hshared, hblocks⟩ :=
      hex _ (Heap.list?_withList hl m) fun _ ↦ rfl
    have hm : c.regular → ∀ w, (h₁.withValue b (v.withList m)).valueAt? b = some w →
        (h₁.withValue b (v.withList m)).Matched w := by
      intro hr w hw
      obtain rfl := Option.some.inj (ho₁.value.symm.trans hw)
      exact hshared.matched hl (ha.regular hr b v (Option.some_ne_none b).symm ho.value)
    refine Ends.after rfl (.pure ⟨ha₁.finish hm, hsteady, fun n hn ↦ ?_, by simp⟩)
    cases hn
    exact ⟨ho₁, hown, ⟨l, hl, hshared⟩, hblocks⟩

/-- A handle whose block and list are its own. -/
structure Prepared (c : Scene Obj) (h : Heap Obj) (i : HandleId) (v : Value Obj) (m : ListId) :
    Prop where
  block : ∃ b, h.blockOf? i = some b ∧ c.Owned h b v
  list : c.OwnList h m
  value : v.list? = some m

/-- What has its own list is ready. -/
theorem OwnList.ready {v : Value Obj} {m : ListId} (ho : c.OwnList h m) (hv : v.list? = some m) :
    c.Ready h v where
  list l hl := by
    obtain rfl := Option.some.inj (hv.symm.trans hl)
    by_contra hlost
    exact ho.free.unshared ⟨by simp, by rw [Full, ho.sole] at hlost; omega⟩
  near l hl is his e he b hb := by
    obtain rfl := Option.some.inj (hv.symm.trans hl)
    exact (ho.full is his e he b hb).trans (Nat.le_succ _)
  sole l hl _ := by
    obtain rfl := Option.some.inj (hv.symm.trans hl)
    exact ho.full
  tied i l _ hl := by
    obtain rfl := Option.some.inj (hv.symm.trans hl)
    exact ho.sole

theorem Prepared.grows {i : HandleId} {v : Value Obj} {m : ListId} (hp : c.Prepared h i v m)
    (ha : c.At made ys h) (hg : h.Grows h' h.Unset) : c.Prepared h' i v m := by
  obtain ⟨b, hi, ho⟩ := hp.block
  refine ⟨⟨b, hg.blockOf? hi, ho.grows ha hg fun hu ↦ ?_⟩,
    hp.list.grows ha hg (h.not_unset_list m), hp.value⟩
  rw [Heap.Unset, Heap.content?_block.2 ho.value] at hu
  cases hu
  cases hp.value

/-- Nothing happens to a block that is a handle's own when it is to be made that. -/
theorem Prepared.own {i : HandleId} {v : Value Obj} {m : ListId} (hp : c.Prepared h i v m) :
    Ends (Heap.own i) h
      (fun b h' ↦ h' = h ∧ h.blockOf? i = some b ∧ c.Owned h b v ∧ c.Ready h v)
      (c.Faults made ys) := by
  obtain ⟨b, hi, ho⟩ := hp.block
  have hsole := (Heap.holders?_eq_some_iff ho.isSome).2 ho.sole
  rw [Heap.own]
  refine Ends.after (Heap.look_eq hi) (Ends.after (Heap.isSole_eq b h) ?_)
  rw [hsole, if_pos (beq_self_eq_true _)]
  exact .pure ⟨rfl, hi, ho, hp.list.ready hp.value⟩

/-- Block and list of a handle, both made its own. -/
theorem At.ownContainer {i : HandleId} {v : Value Obj} (ha : c.At made ys h) (hcalm : c.Calm h)
    (hheld : Hold.handle i ∈ ys ++ c.outside) (hfree : c.Free h (.handle i))
    (hv : h.valueOf? i = some v) (hset : c.single → v ≠ .uninit) :
    Ends (Heap.ownContainer i) h
      (fun r h' ↦ c.At made ys h' ∧
        (∀ m, r = some m → (∃ v, c.Prepared h' i v m) ∧ ∃ js, h'.elements? m = some js) ∧
        (r = none → v.list? = none))
      (c.Faults made ys) := by
  refine (ha.own hcalm hheld hfree hv hset).bind fun b h₁ ⟨ha₁, _, hi, hown, hready⟩ ↦ ?_
  refine (ha₁.ownListIn hown hready).mono (fun r h₂ ⟨ha₂, _, hr, hnone⟩ ↦ ?_) fun _ _ hf ↦ hf
  refine ⟨ha₂, fun m hm ↦ ⟨⟨v.withList m, ⟨b, ?_, (hr m hm).block⟩, (hr m hm).list, ?_⟩,
    (hr m hm).exists_elements⟩, hnone⟩
  · exact (hr m hm).blocks i b hi
  · exact (hr m hm).list?

end Scene
end ScriptHeap
