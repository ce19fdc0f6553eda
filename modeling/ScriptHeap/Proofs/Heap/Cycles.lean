import Mathlib.Algebra.Order.BigOperators.Group.Finset
import ScriptHeap.Proofs.Heap.Onward

/-!
# Cells that hold each other

A cell goes with its last hold, so cells that hold each other in a circle never go.  Where there is
no circle, the way back from a cell to those that hold it comes to an end, and it ends at a cell
that is held from outside or is the heap's own.

## What is here

* `Heap.Endless` — cells hold each other in a circle.
* `Heap.not_endless_of_rank` — they do not where every hold leads downwards.
* `Heap.Sound.exists_source` — without a circle, all that is there is reached from outside or from
  the heap's own block.
* `Heap.Sound.used_eq` — so a heap of which nobody holds anything keeps that block alone.
* `Heap.Released.not_endless`, `Heap.Changes.not_endless` — giving up holds closes no circle, nor
  does a change of a cell to one from which there is no way back.
-/

set_option autoImplicit false
namespace ScriptHeap.Heap

variable {Obj : Type} {h h' : Heap Obj} {xs : List Hold} {x y z : Hold}

/-! ## Ways between cells -/

theorem Reaches.refl (h : Heap Obj) (x : Hold) : h.Reaches x x :=
  .here fun _ _ hf ↦ hf

theorem Reaches.next (hxy : h.Reaches x y) (hz : z ∈ h.holdsOf y) : h.Reaches x z :=
  Clear.next hxy hz fun _ _ hf ↦ hf

theorem Reaches.trans (hxy : h.Reaches x y) (hyz : h.Reaches y z) : h.Reaches x z := by
  induction hyz with
  | here _ => exact hxy
  | next _ hz _ ih => exact ih.next hz

/-- A way of more than one cell goes on from something that the first cell holds. -/
theorem Reaches.cases_head (hxz : h.Reaches x z) : z = x ∨ ∃ y ∈ h.holdsOf x, h.Reaches y z := by
  induction hxz with
  | here _ => exact .inl rfl
  | @next y z _ hz _ ih =>
    rcases ih with rfl | ⟨w, hw, hwy⟩
    · exact .inr ⟨z, hz, .refl h z⟩
    · exact .inr ⟨w, hw, hwy.next hz⟩

/-- Ways stay where cells are only left out. -/
theorem Reaches.mono (hsub : ∀ z, ∀ w ∈ h'.holdsOf z, w ∈ h.holdsOf z) (hxy : h'.Reaches x y) :
    h.Reaches x y := by
  induction hxy with
  | here _ => exact .refl h x
  | next _ hz _ ih => exact ih.next (hsub _ _ hz)

/-- Ways from what is there stay as they are after a quiet change. -/
theorem Quiet.reaches (hq : h.Quiet h') (hs : h.Sound xs) (hy : h.Born y)
    (hreach : h'.Reaches y z) : h.Reaches y z := by
  induction hreach with
  | here _ => exact .refl h y
  | @next u w _ hw _ ih =>
    obtain ⟨k, hk, hmem⟩ := (mem_holdsOf w).1 hw
    exact ih.next ((mem_holdsOf w).2 ⟨k, hq.content u (Clear.born hs hy ih) k hk, hmem⟩)

/-- All ways stay where nothing that was there is changed or held less. -/
theorem Adds.reaches (ha : h.Adds h') (hs : h.Sound xs) (hreach : h.Reaches y z) :
    h'.Reaches y z := by
  refine hreach.mono fun u w hw ↦ ?_
  obtain ⟨k, hk, hmem⟩ := (mem_holdsOf w).1 hw
  exact (mem_holdsOf w).2 ⟨k, ha.content hs hk, hmem⟩

/-- A way to what a single cell holds comes from that cell. -/
theorem Reaches.holder (hreach : h.Reaches z x) (hx : x ∈ h.holdsOf y) (huses : h.uses x ≤ 1) :
    z = x ∨ h.Reaches z y := by
  cases hreach with
  | here _ => exact .inl rfl
  | @next u _ hzu hxu _ =>
    by_cases huy : u = y
    · exact .inr (huy ▸ hzu)
    · have htwo := h.count_holdsOf_add_le_uses x huy
      have hu := List.count_pos_iff.2 hxu
      have hy := List.count_pos_iff.2 hx
      omega

/-- What is held once, by a cell, is held by nobody outside and by no other cell. -/
theorem Sound.sole_holder (hs : h.Sound xs) (hx : x ∈ h.holdsOf y) (hsole : h.count x = 1) :
    x ∉ xs ∧ ∀ z, x ∈ h.holdsOf z → z = y := by
  have hcounted := hs.counted x
  have hy := List.count_pos_iff.2 hx
  refine ⟨fun hmem ↦ ?_, fun z hz ↦ by_contra fun hne ↦ ?_⟩
  · have hpos := List.count_pos_iff.2 hmem
    have huse := h.count_holdsOf_le_uses x y
    omega
  · have hpos := List.count_pos_iff.2 hz
    have htwo := h.count_holdsOf_add_le_uses x hne
    omega

/-- A way to a cell with a single holder comes from that holder. -/
theorem Sound.reaches_holder (hs : h.Sound xs) (hsole : h.count x = 1) (hx : x ∈ h.holdsOf y)
    (hreach : h.Reaches z x) : z = x ∨ h.Reaches z y := by
  refine hreach.holder hx ?_
  have hcounted := hs.counted x
  omega

/-! ## Ways from new cells -/

theorem Grows.holdsOf {touched : Hold → Prop} (hg : h.Grows h' touched)
    (hx : (h.content? x).isSome) : h'.holdsOf x = h.holdsOf x := by
  obtain ⟨k, hk⟩ := Option.isSome_iff_exists.1 hx
  rw [holdsOf_eq hk, holdsOf_eq (hg.content x k hk)]

/-- The cells that were there hold what they held, and others may hold more. -/
theorem Grows.uses_le {touched : Hold → Prop} (hg : h.Grows h' touched) (x z : Hold) :
    h.uses x + (h'.holdsOf z).count x ≤ h'.uses x + (h.holdsOf z).count x := by
  have hcell (y : Hold) : (h.holdsOf y).count x ≤ (h'.holdsOf y).count x := by
    cases hy : h.content? y with
    | none => simp [Heap.holdsOf, hy]
    | some k => rw [hg.holdsOf (by rw [hy]; rfl)]
  have hown : h.ownHolds.count x ≤ h'.ownHolds.count x := by
    cases hb : h.blank with
    | none => simp [ownHolds, hb]
    | some b => rw [ownHolds, ownHolds, hb, hg.quiet.blank b hb]
  have hN : h.names ⊆ insert z (h.names ∪ h'.names) :=
    Finset.subset_union_left.trans (Finset.subset_insert z _)
  have hN' : h'.names ⊆ insert z (h.names ∪ h'.names) :=
    Finset.subset_union_right.trans (Finset.subset_insert z _)
  have hz := Finset.mem_insert_self z (h.names ∪ h'.names)
  have hrest := Finset.sum_le_sum fun y (_ : y ∈ (insert z (h.names ∪ h'.names)).erase z) ↦ hcell y
  rw [uses_eq hN, uses_eq hN', ← Finset.add_sum_erase _ _ hz, ← Finset.add_sum_erase _ _ hz]
  omega

/-- What is held anew leads to new cells only, and to the block of variables without a value. -/
theorem Grows.reaches_new {ys : List Hold} (hg : h.Grows h' h.Unset) (hs : h.Sound xs)
    (hs' : h'.Sound (ys ++ xs)) (hy : y ∈ ys) (hreach : h'.Reaches y z) :
    ¬ h.Born z ∨ h.Unset z := by
  -- what was there is held as often as before, so it has no new holder
  have hold {w : Hold} (hw : h.Born w) (hthere : (h'.content? w).isSome) (hset : ¬ h.Unset w) :
      (h.content? w).isSome ∧ h'.count w = h.count w := by
    obtain ⟨k, hk⟩ := Option.isSome_iff_exists.1 hthere
    have hk₀ : (h.content? w).isSome := by
      rw [hg.quiet.content w hw k hk]
      rfl
    exact ⟨hk₀, hg.count w hk₀ hset⟩
  induction hreach with
  | here _ =>
    by_contra hneither
    obtain ⟨hborn, hset⟩ := not_or.1 hneither
    obtain ⟨hthere, hcount⟩ :=
      hold (not_not.1 hborn) (hs'.isSome_of_mem (List.mem_append_left xs hy)) hset
    have hle := hg.uses_le y y
    have h₁ := hs.counted y
    have h₂ := hs'.counted y
    have hpos := List.count_pos_iff.2 hy
    rw [hg.holdsOf hthere] at hle
    rw [List.count_append] at h₂
    omega
  | @next u w _ hw _ ih =>
    by_contra hneither
    obtain ⟨hborn, hset⟩ := not_or.1 hneither
    obtain ⟨hthere, hcount⟩ := hold (not_not.1 hborn) (hs'.isSome_of_mem_holdsOf hw) hset
    rcases ih with hu | hu
    · have hnone : h.content? u = none := by
        cases hc : h.content? u with
        | none => rfl
        | some k =>
          obtain ⟨n, hn⟩ := exists_cell?_of_content? hc
          exact absurd (born_of_cell? hs.tidy hn) hu
      have hle := hg.uses_le w u
      have hempty : (h.holdsOf u).count w = 0 := by
        simp [Heap.holdsOf, hnone]
      have h₁ := hs.counted w
      have h₂ := hs'.counted w
      have hpos := List.count_pos_iff.2 hw
      rw [List.count_append] at h₂
      omega
    · rw [holdsOf_eq (hg.content u _ hu)] at hw
      cases hw

/-- So it leads to no handle that was there. -/
theorem Grows.not_reaches_new {ys : List Hold} {i : HandleId} (hg : h.Grows h' h.Unset)
    (hs : h.Sound xs) (hs' : h'.Sound (ys ++ xs)) (hi : h.Born (.handle i)) (hy : y ∈ ys) :
    ¬ h'.Reaches y (.handle i) := by
  intro hreach
  rcases hg.reaches_new hs hs' hy hreach with hnew | hset
  · exact hnew hi
  · obtain ⟨b, he, -⟩ := exists_block_of_content? hset
    cases he

/-! ## Circles -/

/-- Some cell is reached from what it holds itself. -/
def Endless (h : Heap Obj) : Prop :=
  ∃ x y, y ∈ h.holdsOf x ∧ h.Reaches y x

theorem mem_names_of_mem_holdsOf (hy : y ∈ h.holdsOf x) : x ∈ h.names := by
  obtain ⟨k, hk, -⟩ := (mem_holdsOf y).1 hy
  obtain ⟨n, hn⟩ := exists_cell?_of_content? hk
  exact mem_names hn

/-- There is no circle where every hold leads downwards. -/
theorem not_endless_of_rank (rank : Hold → Nat)
    (hrank : ∀ x ∈ h.names, ∀ y ∈ h.holdsOf x, rank y < rank x) : ¬ h.Endless := by
  rintro ⟨x, y, hy, hreach⟩
  have hle {z : Hold} (hz : h.Reaches y z) : rank z ≤ rank y := by
    induction hz with
    | here _ => exact Nat.le_refl _
    | next _ hw _ ih => exact (hrank _ (mem_names_of_mem_holdsOf hw) _ hw).le.trans ih
  exact absurd (hle hreach) (Nat.not_le.2 (hrank x (mem_names_of_mem_holdsOf hy) y hy))

/-- No circle is closed where cells are only left out. -/
theorem not_endless_mono (hsub : ∀ z, ∀ w ∈ h'.holdsOf z, w ∈ h.holdsOf z) (hends : ¬ h.Endless) :
    ¬ h'.Endless := by
  rintro ⟨x, y, hy, hreach⟩
  exact hends ⟨x, y, hsub x y hy, hreach.mono hsub⟩

/-- Giving up holds closes no circle. -/
theorem Released.not_endless (hr : h.Released h' xs) (hends : ¬ h.Endless) : ¬ h'.Endless := by
  refine not_endless_mono (fun z w hw ↦ ?_) hends
  obtain ⟨k, hk, hmem⟩ := (mem_holdsOf w).1 hw
  exact (mem_holdsOf w).2 ⟨k, hr.sub z k hk, hmem⟩

/-- A way in a heap in which one cell was changed is an old way, or it goes through that cell. -/
theorem Changes.reaches {new : Option (Nat × Content Obj)} (hc : h.Changes h' x new)
    (hreach : h'.Reaches y z) :
    h.Reaches y z ∨ h.Reaches y x ∧ ∃ w ∈ newHolds new, h.Reaches w z := by
  induction hreach with
  | here _ => exact .inl (.refl h y)
  | @next u z _ hz _ ih =>
    rw [hc.holdsOf] at hz
    split at hz
    · rename_i hux
      subst hux
      exact .inr ⟨ih.elim id And.left, z, hz, .refl h z⟩
    · refine ih.imp (·.next hz) fun ⟨hyx, w, hw, hwu⟩ ↦ ⟨hyx, w, hw, hwu.next hz⟩

/-- **A change closes no circle** when what the cell holds then does not lead back to it. -/
theorem Changes.not_endless {new : Option (Nat × Content Obj)} (hc : h.Changes h' x new)
    (hnew : ∀ y ∈ newHolds new, ¬ h.Reaches y x) (hends : ¬ h.Endless) : ¬ h'.Endless := by
  rintro ⟨z, y, hy, hreach⟩
  have hway := hc.reaches hreach
  rw [hc.holdsOf] at hy
  split at hy
  · rename_i hzx
    subst hzx
    exact hnew y hy (hway.elim id And.left)
  · rcases hway with hway | ⟨hyx, w, hw, hwz⟩
    · exact hends ⟨z, y, hy, hway⟩
    · exact hnew w hw ((hwz.next hy).trans hyx)

/-- A change closes a circle when what the cell holds then leads back to it.  Without a circle the
way back does not go through the cell before its end, so it stays. -/
theorem Changes.endless {new : Option (Nat × Content Obj)} (hc : h.Changes h' x new)
    (hends : ¬ h.Endless) (hy : y ∈ newHolds new) (hreach : h.Reaches y x) : h'.Endless := by
  have hstays {z : Hold} (hyz : h.Reaches y z) (hzx : h.Reaches z x) : h'.Reaches y z := by
    induction hyz with
    | here _ => exact .refl h' y
    | @next u z _ hz _ ih =>
      refine (ih (((Reaches.refl h u).next hz).trans hzx)).next ?_
      rw [hc.holdsOf, if_neg]
      · exact hz
      · rintro rfl
        exact hends ⟨u, z, hz, hzx⟩
  refine ⟨x, y, ?_, hstays hreach (.refl h x)⟩
  rw [hc.holdsOf, if_pos rfl]
  exact hy

/-- A new cell closes none: what is there does not lead to it. -/
theorem Changes.not_endless_of_not_born {new : Option (Nat × Content Obj)}
    (hc : h.Changes h' x new) (hs : h.Sound xs) (hx : ¬ h.Born x)
    (hnew : ∀ y ∈ newHolds new, h.Born y) (hends : ¬ h.Endless) : ¬ h'.Endless :=
  hc.not_endless (fun y hy hreach ↦ hx (Clear.born hs (hnew y hy) hreach)) hends

/-- A circle stays when holds are given up, since each of its cells is held by another one. -/
theorem Released.endless (hr : h.Released h' xs) (hends : h.Endless) : h'.Endless := by
  obtain ⟨x, y, hy, hreach⟩ := hends
  have hheld : ∀ z, h.Reaches y z ∧ h.Reaches z x →
      ∃ w, (h.Reaches y w ∧ h.Reaches w x) ∧ z ∈ h.holdsOf w := by
    rintro z ⟨hyz, hzx⟩
    cases hyz with
    | here _ => exact ⟨x, ⟨hreach, .refl h x⟩, hy⟩
    | @next w _ hyw hz _ => exact ⟨w, ⟨hyw, ((Reaches.refl h w).next hz).trans hzx⟩, hz⟩
  have hsame := hr.stays _ hheld
  have hstays {z : Hold} (hyz : h.Reaches y z) (hzx : h.Reaches z x) : h'.Reaches y z := by
    induction hyz with
    | here _ => exact .refl h' y
    | @next w _ hyw hz _ ih =>
      have hwx := ((Reaches.refl h w).next hz).trans hzx
      refine (ih hwx).next ?_
      rwa [holdsOf, hsame w ⟨hyw, hwx⟩]
  refine ⟨x, y, ?_, hstays hreach (.refl h x)⟩
  rwa [holdsOf, hsame x ⟨hreach, .refl h x⟩]

/-! ## Where ways come from -/

/-- What is there is held by a cell, from outside, or by the heap itself. -/
theorem Sound.exists_holder (hs : h.Sound xs) (hx : (h.content? x).isSome) :
    (∃ y, x ∈ h.holdsOf y) ∨ x ∈ xs ∨ x ∈ h.ownHolds := by
  have hpos := hs.held x hx
  rw [hs.counted, uses] at hpos
  by_cases hout : x ∈ xs
  · exact .inr (.inl hout)
  · by_cases hown : x ∈ h.ownHolds
    · exact .inr (.inr hown)
    · rw [List.count_eq_zero_of_not_mem hout, List.count_eq_zero_of_not_mem hown,
        Nat.add_zero] at hpos
      obtain ⟨y, -, hy⟩ := Finset.exists_ne_zero_of_sum_ne_zero (Nat.pos_iff_ne_zero.1 hpos)
      exact .inl ⟨y, List.count_pos_iff.1 (Nat.pos_of_ne_zero hy)⟩

open Classical in
/-- The cells from which a cell is reached. -/
noncomputable def origins (h : Heap Obj) (x : Hold) : Finset Hold :=
  h.names.filter fun y ↦ h.Reaches y x

open Classical in
theorem mem_origins : y ∈ h.origins x ↔ y ∈ h.names ∧ h.Reaches y x :=
  Finset.mem_filter

/-- One step back there are fewer, unless there is a way back. -/
theorem card_origins_lt (hback : ¬ h.Reaches x y) (hy : x ∈ h.holdsOf y) (hx : x ∈ h.names) :
    (h.origins y).card < (h.origins x).card := by
  have hsub : h.origins y ⊆ h.origins x := by
    intro z hz
    obtain ⟨hmem, hreach⟩ := mem_origins.1 hz
    exact mem_origins.2 ⟨hmem, hreach.next hy⟩
  refine Finset.card_lt_card ((Finset.ssubset_iff_of_subset hsub).2 ⟨x, ?_, fun hmem ↦ ?_⟩)
  · exact mem_origins.2 ⟨hx, .refl h x⟩
  · exact hback (mem_origins.1 hmem).2

/-- **Without a circle** all that is there is reached from outside or from the heap's own block. -/
theorem Sound.exists_source (hs : h.Sound xs) (hends : ¬ h.Endless)
    (hx : (h.content? x).isSome) : ∃ y, h.Reaches y x ∧ (y ∈ xs ∨ y ∈ h.ownHolds) := by
  induction hn : (h.origins x).card using Nat.strong_induction_on generalizing x with
  | h n ih =>
    rcases hs.exists_holder hx with ⟨y, hy⟩ | hout
    · obtain ⟨k, hk, -⟩ := (mem_holdsOf x).1 hy
      obtain ⟨_, hk'⟩ := Option.isSome_iff_exists.1 hx
      obtain ⟨_, hcell⟩ := exists_cell?_of_content? hk'
      have hlt := card_origins_lt (fun hback ↦ hends ⟨y, x, hy, hback⟩) hy (mem_names hcell)
      obtain ⟨z, hz, hsource⟩ := ih _ (hn ▸ hlt) (Option.isSome_iff_exists.2 ⟨k, hk⟩) rfl
      exact ⟨z, hz.next hy, hsource⟩
    · exact ⟨x, .refl h x, hout⟩

/-! ## Values that can be written out -/

variable {v w : Value Obj} {l : ListId} {i : HandleId} {is : List HandleId}

open Classical in
/-- The handles that are reached from what a value holds. -/
noncomputable def below (h : Heap Obj) (v : Value Obj) : Finset Nat :=
  (Finset.range h.handles.next).filter fun n ↦ ∃ y ∈ v.holds, h.Reaches y (.handle ⟨n⟩)

open Classical in
theorem mem_below {n : Nat} :
    n ∈ h.below v ↔ n < h.handles.next ∧ ∃ y ∈ v.holds, h.Reaches y (.handle ⟨n⟩) :=
  Finset.mem_filter.trans (and_congr_left' Finset.mem_range)

theorem card_below_le (h : Heap Obj) (v : Value Obj) : (h.below v).card ≤ h.handles.next := by
  classical
  exact (Finset.card_filter_le _ _).trans (Nat.le_of_eq (Finset.card_range _))

/-- What the value of a handle holds is reached from the handle. -/
theorem reaches_of_valueOf? (hw : h.valueOf? i = some w) (hy : y ∈ w.holds) :
    ∃ b, y ∈ h.holdsOf (.block b) ∧ h.Reaches (.handle i) (.block b) := by
  obtain ⟨b, hb, hv⟩ := Option.bind_eq_some_iff.1 hw
  refine ⟨b, ?_, (Reaches.refl h _).next ?_⟩
  · rwa [holdsOf_block hv]
  · exact mem_holdsOf_of_blockOf? hb

/-- Without a circle an element has fewer handles below it than the container. -/
theorem card_below_lt (hends : ¬ h.Endless) (hl : v.list? = some l)
    (his : h.elements? l = some is) (hi : i ∈ is) (hw : h.valueOf? i = some w) :
    (h.below w).card < (h.below v).card := by
  have hmem : Hold.list l ∈ v.holds :=
    list_mem_holds hl
  have helement : h.Reaches (.list l) (.handle i) :=
    (Reaches.refl h _).next (handle_mem_holdsOf his hi)
  have hsub : h.below w ⊆ h.below v := by
    intro n hn
    obtain ⟨hlt, y, hy, hreach⟩ := mem_below.1 hn
    obtain ⟨b, hyb, hib⟩ := reaches_of_valueOf? hw hy
    exact mem_below.2 ⟨hlt, .list l, hmem, ((helement.trans hib).next hyb).trans hreach⟩
  have hlt : i.index < h.handles.next := by
    obtain ⟨b, hb, -⟩ := Option.bind_eq_some_iff.1 hw
    obtain ⟨cell, hcell, -⟩ := Option.map_eq_some_iff.1 hb
    exact Table.lt_next_of_get? hcell
  refine Finset.card_lt_card ((Finset.ssubset_iff_of_subset hsub).2 ⟨i.index, ?_, fun hn ↦ ?_⟩)
  · exact mem_below.2 ⟨hlt, .list l, hmem, helement⟩
  · obtain ⟨-, y, hy, hreach⟩ := mem_below.1 hn
    obtain ⟨b, hyb, hib⟩ := reaches_of_valueOf? hw hy
    exact hends ⟨.block b, y, hyb, hreach.trans hib⟩

theorem mapM_isSome {α β : Type} {f : α → Option β} {as : List α}
    (hf : ∀ a ∈ as, (f a).isSome) : (as.mapM f).isSome := by
  induction as with
  | nil => rfl
  | cons a as ih =>
    obtain ⟨b, hb⟩ := Option.isSome_iff_exists.1 (hf a List.mem_cons_self)
    obtain ⟨bs, hbs⟩ := Option.isSome_iff_exists.1 (ih fun c hc ↦ hf c (List.mem_cons_of_mem a hc))
    rw [List.mapM_cons, hb, hbs]
    rfl

theorem Sound.datumWithin_isSome (hs : h.Sound xs) (hends : ¬ h.Endless) {depth : Nat}
    (hv : ∀ y ∈ v.holds, (h.content? y).isSome) (hdepth : (h.below v).card < depth) :
    (datumWithin depth h v).isSome := by
  induction depth generalizing v with
  | zero => exact absurd hdepth (Nat.not_lt_zero _)
  | succ depth ih =>
    have helements {l : ListId} (hl : v.list? = some l) : ∃ is ds, h.elements? l = some is ∧
        (is.mapM fun i ↦ (h.valueOf? i).bind (datumWithin depth h)) = some ds := by
      have hthere := hv (.list l) (list_mem_holds hl)
      obtain ⟨is, his, hhandles⟩ := hs.exists_elements hthere
      have hall : (is.mapM fun i ↦ (h.valueOf? i).bind (datumWithin depth h)).isSome := by
        refine mapM_isSome fun i hi ↦ ?_
        obtain ⟨b, w, -, hb, hw⟩ := hs.exists_value (hhandles i hi)
        rw [hw, Option.bind_some]
        refine ih (hs.isSome_of_value hb) ?_
        exact (card_below_lt hends hl his hi hw).trans_le (Nat.le_of_lt_succ hdepth)
      obtain ⟨ds, hds⟩ := Option.isSome_iff_exists.1 hall
      exact ⟨is, ds, his, hds⟩
    cases v with
    | scalar s => rfl
    | array l =>
      obtain ⟨is, ds, his, hds⟩ := helements rfl
      rw [datumWithin, his]
      simp only [Option.bind_eq_bind, Option.bind_some, hds]
      rfl
    | struct names l =>
      obtain ⟨is, ds, his, hds⟩ := helements rfl
      rw [datumWithin, his]
      simp only [Option.bind_eq_bind, Option.bind_some, hds]
      rfl

/-- **Without a circle** every value that is there can be written out in full. -/
theorem Sound.datum?_isSome (hs : h.Sound xs) (hends : ¬ h.Endless)
    (hv : ∀ y ∈ v.holds, (h.content? y).isSome) : (h.datum? v).isSome :=
  hs.datumWithin_isSome hends hv (Nat.lt_succ_of_le (h.card_below_le v))

/-- What it is written out as is its outline from a certain depth on. -/
theorem Sound.exists_datum (hs : h.Sound xs) (hends : ¬ h.Endless)
    (hv : ∀ y ∈ v.holds, (h.content? y).isSome) :
    ∃ d, h.datum? v = some d ∧ ∀ depth, h.depth ≤ depth → outline depth h v = d := by
  obtain ⟨d, hd⟩ := Option.isSome_iff_exists.1 (hs.datum?_isSome hends hv)
  exact ⟨d, hd, fun _ hle ↦ outline_of_datumWithin hd hle⟩

/-- What is seen as the same is written out as the same. -/
theorem Sound.datum?_congr {ys : List Hold} (hs : h.Sound xs) (hs' : h'.Sound ys)
    (hends : ¬ h.Endless) (hends' : ¬ h'.Endless) (hv : ∀ y ∈ v.holds, (h.content? y).isSome)
    (hw : ∀ y ∈ w.holds, (h'.content? y).isSome)
    (hsame : ∀ depth, outline depth h' w = outline depth h v) : h'.datum? w = h.datum? v := by
  obtain ⟨d, hd, hdv⟩ := hs.exists_datum hends hv
  obtain ⟨e, he, hew⟩ := hs'.exists_datum hends' hw
  rw [hd, he, ← hdv _ (Nat.le_max_left h.depth h'.depth), ← hew _ (Nat.le_max_right _ _), hsame]

/-- Handles that are seen as before have the contents that they had. -/
theorem Alike.contents? {ys : List Hold} (ha : h.Alike h') (hs : h.Sound xs) (hs' : h'.Sound ys)
    (hends : ¬ h.Endless) (hends' : ¬ h'.Endless) (hi : h.Born (.handle i))
    (hthere : (h'.content? (.handle i)).isSome) : h'.contents? i = h.contents? i := by
  obtain ⟨hold, hshape⟩ := ha _ hi hthere
  obtain ⟨b, v, -, hb, hv⟩ := hs.exists_value hold
  obtain ⟨b', w, -, hb', hw⟩ := hs'.exists_value hthere
  rw [Heap.contents?, Heap.contents?, hv, hw]
  refine hs.datum?_congr hs' hends hends' (hs.isSome_of_value hb) (hs'.isSome_of_value hb')
    fun depth ↦ ?_
  have hsame := hshape depth
  rw [shape, shape, hv, hw] at hsame
  exact (List.cons.inj hsame).1

/-- The elements of a list show certain data from a certain depth on, and containers with the list
are written out as these. -/
theorem Sound.exists_seen (hs : h.Sound xs) (hends : ¬ h.Endless) (hl : h.elements? l = some is) :
    ∃ ds, (∀ depth, h.depth ≤ depth → seen depth h is = ds) ∧
      h.datum? (.array l) = some (.array ds) ∧
      ∀ names, h.datum? (.struct names l) = some (.struct (names.zip ds) (ds.drop names.length)) := by
  have hthere {v : Value Obj} (hv : v.list? = some l) (y : Hold) (hy : y ∈ v.holds) :
      (h.content? y).isSome := by
    rw [holds_of_list? hv] at hy
    rw [List.mem_singleton.1 hy, content?_list.2 hl]
    rfl
  obtain ⟨d, hd, hdl⟩ := hs.exists_datum hends (hthere (v := .array l) rfl)
  refine ⟨seen h.depth h is, fun depth hle ↦ ?_, ?_, fun names ↦ ?_⟩
  · have hsame := (hdl (depth + 1) (by omega)).trans (hdl (h.depth + 1) (by omega)).symm
    rw [outline_array, outline_array, shape_list hl, shape_list hl] at hsame
    exact Datum.array.inj hsame
  · rw [hd, ← hdl (h.depth + 1) (by omega), outline_array, shape_list hl]
  · obtain ⟨e, he, hel⟩ := hs.exists_datum hends (hthere (v := .struct names l) rfl)
    rw [he, ← hel (h.depth + 1) (by omega), outline, items_eq hl]
    rfl

/-! ## Nobody outside -/

/-- The heap's own block holds nothing. -/
theorem Sound.holdsOf_own (hs : h.Sound xs) (hx : x ∈ h.ownHolds) : h.holdsOf x = [] := by
  obtain ⟨b, hb, rfl⟩ := List.mem_map.1 hx
  rw [holdsOf_block (hs.blank b (Option.mem_toList.1 hb))]
  rfl

/-- It is all that is left in a heap of which nobody holds anything. -/
theorem Sound.mem_ownHolds (hs : h.Sound []) (hends : ¬ h.Endless) (hx : (h.content? x).isSome) :
    x ∈ h.ownHolds := by
  obtain ⟨y, hreach, hout | hown⟩ := hs.exists_source hends hx
  · cases hout
  · have hstays {z : Hold} (hz : h.Reaches y z) : z = y := by
      induction hz with
      | here _ => rfl
      | next _ hw _ ih =>
        rw [ih, hs.holdsOf_own hown] at hw
        cases hw
    rw [hstays hreach]
    exact hown

/-- The blocks of a pool that are in use. -/
theorem mem_pointers_iff {name : PoolName} {p : Pool.Pointer} :
    p ∈ (h.pools.get name).pointers ↔ (h.content? (.block ⟨name, p⟩)).isSome := by
  rw [Pool.mem_pointers, content?, cell?, Option.isSome_map, Option.isSome_map, find?]

/-- The number of blocks that a pool has handed out then. -/
theorem Sound.used_eq (hs : h.Sound []) (hends : ¬ h.Endless) (name : PoolName) :
    (h.pools.get name).used = if name = .uninit ∧ h.blank.isSome then 1 else 0 := by
  have hown (x : Pool.Pointer) :
      x ∈ (h.pools.get name).pointers ↔ h.blank = some ⟨name, x⟩ := by
    rw [mem_pointers_iff]
    constructor
    · intro hthere
      obtain ⟨b, hb, he⟩ := List.mem_map.1 (hs.mem_ownHolds hends hthere)
      cases he
      exact Option.mem_toList.1 hb
    · intro hb
      exact isSome_of_valueAt? (hs.blank _ hb)
  rw [← Pool.length_pointers]
  split
  · rename_i hblank
    obtain ⟨rfl, hsome⟩ := hblank
    obtain ⟨b, hb⟩ := Option.isSome_iff_exists.1 hsome
    have hperm : (h.pools.get .uninit).pointers.Perm [b.pointer] := by
      refine (List.perm_ext_iff_of_nodup (Pool.nodup_pointers _) (List.nodup_singleton _)).2 ?_
      intro x
      rw [hown, hb, List.mem_singleton]
      have hpool := hs.blank_pool b hb
      constructor
      · intro he
        cases he
        rfl
      · rintro rfl
        rw [← hpool]
    exact hperm.length_eq
  · rename_i hblank
    rw [List.length_eq_zero_iff, List.eq_nil_iff_forall_not_mem]
    intro x hx
    have hb := (hown x).1 hx
    exact hblank ⟨hs.blank_pool _ hb, Option.isSome_iff_exists.2 ⟨_, hb⟩⟩

end ScriptHeap.Heap
