import ScriptHeap.Proofs.Heap.Ledger

/-!
# Giving up holds

When the last hold of a cell goes, the cell goes, and its own holds are given up in turn.  The depth
to which the heap follows them is enough for all of them: on the way from one handle to the next
there are one block and one list, and a handle that went does not come again.

## What is here

* `Heap.retain_of_retainOne`, `Heap.release_of_dropOne` — what is said of many holds when it can be
  said of one after the other.
* `Heap.SameNotes` — what a heap notes beside its cells has nothing to do with holds.
* `Heap.Quiet` — names stay handed out, and what is still there has the content it had.
* `Heap.Released`, `Heap.released_release` — giving up holds keeps a heap sound, nothing else
  changes, and nothing is used more.
* `Heap.returns_release` — to the pools it does nothing but give blocks back.
-/

set_option autoImplicit false
namespace ScriptHeap.Heap

variable {Obj : Type}

/-! ## One hold after the other -/

section
variable {R : Heap Obj → Heap Obj → Prop}

theorem retain_of_retainOne (hrefl : ∀ h, R h h)
    (htrans : ∀ {h t u : Heap Obj}, R h t → R t u → R h u)
    (hretain : ∀ (h : Heap Obj) x, R h (h.retainOne x)) (h : Heap Obj) (xs : List Hold) :
    R h (h.retain xs) :=
  List.foldlRecOn xs _ (hrefl h) fun t ht x _ ↦ htrans ht (hretain t x)

/-- What goes with a hold goes one thing after the other. -/
theorem releaseWithin_of_dropOne (hrefl : ∀ h, R h h)
    (htrans : ∀ {h t u : Heap Obj}, R h t → R t u → R h u)
    (hdrop : ∀ (h : Heap Obj) x, R h (h.dropOne x).2) (depth : Nat) (h : Heap Obj) (x : Hold) :
    R h (releaseWithin depth h x) := by
  induction depth generalizing h x with
  | zero => exact hrefl h
  | succ depth ih => exact List.foldlRecOn _ _ (hdrop h x) fun t ht y _ ↦ htrans ht (ih t y)

theorem release_of_dropOne (hrefl : ∀ h, R h h)
    (htrans : ∀ {h t u : Heap Obj}, R h t → R t u → R h u)
    (hdrop : ∀ (h : Heap Obj) x, R h (h.dropOne x).2) (h : Heap Obj) (xs : List Hold) :
    R h (h.release xs) :=
  List.foldlRecOn xs _ (hrefl h) fun t ht x _ ↦
    htrans ht (releaseWithin_of_dropOne hrefl htrans hdrop _ t x)

end

/-! ## Notes beside the cells -/

/-- The next handle has the same name, the heap has the same block of its own, and names have the
same numbers. -/
structure SameNotes (h t : Heap Obj) : Prop where
  next : t.handles.next = h.handles.next
  blank : t.blank = h.blank
  members : t.members = h.members

theorem SameNotes.refl (h : Heap Obj) : h.SameNotes h :=
  ⟨rfl, rfl, rfl⟩

theorem SameNotes.trans {h t u : Heap Obj} (hn : h.SameNotes t) (hn' : t.SameNotes u) :
    h.SameNotes u :=
  ⟨hn'.next.trans hn.next, hn'.blank.trans hn.blank, hn'.members.trans hn.members⟩

theorem sameNotes_retainOne (h : Heap Obj) (x : Hold) : h.SameNotes (h.retainOne x) := by
  cases x with
  | block b => exact ⟨rfl, rfl, rfl⟩
  | handle i => exact ⟨Table.next_modify _ _ _, rfl, rfl⟩
  | list l => exact ⟨rfl, rfl, rfl⟩

theorem sameNotes_dropOne (h : Heap Obj) (x : Hold) : h.SameNotes (h.dropOne x).2 := by
  cases x with
  | block b => exact ⟨rfl, rfl, rfl⟩
  | handle i =>
    rw [dropOne]
    split
    · split
      · exact ⟨Table.next_erase _ _, rfl, rfl⟩
      · exact ⟨Table.next_modify _ _ _, rfl, rfl⟩
    · exact .refl h
  | list l =>
    rw [dropOne]
    split
    · split
      · exact ⟨rfl, rfl, rfl⟩
      · exact ⟨rfl, rfl, rfl⟩
    · exact .refl h

theorem sameNotes_retain (h : Heap Obj) (xs : List Hold) : h.SameNotes (h.retain xs) :=
  retain_of_retainOne .refl .trans sameNotes_retainOne h xs

theorem sameNotes_release (h : Heap Obj) (xs : List Hold) : h.SameNotes (h.release xs) :=
  release_of_dropOne .refl .trans sameNotes_dropOne h xs

/-! ## Quiet changes -/

/-- What was there is still as it was, unless it is gone. -/
structure Quiet (h h' : Heap Obj) : Prop where
  born : ∀ x, h.Born x → h'.Born x
  content : ∀ x, h.Born x → ∀ k, h'.content? x = some k → h.content? x = some k
  blank : ∀ b, h.blank = some b → h'.blank = some b

theorem Quiet.refl (h : Heap Obj) : h.Quiet h :=
  ⟨fun _ hx ↦ hx, fun _ _ _ hk ↦ hk, fun _ hb ↦ hb⟩

theorem Quiet.trans {h h' h'' : Heap Obj} (hq : h.Quiet h') (hq' : h'.Quiet h'') : h.Quiet h'' :=
  ⟨fun x hx ↦ hq'.born x (hq.born x hx),
    fun x hx k hk ↦ hq.content x hx k (hq'.content x (hq.born x hx) k hk),
    fun b hb ↦ hq'.blank b (hq.blank b hb)⟩

/-- A cell that goes, is counted anew, or was not there before. -/
theorem Changes.quiet {h h' : Heap Obj} {x : Hold} {new : Option (Nat × Content Obj)}
    (hc : h.Changes h' x new)
    (hnew : h.Born x → ∀ nk, new = some nk → h.content? x = some nk.2) : h.Quiet h' where
  born := hc.born
  content y hy k hk := by
    rw [content?, hc.cell] at hk
    split at hk
    · rename_i hyx
      subst hyx
      obtain ⟨nk, hnk, rfl⟩ := Option.map_eq_some_iff.1 hk
      exact hnew hy nk hnk
    · exact hk
  blank _ hb := hc.blank.trans hb

theorem quiet_retainOne {h : Heap Obj} {x : Hold} {n : Nat} {k : Content Obj}
    (hx : h.cell? x = some (n, k)) : h.Quiet (h.retainOne x) := by
  refine (changes_retainOne hx).quiet fun _ nk hnk ↦ ?_
  cases hnk
  exact content?_eq hx

/-! ## How far holds are followed -/

/-- The number of handles that are there. -/
def live (h : Heap Obj) : Nat :=
  ((Finset.range h.handles.next).filter fun n ↦ (h.cell? (.handle ⟨n⟩)).isSome).card

theorem live_le_next (h : Heap Obj) : h.live ≤ h.handles.next :=
  (Finset.card_filter_le _ _).trans (Nat.le_of_eq (Finset.card_range _))

theorem live_pos {h : Heap Obj} {i : HandleId} {n : Nat} {k : Content Obj}
    (hi : h.cell? (.handle i) = some (n, k)) : 0 < h.live := by
  obtain ⟨c, hc, -⟩ := Option.map_eq_some_iff.1 hi
  refine Finset.card_pos.2 ⟨i.index, Finset.mem_filter.2 ⟨Finset.mem_range.2 ?_, ?_⟩⟩
  · exact Table.lt_next_of_get? hc
  · rw [hi]
    rfl

/-- No handle comes back. -/
theorem live_le_of_cell? {h h' : Heap Obj} (hnext : h'.handles.next = h.handles.next)
    (hcell : ∀ i, (h'.cell? (.handle i)).isSome → (h.cell? (.handle i)).isSome) :
    h'.live ≤ h.live := by
  rw [live, live, hnext]
  exact Finset.card_le_card (Finset.monotone_filter_right _ fun n _ hn ↦ hcell ⟨n⟩ hn)

/-- The last hold of a handle takes it away. -/
theorem live_lt_of_erased {h h' : Heap Obj} {i : HandleId} {n : Nat} {k : Content Obj}
    (hnext : h'.handles.next = h.handles.next) (hi : h.cell? (.handle i) = some (n, k))
    (hc : h.Changes h' (.handle i) none) : h'.live < h.live := by
  obtain ⟨c, hget, -⟩ := Option.map_eq_some_iff.1 hi
  have hsub : ((Finset.range h.handles.next).filter fun n ↦ (h'.cell? (.handle ⟨n⟩)).isSome) ⊆
      (Finset.range h.handles.next).filter fun n ↦ (h.cell? (.handle ⟨n⟩)).isSome := by
    refine Finset.monotone_filter_right _ fun n _ hn ↦ ?_
    rw [hc.cell] at hn
    split at hn
    · cases hn
    · exact hn
  rw [live, live, hnext]
  refine Finset.card_lt_card ((Finset.ssubset_iff_of_subset hsub).2 ⟨i.index, ?_, fun hmem ↦ ?_⟩)
  · refine Finset.mem_filter.2 ⟨Finset.mem_range.2 (Table.lt_next_of_get? hget), ?_⟩
    rw [hi]
    rfl
  · have hgone := (Finset.mem_filter.1 hmem).2
    rw [hc.cell, if_pos rfl] at hgone
    cases hgone

/-- How deep the holds of a cell are to be followed, for each handle that is there. -/
def followed (live : Nat) : Hold → Nat
  | .handle _ => 3 * live
  | .list _ => 3 * live + 1
  | .block _ => 3 * live + 2

/-! ## Releasing -/

/-- What giving up holds does to a heap. -/
structure Released (h h' : Heap Obj) (xs : List Hold) : Prop where
  sound : h'.Sound xs
  quiet : h.Quiet h'
  /-- Nothing is made. -/
  sub : ∀ x k, h'.content? x = some k → h.content? x = some k
  uses_le : ∀ x, h'.uses x ≤ h.uses x
  live_le : h'.live ≤ h.live
  blank : h'.blank = h.blank
  /-- Cells that hold each other stay. -/
  stays : ∀ cells : Hold → Prop, (∀ x, cells x → ∃ y, cells y ∧ x ∈ h.holdsOf y) →
    ∀ x, cells x → h'.content? x = h.content? x

theorem Released.trans {h h' h'' : Heap Obj} {xs ys : List Hold} (hr : h.Released h' xs)
    (hr' : h'.Released h'' ys) : h.Released h'' ys where
  sound := hr'.sound
  quiet := hr.quiet.trans hr'.quiet
  sub x k hk := hr.sub x k (hr'.sub x k hk)
  uses_le x := (hr'.uses_le x).trans (hr.uses_le x)
  live_le := hr'.live_le.trans hr.live_le
  blank := hr'.blank.trans hr.blank
  stays cells hheld x hx := by
    have hsame := hr.stays cells hheld
    refine (hr'.stays cells (fun x hx ↦ ?_) x hx).trans (hsame x hx)
    obtain ⟨y, hy, hxy⟩ := hheld x hx
    refine ⟨y, hy, ?_⟩
    rwa [holdsOf, hsame y hy]

theorem Released.refl {h : Heap Obj} {xs : List Hold} (hs : h.Sound xs) : h.Released h xs :=
  ⟨hs, .refl h, fun _ _ hk ↦ hk, fun _ ↦ Nat.le_refl _, Nat.le_refl _, rfl, fun _ _ _ _ ↦ rfl⟩

theorem live_le_of_changes {h h' : Heap Obj} {x : Hold} {new : Option (Nat × Content Obj)}
    (hnext : h'.handles.next = h.handles.next) (hc : h.Changes h' x new)
    (hnew : new.isSome → (h.cell? x).isSome) : h'.live ≤ h.live := by
  refine live_le_of_cell? hnext fun i hi ↦ ?_
  rw [hc.cell] at hi
  split at hi
  · rename_i hx
    rw [hx]
    exact hnew hi
  · exact hi

theorem uses_le_of_changes {h h' : Heap Obj} {x : Hold} {new : Option (Nat × Content Obj)}
    (hc : h.Changes h' x new) (hnew : ∀ y, (newHolds new).count y ≤ (h.holdsOf x).count y)
    (y : Hold) : h'.uses y ≤ h.uses y := by
  have h1 := hc.uses y
  have h2 := hnew y
  omega

/-- A hold of several given up: the heap shows all it showed. -/
theorem released_dropOne_of_lt {h : Heap Obj} {x : Hold} {xs : List Hold}
    (hs : h.Sound (x :: xs)) (hn : 1 < h.count x) :
    h.Released (h.dropOne x).2 ((h.dropOne x).1 ++ xs) := by
  obtain ⟨k, hx⟩ := hs.exists_cell?_of_mem List.mem_cons_self
  have hnext := (h.sameNotes_dropOne x).next
  obtain ⟨-, hc⟩ := changes_dropOne_of_lt hx hn
  have hsame (y : Hold) : (h.dropOne x).2.content? y = h.content? y := by
    rw [content?, hc.cell]
    split
    · rename_i hyx
      rw [hyx, content?_eq hx]
      rfl
    · rfl
  refine ⟨hs.dropOne, hc.quiet fun _ nk hnk ↦ ?_, fun y k' hk ↦ (hsame y).symm.trans hk,
    fun i ↦ uses_le_of_changes hc (fun y ↦ ?_) _,
    live_le_of_changes hnext hc fun _ ↦ by rw [hx]; rfl, hc.blank, fun _ _ y _ ↦ hsame y⟩
  · cases hnk
    exact content?_eq hx
  · rw [holdsOf_eq (content?_eq hx)]
    exact Nat.le_refl _

/-- The last hold given up, and its cell with it: every other cell stays as it is. -/
theorem released_dropOne_of_le {h : Heap Obj} {x : Hold} {xs : List Hold}
    (hs : h.Sound (x :: xs)) (hn : h.count x ≤ 1) :
    h.Released (h.dropOne x).2 ((h.dropOne x).1 ++ xs) := by
  obtain ⟨k, hx⟩ := hs.exists_cell?_of_mem List.mem_cons_self
  have hnext := (h.sameNotes_dropOne x).next
  obtain ⟨-, hc⟩ := changes_dropOne_of_le hx hn
  refine ⟨hs.dropOne, hc.quiet (by simp), fun y k' hk ↦ ?_,
    fun i ↦ uses_le_of_changes hc (fun y ↦ Nat.zero_le _) _,
    live_le_of_changes hnext hc (by simp), hc.blank, fun cells hheld y hy ↦ ?_⟩
  · rw [content?, hc.cell] at hk
    split at hk
    · cases hk
    · exact hk
  · -- what another cell holds has a hold more than the one that is given up
    refine hc.content?_of_ne ?_
    rintro rfl
    obtain ⟨z, -, hz⟩ := hheld y hy
    have hcounted := hs.counted y
    have hpos := (List.count_pos_iff.2 hz).trans_le (h.count_holdsOf_le_uses y z)
    rw [List.count_cons_self] at hcounted
    omega

/-- What the last hold gives up in its turn is followed one level less: a block gives up a list, a
handle gives up a block and is one handle less, and a list gives up handles. -/
theorem followed_dropOne {h : Heap Obj} {x y : Hold} {xs : List Hold} (hs : h.Sound (x :: xs))
    (hn : h.count x ≤ 1) (hy : y ∈ (h.dropOne x).1) :
    followed (h.dropOne x).2.live y + 1 ≤ followed h.live x := by
  obtain ⟨k, hx⟩ := hs.exists_cell?_of_mem List.mem_cons_self
  have hnext := (h.sameNotes_dropOne x).next
  obtain ⟨hfst, hc⟩ := changes_dropOne_of_le hx hn
  have hlive := live_le_of_changes hnext hc (by simp)
  rw [hfst] at hy
  rcases content?_sort (content?_eq hx) with ⟨b, v, rfl, rfl, -⟩ | ⟨i, b, rfl, rfl, -⟩ |
    ⟨l, is, rfl, rfl, -⟩
  · obtain ⟨l, rfl⟩ : ∃ l, y = .list l := by
      cases v with
      | scalar s => cases hy
      | array l => exact ⟨l, List.mem_singleton.1 hy⟩
      | struct ns l => exact ⟨l, List.mem_singleton.1 hy⟩
    simp only [followed]
    omega
  · obtain rfl := List.mem_singleton.1 hy
    have hlt := live_lt_of_erased hnext hx hc
    simp only [followed]
    omega
  · obtain ⟨i, -, rfl⟩ := List.mem_map.1 hy
    simp only [followed]
    omega

/-- One hold given up: those that are left are followed one level less. -/
theorem released_dropOne {h : Heap Obj} {x : Hold} {xs : List Hold} (hs : h.Sound (x :: xs)) :
    h.Released (h.dropOne x).2 ((h.dropOne x).1 ++ xs) ∧
      ∀ y ∈ (h.dropOne x).1, followed (h.dropOne x).2.live y + 1 ≤ followed h.live x := by
  rcases Nat.lt_or_ge 1 (h.count x) with hn | hn
  · obtain ⟨k, hx⟩ := hs.exists_cell?_of_mem List.mem_cons_self
    refine ⟨released_dropOne_of_lt hs hn, fun y hy ↦ ?_⟩
    rw [(changes_dropOne_of_lt hx hn).1] at hy
    cases hy
  · exact ⟨released_dropOne_of_le hs hn, fun y hy ↦ followed_dropOne hs hn hy⟩

theorem released_foldl {fuel : Nat}
    (ih : ∀ {h : Heap Obj} {x : Hold} {xs : List Hold}, h.Sound (x :: xs) →
      followed h.live x ≤ fuel → h.Released (releaseWithin fuel h x) xs)
    {h : Heap Obj} {ys xs : List Hold} (hs : h.Sound (ys ++ xs))
    (hfuel : ∀ y ∈ ys, followed h.live y ≤ fuel) :
    h.Released (ys.foldl (releaseWithin fuel) h) xs := by
  induction ys generalizing h with
  | nil => exact .refl hs
  | cons y ys ihys =>
    have hy := ih hs (hfuel y List.mem_cons_self)
    refine hy.trans (ihys hy.sound fun z hz ↦ ?_)
    have hle := hfuel z (List.mem_cons_of_mem _ hz)
    have hlive := hy.live_le
    cases z <;> simp only [followed] at hle ⊢ <;> omega

/-- Following far enough gives up all holds. -/
theorem released_releaseWithin {fuel : Nat} {h : Heap Obj} {x : Hold} {xs : List Hold}
    (hs : h.Sound (x :: xs)) (hfuel : followed h.live x ≤ fuel) :
    h.Released (releaseWithin fuel h x) xs := by
  induction fuel generalizing h x xs with
  | zero =>
    obtain ⟨k, hx⟩ := hs.exists_cell?_of_mem List.mem_cons_self
    cases x with
    | handle i =>
      have hpos := live_pos hx
      simp only [followed] at hfuel
      omega
    | list l => exact absurd hfuel (Nat.not_succ_le_zero _)
    | block b => exact absurd hfuel (Nat.not_succ_le_zero _)
  | succ fuel ih =>
    obtain ⟨hdrop, hless⟩ := released_dropOne hs
    refine hdrop.trans (released_foldl (fun hs hf ↦ ih hs hf) hdrop.sound fun y hy ↦ ?_)
    have hy := hless y hy
    omega

/-- **Giving up holds** from outside, with all that goes with them. -/
theorem released_release {h : Heap Obj} {ys xs : List Hold} (hs : h.Sound (ys ++ xs)) :
    h.Released (h.release ys) xs := by
  induction ys generalizing h with
  | nil => exact .refl hs
  | cons y ys ih =>
    have hfuel : followed h.live y ≤ 3 * h.depth := by
      have := h.live_le_next
      cases y <;> simp only [followed, depth] <;> omega
    have hy := released_releaseWithin hs hfuel
    exact hy.trans (ih hy.sound)

/-- Nothing is held more when holds are given up. -/
theorem Sound.count_release_le {h : Heap Obj} {ys xs : List Hold} (hs : h.Sound (ys ++ xs))
    (x : Hold) : (h.release ys).count x ≤ h.count x := by
  have hr := released_release hs
  have huses := hr.uses_le x
  have hold := hs.counted x
  have hnew := hr.sound.counted x
  rw [List.count_append] at hold
  omega

/-- One of several holds is given up. -/
theorem release_one {h : Heap Obj} {x : Hold} (hx : 1 < h.count x) :
    h.release [x] = (h.dropOne x).2 := by
  obtain ⟨k, hk⟩ := exists_cell?_of_count (Nat.lt_of_succ_lt hx)
  have hfst := (changes_dropOne_of_lt hk hx).1
  have hdepth : 3 * h.depth = 3 * h.handles.next + 2 + 1 := rfl
  show releaseWithin (3 * h.depth) h x = _
  rw [hdepth, releaseWithin]
  show (h.dropOne x).1.foldl _ _ = _
  rw [hfst]
  rfl

/-- Such a hold is the only thing that changes. -/
theorem changes_release_one {h : Heap Obj} {x : Hold} (hx : 1 < h.count x) :
    ∃ k, h.content? x = some k ∧ h.Changes (h.release [x]) x (some (h.count x - 1, k)) := by
  obtain ⟨k, hk⟩ := exists_cell?_of_count (Nat.lt_of_succ_lt hx)
  rw [release_one hx]
  exact ⟨k, content?_eq hk, (changes_dropOne_of_lt hk hx).2⟩

theorem count_release_one {h : Heap Obj} {x : Hold} (hx : 1 < h.count x) (y : Hold) :
    (h.release [x]).count y = if y = x then h.count x - 1 else h.count y := by
  obtain ⟨_, -, hc⟩ := changes_release_one hx
  exact hc.count y

theorem content?_release_one {h : Heap Obj} {x : Hold} (hx : 1 < h.count x) (y : Hold) :
    (h.release [x]).content? y = h.content? y := by
  obtain ⟨k, hk, hc⟩ := changes_release_one hx
  rw [content?, hc.cell]
  split
  · rename_i hyx
    rw [hyx, hk]
    rfl
  · rfl

/-! ## Blocks given back -/

/-- Blocks were given back to their pools, and nothing else was done with the pools. -/
def Returns (h h' : Heap Obj) : Prop :=
  ∀ name, (h.pools.get name).Returns (h'.pools.get name)

theorem Returns.of_pools {h h' : Heap Obj} (hpools : h'.pools = h.pools) : h.Returns h' :=
  fun name ↦ hpools ▸ .refl (h.pools.get name)

theorem returns_dropOne (h : Heap Obj) (x : Hold) : h.Returns (h.dropOne x).2 := by
  cases x with
  | block b =>
    intro name
    show (h.pools.get name).Returns ((h.pools.update b.pool fun p ↦ p.release b.pointer).2.get name)
    rw [Pools.get_update]
    split
    · rename_i hname
      exact hname ▸ Pool.returns_release _ _
    · exact .refl _
  | handle i =>
    refine .of_pools ?_
    unfold dropOne
    dsimp only
    split
    · split <;> rfl
    · rfl
  | list l =>
    refine .of_pools ?_
    unfold dropOne
    dsimp only
    split
    · split <;> rfl
    · rfl

/-- Giving up holds gives blocks back to the pools. -/
theorem returns_release (h : Heap Obj) (xs : List Hold) : h.Returns (h.release xs) :=
  release_of_dropOne (fun _ ↦ .of_pools rfl) (fun hr hr' name ↦ (hr name).trans (hr' name))
    returns_dropOne h xs

end ScriptHeap.Heap
