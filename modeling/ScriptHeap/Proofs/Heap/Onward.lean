import ScriptHeap.Proofs.Heap.Regular

/-!
# Heaps one after another

What is reached from a cell, and how a heap may follow on another: with nothing that is gone coming
back, with lists as they were, with nothing held less, or with nothing gone at all.

## What is here

* `Heap.Clear` — a cell is reached from another without passing certain handles.
* `Heap.shape_eq_of_clear` — what is seen from a cell depends on the cells that are reached.
* `Heap.Onward`, `Heap.Steady`, `Heap.Adds`, `Heap.Grows` — a heap that follows on another, each
  saying more than the one before.
-/

set_option autoImplicit false
namespace ScriptHeap

variable {Obj : Type}

namespace Heap

/-! ## Reaching cells -/

/-- A cell is reached from another, and no blocked handle is met on the way. -/
inductive Clear (h : Heap Obj) (blocked : HandleId → Prop) (x : Hold) : Hold → Prop where
  | here (hx : ∀ i, x = .handle i → ¬ blocked i) : Clear h blocked x x
  | next {y z : Hold} (hy : Clear h blocked x y) (hz : z ∈ h.holdsOf y)
      (hblocked : ∀ i, z = .handle i → ¬ blocked i) : Clear h blocked x z

/-- A cell is reached from another. -/
def Reaches (h : Heap Obj) (x y : Hold) : Prop :=
  h.Clear (fun _ ↦ False) x y

section
variable {h h' : Heap Obj} {blocked : HandleId → Prop} {x y : Hold}

theorem Clear.not_blocked (hc : h.Clear blocked x y) {i : HandleId} (hi : y = .handle i) :
    ¬ blocked i := by
  cases hc with
  | here hx => exact hx i hi
  | next _ _ hz => exact hz i hi

theorem Clear.reaches (hc : h.Clear blocked x y) : h.Reaches x y := by
  induction hc with
  | here => exact .here fun _ _ hf ↦ hf
  | next _ hz _ ih => exact .next ih hz fun _ _ hf ↦ hf

/-- Nothing gets in the way where no blocked handle is reached. -/
theorem Reaches.clear (hr : h.Reaches x y)
    (hblocked : ∀ i, blocked i → ¬ h.Reaches x (.handle i)) : h.Clear blocked x y := by
  induction hr with
  | here _ =>
    refine .here fun i hi hb ↦ hblocked i hb ?_
    rw [← hi]
    exact .here fun _ _ hf ↦ hf
  | next hy hz _ ih =>
    refine .next ih hz fun i hi hb ↦ hblocked i hb ?_
    rw [← hi]
    exact .next hy hz fun _ _ hf ↦ hf

theorem Clear.born {xs : List Hold} (hs : h.Sound xs) (hx : h.Born x) (hc : h.Clear blocked x y) :
    h.Born y := by
  cases hc with
  | here => exact hx
  | next _ hz _ => exact hs.born_of_mem_holdsOf hz

/-- The way stays clear when the cells on it stay as they are. -/
theorem Clear.congr (hkept : ∀ z, h.Clear blocked x z → h'.content? z = h.content? z)
    (hc : h.Clear blocked x y) : h'.Clear blocked x y := by
  induction hc with
  | here hx => exact .here hx
  | next hy hz hb ih =>
    refine .next ih ?_ hb
    rw [holdsOf, hkept _ hy]
    exact hz

end

/-! ## Seeing past the blocked handles -/

/-- What is seen in a handle shows what it is seen as in a list. -/
theorem outline_of_shape {h h' : Heap Obj} {depth : Nat} {i : HandleId}
    (hi : shape depth h' (.handle i) = shape depth h (.handle i)) :
    outline depth h' (h'.shown i) = outline depth h (h.shown i) := by
  rw [shape, shape] at hi
  rw [shown, shown]
  cases hv : h.valueOf? i with
  | none =>
    cases hv' : h'.valueOf? i with
    | none => exact (outline_scalar _ _ _).trans (outline_scalar _ _ _).symm
    | some w =>
      rw [hv, hv'] at hi
      cases hi
  | some v =>
    cases hv' : h'.valueOf? i with
    | none =>
      rw [hv, hv'] at hi
      cases hi
    | some w =>
      rw [hv, hv'] at hi
      exact (List.cons.inj hi).1

section
variable {h h' : Heap Obj} {blocked : HandleId → Prop} {x : Hold} {depth : Nat}

/-- A block on the way is seen as before when values are whose lists are on the way. -/
theorem shape_block_of_clear (hkept : ∀ y, h.Clear blocked x y → h'.content? y = h.content? y)
    (hvalue : ∀ v : Value Obj, (∀ l, v.list? = some l → h.Clear blocked x (.list l)) →
      outline depth h' v = outline depth h v) {b : BlockId} (hb : h.Clear blocked x (.block b)) :
    shape depth h' (.block b) = shape depth h (.block b) := by
  rw [shape, shape, valueAt?_congr (hkept _ hb)]
  cases hv : h.valueAt? b with
  | none => rfl
  | some v =>
    have hlists (l : ListId) (hl : v.list? = some l) : h.Clear blocked x (.list l) :=
      .next hb (list_mem_holdsOf hv hl) fun j he ↦ by cases he
    rw [Option.map_some, Option.map_some, hvalue v hlists]

/-- So is a handle on the way: its block is on the way, too. -/
theorem shape_handle_of_clear (hkept : ∀ y, h.Clear blocked x y → h'.content? y = h.content? y)
    (hvalue : ∀ v : Value Obj, (∀ l, v.list? = some l → h.Clear blocked x (.list l)) →
      outline depth h' v = outline depth h v) {i : HandleId} (hi : h.Clear blocked x (.handle i)) :
    shape depth h' (.handle i) = shape depth h (.handle i) := by
  rw [shape, shape, valueOf?, valueOf?, blockOf?_congr (hkept _ hi)]
  cases hblock : h.blockOf? i with
  | none => rfl
  | some b =>
    have hclear : h.Clear blocked x (.block b) :=
      .next hi (mem_holdsOf_of_blockOf? hblock) fun j he ↦ by cases he
    exact shape_block_of_clear hkept hvalue hclear

/-- So is a list on the way: its elements are on the way unless they are blocked. -/
theorem shape_list_of_clear (hkept : ∀ y, h.Clear blocked x y → h'.content? y = h.content? y)
    (hblocked : ∀ i, blocked i → h.Reaches x (.handle i) →
      shape depth h' (.handle i) = shape depth h (.handle i))
    (hvalue : ∀ v : Value Obj, (∀ l, v.list? = some l → h.Clear blocked x (.list l)) →
      outline depth h' v = outline depth h v) {l : ListId} (hl : h.Clear blocked x (.list l)) :
    shape depth h' (.list l) = shape depth h (.list l) := by
  rw [shape, shape, items, items, elements?_congr (hkept _ hl)]
  refine List.map_congr_left fun i hi ↦ outline_of_shape ?_
  have hmem : Hold.handle i ∈ h.holdsOf (.list l) := mem_holdsOf_of_mem_items hi
  by_cases hb : blocked i
  · exact hblocked i hb (.next hl.reaches hmem fun _ _ hf ↦ hf)
  · refine shape_handle_of_clear hkept hvalue (.next hl hmem fun j he ↦ ?_)
    cases he
    exact hb

/-- So is a value whose list is on the way.  The induction is on the depth: the elements of the
list are seen one step less deep. -/
theorem outline_eq_of_clear (hkept : ∀ y, h.Clear blocked x y → h'.content? y = h.content? y)
    (hblocked : ∀ i, blocked i → h.Reaches x (.handle i) →
      ∀ depth, shape depth h' (.handle i) = shape depth h (.handle i)) (depth : Nat) :
    ∀ v : Value Obj, (∀ l, v.list? = some l → h.Clear blocked x (.list l)) →
      outline depth h' v = outline depth h v := by
  induction depth with
  | zero =>
    intro v _
    cases v <;> rfl
  | succ depth ih =>
    intro v hv
    exact outline_succ_of_list fun l hl ↦
      shape_list_of_clear hkept (fun i hi hx ↦ hblocked i hi hx depth) ih (hv l hl)

/-- **What is seen from a cell** is the same in two heaps when the cells on the way are the same,
and the blocked handles at its end are seen as the same. -/
theorem shape_eq_of_clear (hkept : ∀ y, h.Clear blocked x y → h'.content? y = h.content? y)
    (hblocked : ∀ i, blocked i → h.Reaches x (.handle i) →
      ∀ depth, shape depth h' (.handle i) = shape depth h (.handle i)) (depth : Nat) :
    shape depth h' x = shape depth h x := by
  have hvalue := outline_eq_of_clear hkept hblocked depth
  cases x with
  | handle i =>
    by_cases hb : blocked i
    · exact hblocked i hb (.here fun _ _ hf ↦ hf) depth
    · refine shape_handle_of_clear hkept hvalue (.here fun j he ↦ ?_)
      cases he
      exact hb
  | list l =>
    exact shape_list_of_clear hkept (fun i hi hx ↦ hblocked i hi hx depth) hvalue
      (.here fun j he ↦ by cases he)
  | block b => exact shape_block_of_clear hkept hvalue (.here fun j he ↦ by cases he)

end

/-- Heaps with the same contents of cells show the same. -/
theorem alike_of_content {h h' : Heap Obj} (hkept : ∀ x, h'.content? x = h.content? x) :
    h.Alike h' := by
  intro x _ hx
  refine ⟨hkept x ▸ hx, fun depth ↦ ?_⟩
  exact shape_eq_of_clear (fun y (_ : h.Reaches x y) ↦ hkept y) (fun i hf ↦ hf.elim) depth

/-! ## Heaps one after another -/

/-- Names stay handed out, nothing that is gone comes back, and the heap keeps its own block. -/
structure Onward (h h' : Heap Obj) : Prop where
  born : ∀ x, h.Born x → h'.Born x
  gone : ∀ x, h.Born x → (h'.content? x).isSome → (h.content? x).isSome
  blank : ∀ b, h.blank = some b → h'.blank = some b

theorem Onward.refl (h : Heap Obj) : h.Onward h :=
  ⟨fun _ hx ↦ hx, fun _ _ hx ↦ hx, fun _ hb ↦ hb⟩

theorem Onward.trans {h h' h'' : Heap Obj} (ho : h.Onward h') (ho' : h'.Onward h'') :
    h.Onward h'' :=
  ⟨fun x hx ↦ ho'.born x (ho.born x hx),
    fun x hx hk ↦ ho.gone x hx (ho'.gone x (ho.born x hx) hk),
    fun b hb ↦ ho'.blank b (ho.blank b hb)⟩

theorem Quiet.onward {h h' : Heap Obj} (hq : h.Quiet h') : h.Onward h' where
  born := hq.born
  gone x hx hk := by
    obtain ⟨k, hk⟩ := Option.isSome_iff_exists.1 hk
    rw [hq.content x hx k hk]
    rfl
  blank := hq.blank

/-- Lists that are still there have the elements they had. -/
structure Steady (h h' : Heap Obj) : Prop extends h.Onward h' where
  lists : ∀ l is, h.Born (.list l) → h'.elements? l = some is → h.elements? l = some is

theorem Steady.refl (h : Heap Obj) : h.Steady h :=
  ⟨.refl h, fun _ _ _ his ↦ his⟩

theorem Steady.trans {h h' h'' : Heap Obj} (hs : h.Steady h') (hs' : h'.Steady h'') :
    h.Steady h'' :=
  ⟨hs.toOnward.trans hs'.toOnward,
    fun l is hl his ↦ hs.lists l is hl (hs'.lists l is (hs.born _ hl) his)⟩

theorem Quiet.steady {h h' : Heap Obj} (hq : h.Quiet h') : h.Steady h' :=
  ⟨hq.onward, fun l _ hl his ↦ content?_list.1 (hq.content (.list l) hl _ (content?_list.2 his))⟩

/-- Values go on matching as long as their lists are there. -/
theorem Steady.matched {h h' : Heap Obj} {v : Value Obj} (hs : h.Steady h') (ht : h.Tidy)
    (hm : h.Matched v) (hv : ∀ y ∈ v.holds, (h'.content? y).isSome) : h'.Matched v := by
  refine hm.of_lists fun l is hl his ↦ ?_
  obtain ⟨n, hn⟩ := exists_cell?_of_content? (content?_list.2 his)
  obtain ⟨is', his'⟩ := exists_elements?_of_isSome (hv (.list l) (list_mem_holds hl))
  rw [his', ← hs.lists l is' (born_of_cell? ht hn) his', his]

/-- After a quiet change all is as it was on the way from a cell that is still there: whatever is
held on this way does not go. -/
theorem Quiet.kept {h h' : Heap Obj} {blocked : HandleId → Prop} {xs ys : List Hold} {x y : Hold}
    (hq : h.Quiet h') (hs : h.Sound xs) (hs' : h'.Sound ys) (hx : h.Born x)
    (hthere : (h'.content? x).isSome) (hy : h.Clear blocked x y) :
    h'.content? y = h.content? y := by
  have hpresent : (h'.content? y).isSome := by
    induction hy with
    | here => exact hthere
    | @next y z hy hz _ ih =>
      obtain ⟨k, hk⟩ := Option.isSome_iff_exists.1 ih
      have hz' : z ∈ h'.holdsOf y := by
        rw [holdsOf_eq hk, ← holdsOf_eq (hq.content y (hy.born hs hx) k hk)]
        exact hz
      exact hs'.isSome_of_mem_holdsOf hz'
  obtain ⟨k, hk⟩ := Option.isSome_iff_exists.1 hpresent
  rw [hk, hq.content y (hy.born hs hx) k hk]

/-- What a handle shows after a quiet change, it showed before. -/
theorem Quiet.valueOf?_earlier {h h' : Heap Obj} {xs : List Hold} {i : HandleId} {v : Value Obj}
    (hq : h.Quiet h') (hs : h.Sound xs) (hi : h.Born (.handle i)) (hv : h'.valueOf? i = some v) :
    h.valueOf? i = some v := by
  obtain ⟨b, hb, hbv⟩ := Option.bind_eq_some_iff.1 hv
  have hblock := hq.content _ hi _ (content?_handle.2 hb)
  have hborn : h.Born (.block b) := by
    refine hs.born_of_mem_holdsOf (y := .handle i) ?_
    rw [holdsOf_eq hblock]
    exact List.mem_singleton_self _
  have hvalue := hq.content _ hborn _ (content?_block.2 hbv)
  rw [Heap.valueOf?, content?_handle.1 hblock, Option.bind_some, content?_block.1 hvalue]

/-- A handle that is still there after a quiet change shows what it showed. -/
theorem Quiet.valueOf? {h h' : Heap Obj} {xs ys : List Hold} {i : HandleId} {v : Value Obj}
    (hq : h.Quiet h') (hs : h.Sound xs) (hs' : h'.Sound ys) (hv : h.valueOf? i = some v)
    (hi : (h'.content? (.handle i)).isSome) : h'.valueOf? i = some v := by
  obtain ⟨b, hb, -⟩ := Option.bind_eq_some_iff.1 hv
  obtain ⟨_, w, -, -, hw⟩ := hs'.exists_value hi
  have hold := hq.valueOf?_earlier hs (born_of_content? hs.tidy (content?_handle.2 hb)) hw
  rw [hw, ← hold, hv]

/-- A change of a cell that is new is quiet. -/
theorem Quiet.changes_new {h h' h'' : Heap Obj} {x : Hold} {new : Option (Nat × Content Obj)}
    (hq : h.Quiet h') (hc : h'.Changes h'' x new) (hx : ¬ h.Born x) : h.Quiet h'' where
  born y hy := hc.born y (hq.born y hy)
  content y hy k hk := by
    have hyx : y ≠ x := fun he ↦ hx (he ▸ hy)
    rw [hc.content?_of_ne hyx] at hk
    exact hq.content y hy k hk
  blank b hb := hc.blank.trans (hq.blank b hb)

/-- A change of a cell that is there. -/
theorem Changes.onward {h h' : Heap Obj} {x : Hold} {new : Option (Nat × Content Obj)} {n : Nat}
    {k : Content Obj} (hc : h.Changes h' x new) (hx : h.cell? x = some (n, k)) : h.Onward h' where
  born := hc.born
  gone y hy hk := by
    by_cases hyx : y = x
    · rw [hyx, content?_eq hx]
      rfl
    · rwa [hc.content?_of_ne hyx] at hk
  blank _ hb := hc.blank.trans hb

/-- A change of anything but a list. -/
theorem Changes.steady {h h' : Heap Obj} {x : Hold} {new : Option (Nat × Content Obj)} {n : Nat}
    {k : Content Obj} (hc : h.Changes h' x new) (hx : h.cell? x = some (n, k))
    (hlist : ∀ l, x ≠ .list l) : h.Steady h' where
  toOnward := hc.onward hx
  lists l is _ his := by
    rwa [elements?_congr (hc.content?_of_ne (hlist l).symm)] at his

/-- Nothing that was there is changed, and nothing is held less. -/
structure Adds (h h' : Heap Obj) : Prop where
  quiet : h.Quiet h'
  le : ∀ x, h.count x ≤ h'.count x

/-- All that was there is as it was, and is held as often as before unless it is touched. -/
structure Grows (h h' : Heap Obj) (touched : Hold → Prop) : Prop extends h.Adds h' where
  content : ∀ x k, h.content? x = some k → h'.content? x = some k
  count : ∀ x, (h.content? x).isSome → ¬ touched x → h'.count x = h.count x

/-- A block without a value in it. -/
def Unset (h : Heap Obj) (x : Hold) : Prop :=
  h.content? x = some (.value .uninit)

theorem not_unset_list (h : Heap Obj) (l : ListId) : ¬ h.Unset (.list l) := by
  intro hu
  obtain ⟨is, he, -⟩ := exists_elements_of_content? hu
  cases he

section
variable {h h' h'' : Heap Obj} {touched touched' : Hold → Prop}

theorem Adds.refl (h : Heap Obj) : h.Adds h :=
  ⟨.refl h, fun _ ↦ Nat.le_refl _⟩

theorem Adds.trans (ha : h.Adds h') (ha' : h'.Adds h'') : h.Adds h'' :=
  ⟨ha.quiet.trans ha'.quiet, fun x ↦ (ha.le x).trans (ha'.le x)⟩

/-- What is there stays, and is as it was. -/
theorem Adds.content {xs : List Hold} {x : Hold} {k : Content Obj} (ha : h.Adds h')
    (hs : h.Sound xs) (hk : h.content? x = some k) : h'.content? x = some k := by
  obtain ⟨n, hn⟩ := exists_cell?_of_content? hk
  have hthere : (h.content? x).isSome := by
    rw [hk]
    rfl
  obtain ⟨k', hk'⟩ := exists_cell?_of_count ((hs.held x hthere).trans_le (ha.le x))
  have hsame := ha.quiet.content x (born_of_cell? hs.tidy hn) k' (content?_eq hk')
  obtain rfl := Option.some.inj (hk.symm.trans hsame)
  exact content?_eq hk'

theorem Adds.valueOf? {xs : List Hold} {i : HandleId} {v : Value Obj} (ha : h.Adds h')
    (hs : h.Sound xs) (hv : h.valueOf? i = some v) : h'.valueOf? i = some v := by
  obtain ⟨b, hb, hbv⟩ := Option.bind_eq_some_iff.1 hv
  have hb' := content?_handle.1 (ha.content hs (content?_handle.2 hb))
  have hbv' := content?_block.1 (ha.content hs (content?_block.2 hbv))
  rw [Heap.valueOf?, hb', Option.bind_some, hbv']

/-- A reference to what is there shows the same. -/
theorem Adds.shownBy {xs : List Hold} {r : Option HandleId} (ha : h.Adds h') (hs : h.Sound xs)
    (hr : ∀ i, r = some i → (h.content? (.handle i)).isSome) : h'.shownBy r = h.shownBy r := by
  cases r with
  | none => rfl
  | some i =>
    obtain ⟨_, v, -, -, hv⟩ := hs.exists_value (hr i rfl)
    rw [Heap.shownBy, Heap.shownBy, Option.map_some, Option.map_some, shown_eq hv,
      shown_eq (ha.valueOf? hs hv)]

/-- A value that is there is seen as before. -/
theorem Adds.outline {xs ys : List Hold} {v : Value Obj} (ha : h.Adds h') (hs : h.Sound xs)
    (hs' : h'.Sound ys) (hv : ∀ y ∈ v.holds, (h.content? y).isSome) (depth : Nat) :
    Heap.outline depth h' v = Heap.outline depth h v := by
  refine outline_of_list (fun l hl ↦ ?_) depth
  obtain ⟨k, hk⟩ := Option.isSome_iff_exists.1 (hv (.list l) (by simp [holds_of_list? hl]))
  refine ((ha.quiet.alike hs hs') _ (born_of_content? hs.tidy hk) ?_).2
  rw [ha.content hs hk]
  rfl

/-- Handles show what others showed whose blocks they have. -/
theorem Adds.seen {xs ys : List Hold} {is js : List HandleId} (ha : h.Adds h') (hs : h.Sound xs)
    (hs' : h'.Sound ys)
    (hjs : List.Forall₂ (fun i j ↦ ∃ b, h.blockOf? i = some b ∧ h'.blockOf? j = some b) is js)
    (depth : Nat) : Heap.seen depth h' js = Heap.seen depth h is := by
  refine (map_eq_map_of_forall₂ (fun i j ↦ ?_) hjs).symm
  rintro ⟨b, hi, hj⟩
  obtain ⟨v, hb, hv⟩ := hs.exists_valueOf? hi
  have hb' := content?_block.1 (ha.content hs (content?_block.2 hb))
  have hv' : h'.valueOf? j = some v := by
    rw [Heap.valueOf?, hj, Option.bind_some, hb']
  rw [shown_eq hv, shown_eq hv', ha.outline hs hs' (hs.isSome_of_value hb)]

/-- A hold taken in between is given back. -/
theorem Adds.giveBack {x : Hold} (ha : h.Adds h') (hx : h.count x < h'.count x)
    (hone : 1 < h'.count x) : h.Adds (h'.release [x]) := by
  obtain ⟨k, hk, hc⟩ := changes_release_one hone
  have hq : h'.Quiet (h'.release [x]) := hc.quiet fun _ nk hnk ↦ by
    cases hnk
    exact hk
  refine ⟨ha.quiet.trans hq, fun y ↦ ?_⟩
  have hy := ha.le y
  rw [hc.count]
  split
  · rename_i hyx
    rw [hyx]
    omega
  · exact hy

/-- A change of a cell that is new. -/
theorem Adds.changes_new {x : Hold} {n : Nat} {k : Content Obj} (ha : h.Adds h')
    (ht : h.Tidy) (hc : h'.Changes h'' x (some (n, k))) (hx : ¬ h.Born x) : h.Adds h'' where
  quiet := ha.quiet.changes_new hc hx
  le y := by
    rw [hc.count]
    split
    · rename_i hyx
      cases hcell : h.cell? y with
      | none => exact count_eq_zero hcell ▸ Nat.zero_le n
      | some nk => exact absurd (hyx ▸ born_of_cell? ht hcell) hx
    · exact ha.le y

theorem Grows.refl (h : Heap Obj) (touched : Hold → Prop) : h.Grows h touched :=
  ⟨.refl h, fun _ _ hk ↦ hk, fun _ _ _ ↦ rfl⟩

theorem Grows.mono (hg : h.Grows h' touched)
    (ht : ∀ x, (h.content? x).isSome → touched x → touched' x) : h.Grows h' touched' :=
  ⟨hg.toAdds, hg.content, fun x hx hn ↦ hg.count x hx fun hxt ↦ hn (ht x hx hxt)⟩

theorem Grows.isSome (hg : h.Grows h' touched) {x : Hold} (hx : (h.content? x).isSome) :
    (h'.content? x).isSome := by
  obtain ⟨k, hk⟩ := Option.isSome_iff_exists.1 hx
  rw [hg.content x k hk]
  rfl

theorem Grows.trans (hg : h.Grows h' touched) (hg' : h'.Grows h'' touched')
    (ht : ∀ x, (h.content? x).isSome → touched' x → touched x) : h.Grows h'' touched where
  toAdds := hg.toAdds.trans hg'.toAdds
  content x k hk := hg'.content x k (hg.content x k hk)
  count x hx hn := by
    rw [hg'.count x (hg.isSome hx) fun hxt ↦ hn (ht x hx hxt), hg.count x hx hn]

/-- What has no value in it later had none before. -/
theorem Grows.unset (hg : h.Grows h' touched) {x : Hold} (hx : (h.content? x).isSome)
    (hu : h'.Unset x) : h.Unset x := by
  obtain ⟨k, hk⟩ := Option.isSome_iff_exists.1 hx
  rw [Unset, hg.content x k hk] at hu
  rw [Unset, hk, hu]

theorem Grows.trans_unset (hg : h.Grows h' h.Unset) (hg' : h'.Grows h'' h'.Unset) :
    h.Grows h'' h.Unset :=
  hg.trans hg' fun _ hx hu ↦ hg.unset hx hu

theorem Grows.onward (hg : h.Grows h' touched) : h.Onward h' :=
  hg.quiet.onward

theorem Grows.valueAt? (hg : h.Grows h' touched) {b : BlockId} {v : Value Obj}
    (hv : h.valueAt? b = some v) : h'.valueAt? b = some v :=
  content?_block.1 (hg.content _ _ (content?_block.2 hv))

theorem Grows.blockOf? (hg : h.Grows h' touched) {i : HandleId} {b : BlockId}
    (hi : h.blockOf? i = some b) : h'.blockOf? i = some b :=
  content?_handle.1 (hg.content _ _ (content?_handle.2 hi))

theorem Grows.elements? (hg : h.Grows h' touched) {l : ListId} {is : List HandleId}
    (hl : h.elements? l = some is) : h'.elements? l = some is :=
  content?_list.1 (hg.content _ _ (content?_list.2 hl))

theorem Grows.valueOf? (hg : h.Grows h' touched) {i : HandleId} {v : Value Obj}
    (hi : h.valueOf? i = some v) : h'.valueOf? i = some v := by
  obtain ⟨b, hb, hv⟩ := Option.bind_eq_some_iff.1 hi
  rw [Heap.valueOf?, hg.blockOf? hb, Option.bind_some, hg.valueAt? hv]

/-- Values go on matching. -/
theorem Grows.matched {v : Value Obj} (hg : h.Grows h' touched) (hm : h.Matched v) : h'.Matched v :=
  hm.of_lists fun _ _ _ his ↦ hg.elements? his

theorem Grows.withBlank (hg : h.Grows h' touched) (hnone : h.blank = none)
    (blank : Option BlockId) : h.Grows { h' with blank := blank } touched := by
  refine ⟨⟨⟨hg.quiet.born, hg.quiet.content, fun b hb ↦ ?_⟩, hg.le⟩, hg.content, hg.count⟩
  rw [hnone] at hb
  cases hb

/-- A new cell. -/
theorem Changes.grows {x : Hold} {k : Content Obj} (hc : h.Changes h' x (some (1, k)))
    (ht : h.Tidy) (hx : ¬ h.Born x) : h.Grows h' fun _ ↦ False := by
  have hne (y : Hold) (k : Content Obj) (hk : h.content? y = some k) : y ≠ x := by
    intro he
    obtain ⟨n, hn⟩ := exists_cell?_of_content? hk
    exact hx (he ▸ born_of_cell? ht hn)
  refine ⟨(Adds.refl h).changes_new ht hc hx, fun y k hk ↦ ?_, fun y hy _ ↦ ?_⟩
  · rw [hc.content?_of_ne (hne y k hk)]
    exact hk
  · obtain ⟨k, hk⟩ := Option.isSome_iff_exists.1 hy
    rw [hc.count, if_neg (hne y k hk)]

theorem count_lt_retainOne {x : Hold} (hx : (h.content? x).isSome) :
    h.count x < (h.retainOne x).count x := by
  obtain ⟨k, hk⟩ := Option.isSome_iff_exists.1 hx
  obtain ⟨n, hn⟩ := exists_cell?_of_content? hk
  rw [(changes_retainOne hn).count, if_pos rfl, count_eq hn]
  exact Nat.lt_succ_self n

/-- One more hold. -/
theorem grows_retainOne {x : Hold} {n : Nat} {k : Content Obj} (hx : h.cell? x = some (n, k)) :
    h.Grows (h.retainOne x) (· = x) := by
  have hc := changes_retainOne hx
  refine ⟨⟨quiet_retainOne hx, fun y ↦ ?_⟩, fun y k' hk ↦ ?_, fun y _ hn ↦ ?_⟩
  · rw [hc.count]
    split
    · rename_i hyx
      rw [hyx, count_eq hx]
      exact Nat.le_succ n
    · exact Nat.le_refl _
  · rw [content?, hc.cell]
    split
    · rename_i hyx
      rw [hyx, content?_eq hx] at hk
      exact hk
    · exact hk
  · rw [hc.count, if_neg hn]

end

end Heap
end ScriptHeap
