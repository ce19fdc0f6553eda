import ScriptHeap.Proofs.Heap.Arrays
import ScriptHeap.Proofs.Heap.SortOrder
import ScriptHeap.Proofs.Heap.Walking

/-!
# Sorting arrays

To sort an array, block and list are made its variable's own and the elements are put in order
there.  Everything that others have, too, is as it was before.  The elements are read while the
variable is being written, which does not go well if the variable is one of them.

## What is here

* `Heap.KeepsBut` — nothing changes but one cell; `Heap.Sound.own_keeps` and
  `Heap.Sound.ownListIn_keeps` say this of block and list that are made a variable's own.
* `Heap.Parted` — an array that was made its variable's own, with what it had before.
* `Heap.Reordered` — the same array, sorted; `Heap.Sound.sort` says that this is what becomes of it,
  and when the variable is in the way.
-/

set_option autoImplicit false
namespace ScriptHeap

variable {Obj : Type}

/-- A cell that is changed to what it is. -/
theorem Table.modify_self {α : Type} {t : Table α} {i : Nat} {a : α} {f : α → α}
    (ha : t.get? i = some a) (hf : f a = a) : t.modify i f = t := by
  have hcell : t.cells[i]? = some (some a) := Option.join_eq_some_iff.1 ha
  refine congrArg Table.mk (Array.ext (Array.size_modify ..) fun j hj hj' ↦ ?_)
  rw [Array.getElem_modify]
  split
  · rename_i hij
    subst hij
    rw [Array.getElem?_eq_getElem hj'] at hcell
    rw [Option.some.inj hcell, Option.map_some, hf]
  · rfl

namespace Heap

variable {h h' g : Heap Obj} {xs ys : List Hold} {i : HandleId} {b : BlockId} {v : Value Obj}
  {l m : ListId} {is js : List HandleId}

theorem withElements_self (his : h.elements? l = some is) : h.withElements l is = h := by
  obtain ⟨c, hc, rfl⟩ := Option.map_eq_some_iff.1 his
  rw [withElements, Table.modify_self hc rfl]

/-! ## What is left as it is -/

/-- All cells that are there, but for one, stay as they are. -/
def KeepsBut (h h' : Heap Obj) (x : Hold) : Prop :=
  ∀ y k, y ≠ x → h.content? y = some k → h'.content? y = some k

theorem KeepsBut.refl (h : Heap Obj) (x : Hold) : h.KeepsBut h x :=
  fun _ _ _ hk ↦ hk

theorem KeepsBut.valueAt? {x : Hold} {c : BlockId} (hk : h.KeepsBut h' x) (hc : .block c ≠ x)
    (hv : h.valueAt? c = some v) : h'.valueAt? c = some v :=
  content?_block.1 (hk _ _ hc (content?_block.2 hv))

theorem KeepsBut.blockOf? {x : Hold} (hk : h.KeepsBut h' x) (hi : .handle i ≠ x)
    (hb : h.blockOf? i = some b) : h'.blockOf? i = some b :=
  content?_handle.1 (hk _ _ hi (content?_handle.2 hb))

variable [HostObject Obj]

/-- Making a block a variable's own changes nothing else; it is the one that was there, or a new
one. -/
theorem Sound.own_keeps (hs : h.Sound xs) (hi : .handle i ∈ xs) :
    Ends (own i) h
      (fun b g ↦ h.KeepsBut g (.handle i) ∧ (g = h ∨ ¬ h.Born (.block b))) fun _ _ ↦ True := by
  have ha := Scene.at_ofHeap hs (· = i)
  obtain ⟨b, v, hblock, hb, -⟩ := hs.exists_value (hs.isSome_of_mem hi)
  have hthere : (h.content? (.block b)).isSome :=
    isSome_of_valueAt? hb
  refine Ends.after (look_eq hblock) (Ends.after (isSole_eq b h) ?_)
  split
  · exact .pure ⟨.refl h _, .inl rfl⟩
  · rename_i hsole
    have hshared : 1 < h.count (.block b) := by
      have hpos := hs.held _ hthere
      have hne := mt (holders?_eq_some_iff hthere).2 fun he ↦ hsole (beq_iff_eq.2 he)
      omega
    refine Ends.after (look_eq hb) (Ends.bind (ha.copy (hs.isSome_of_value hb)).ends ?_)
    rintro w h₁ ⟨rfl, ha₁, hg₁⟩
    refine Ends.bind ((ha₁.allocate False.elim False.elim).mono (fun _ _ hh ↦ hh)
      fun _ _ _ ↦ trivial) ?_
    rintro fresh h₂ ⟨ha₂, hg₂, -, -, hnew, -⟩
    have hblock₂ := hg₂.blockOf? (hg₁.blockOf? hblock)
    obtain ⟨n, hn⟩ := exists_cell?_of_content? (content?_handle.2 hblock₂)
    have hchange := changes_withBlock hn fresh
    have hmore : 1 < (h₂.withBlock i fresh).count (.block b) := by
      have hle₁ := hg₁.le (.block b)
      have hle₂ := hg₂.le (.block b)
      rw [hchange.count, if_neg (by simp)]
      omega
    refine Ends.after (rebind_eq hblock₂) (.pure ⟨fun y k hy hk ↦ ?_,
      .inr fun hb ↦ hnew (hg₁.quiet.born _ hb)⟩)
    rw [content?_release_one hmore, hchange.content?_of_ne hy]
    exact hg₂.content y k (hg₁.content y k hk)

/-- A list that was shared and was copied for a block which none of its elements has. -/
structure CopiedList (h : Heap Obj) (b : BlockId) (l : ListId) (is : List HandleId) (m : ListId)
    (g : Heap Obj) : Prop where
  shared : h.count (.list l) ≠ 1
  new : ¬ h.Born (.list m)
  apart : ∀ e ∈ is, h.blockOf? e ≠ some b
  elements : ∃ js, g.elements? m = some js ∧
    List.Forall₂ (fun e j ↦ ∃ c, h.blockOf? e = some c ∧ g.blockOf? j = some c) is js

/-- A list that is shared is copied, and nothing else changes. -/
theorem Sound.ownListFor_keeps (hs : h.Sound xs) (hb : h.valueAt? b = some v)
    (hone : h.count (.block b) = 1) (his : h.elements? l = some is)
    (hshared : h.count (.list l) ≠ 1) :
    Ends (ownListFor b l) h
      (fun m g ↦ h.CopiedList b l is m g ∧ (∀ y k, h.content? y = some k → g.content? y = some k) ∧
        g.count (.block b) = 1) fun _ _ ↦ True := by
  have ha := Scene.at_ofHeap hs fun _ ↦ True
  have hthere : (h.content? (.list l)).isSome :=
    isSome_of_elements? his
  obtain ⟨cell, hcell, rfl⟩ := Option.map_eq_some_iff.1 his
  have hlist : h.cell? (.list l) = some (cell.holders, .elements cell.elements) :=
    congrArg (Option.map fun c : ElementList ↦ (c.holders, Content.elements c.elements)) hcell
  have hcount := count_eq hlist
  refine Ends.after (look_eq hcell) ?_
  rw [if_pos (hcount ▸ hshared)]
  refine Ends.bind ((Scene.ends_ensureApart h b cell.elements).mono (fun _ _ hh ↦ hh)
    fun _ _ _ ↦ trivial) ?_
  rintro _ h' ⟨hh', hapart⟩
  rw [hh']
  refine Ends.after (look_eq hcell) ?_
  rw [if_neg (hcount ▸ hshared)]
  refine Ends.bind (ha.duplicateAll (hs.isSome_of_element his)).ends ?_
  rintro js h₁ ⟨ha₁, hg₁, hjs, -⟩
  refine Ends.bind ha₁.newList.ends ?_
  rintro m h₂ ⟨ha₂, hg₂, hm, -, hnew⟩
  have hmore : 1 < h₂.count (.list l) := by
    have hpos := hs.held _ hthere
    have hle₁ := hg₁.le (.list l)
    have hle₂ := hg₂.le (.list l)
    omega
  have hsame := content?_release_one hmore
  have hblock : (h.content? (.block b)).isSome :=
    isSome_of_valueAt? hb
  refine Ends.after rfl (.pure ⟨⟨hshared, fun hb ↦ hnew (hg₁.quiet.born _ hb), hapart, js, ?_, ?_⟩,
    fun y k hk ↦ ?_, ?_⟩)
  · exact (elements?_congr (hsame _)).trans hm
  · refine hjs.imp fun e j ⟨c, he, hj⟩ ↦ ⟨c, he, ?_⟩
    exact (blockOf?_congr (hsame _)).trans (hg₂.blockOf? hj)
  · rw [hsame]
    exact hg₂.content y k (hg₁.content y k hk)
  · rw [count_release_one hmore, if_neg (by simp), hg₂.count _ (hg₁.isSome hblock) id,
      hg₁.count _ hblock ?_, hone]
    rintro ⟨e, he, c, hec, hbc⟩
    exact hapart e he (hec.trans (congrArg some (Hold.block.inj hbc).symm))

/-- Making a list a block's own changes nothing but the block, and that only if the list was
shared. -/
theorem Sound.ownListIn_keeps (hs : h.Sound xs) (hb : h.valueAt? b = some v)
    (hl : v.list? = some l) (hone : h.count (.block b) = 1) (his : h.elements? l = some is) :
    Ends (ownListIn b) h
      (fun r g ↦ h.KeepsBut g (.block b) ∧
        ∀ m, r = some m → m = l ∧ g = h ∨ h.CopiedList b l is m g) fun _ _ ↦ True := by
  by_cases hshared : h.count (.list l) = 1
  · refine .of_ok (ownListIn_eq hb hl hshared) ⟨.refl h _, fun m hm ↦ .inl ⟨?_, rfl⟩⟩
    exact (Option.some.inj hm).symm
  · refine Ends.after (look_eq hb) ?_
    simp only [hl]
    refine Ends.bind (hs.ownListFor_keeps hb hone his hshared) ?_
    rintro m h₁ ⟨hcopied, hsame, hone₁⟩
    obtain ⟨n, hn⟩ := exists_cell?_of_content? (hsame _ _ (content?_block.2 hb))
    rw [← count_eq hn, hone₁] at hn
    refine Ends.after (t := h₁.withValue b (v.withList m)) rfl
      (.pure ⟨fun y k hy hk ↦ ?_, fun r hr ↦ .inr ?_⟩)
    · rw [(changes_withValue hn _).content?_of_ne hy]
      exact hsame y k hk
    · obtain rfl := Option.some.inj hr
      exact ⟨hshared, hcopied.new, hcopied.apart, hcopied.elements⟩

omit [HostObject Obj] in
/-- The elements of a list that was copied read as those they were copied from. -/
theorem CopiedList.same (hcopied : h.CopiedList b l is m g) (hk : h.KeepsBut g (.block b))
    (hjs : g.elements? m = some js) :
    List.Forall₂ (fun e j ↦ ∀ w, h.valueOf? e = some w → g.valueOf? j = some w) is js := by
  obtain ⟨js', hjs', hall⟩ := hcopied.elements
  obtain rfl := Option.some.inj (hjs.symm.trans hjs')
  refine forall₂_imp_of_mem (fun e he j ⟨c, hec, hjc⟩ w hw ↦ ?_) hall
  rw [valueOf?, hec, Option.bind_some] at hw
  rw [valueOf?, hjc, Option.bind_some]
  refine hk.valueAt? ?_ hw
  rintro ⟨⟩
  exact hcopied.apart e he hec

/-- An array that was made its variable's own, to put its elements in another order: it has
elements with the values that they had, in the same order, and all that does not belong to it alone
is as it was. -/
structure Parted (h : Heap Obj) (i : HandleId) (l : ListId) (is : List HandleId) (b : BlockId)
    (m : ListId) (js : List HandleId) (g : Heap Obj) : Prop where
  alone : g.Alone i b (.array m) m js
  same : List.Forall₂ (fun e j ↦ ∃ w, h.valueOf? e = some w ∧ g.valueOf? j = some w) is js
  leaves : ∀ y k, y ≠ .handle i → y ≠ .block b → h.content? y = some k → g.content? y = some k
  kept : h.Owns i l → g = h
  block : h.blockOf? i = some b ∧ h.count (.block b) = 1 ∨ ¬ h.Born (.block b)
  list : h.Owns i l ∧ m = l ∨ ¬ h.Born (.list m)

end Heap

namespace Scene

variable [HostObject Obj] {h g : Heap Obj} {xs : List Hold} {hs : h.Sound xs} {i : HandleId}
  {b : BlockId} {l : ListId} {is : List HandleId}

/-- All variables read as before when the block of one of them was made its own. -/
theorem Opened.valueOf?_of_keeps {a w : Value Obj} {e : HandleId}
    (hopened : Opened hs i a [] [] b g) (hv : h.valueOf? i = some a)
    (hkeeps : h.KeepsBut g (.handle i)) (hw : h.valueOf? e = some w) :
    g.valueOf? e = some w := by
  by_cases he : e = i
  · obtain rfl := he
    obtain rfl := Option.some.inj (hv.symm.trans hw)
    exact Option.bind_eq_some_iff.2 ⟨b, hopened.block, hopened.owned.value⟩
  · obtain ⟨c, hc, hb⟩ := Option.bind_eq_some_iff.1 hw
    have hblock := hkeeps.blockOf? (by simpa using he) hc
    exact Option.bind_eq_some_iff.2 ⟨c, hblock, hkeeps.valueAt? (by simp) hb⟩

/-- The list of an array whose block is its own is made its own, too. -/
theorem Opened.parted (hopened : Opened hs i (.array l) [] [] b g)
    (hv : h.valueOf? i = some (.array l)) (his : h.elements? l = some is)
    (hkeeps : h.KeepsBut g (.handle i)) (hsame : g = h ∨ ¬ h.Born (.block b))
    (howns : h.Owns i l → g = h) :
    Ends (Heap.ownListIn b) g
      (fun r g' ↦ ∃ m js, r = some m ∧ Listed hs i (.array l) [] [] b m js g' ∧
        h.Parted i l is b m js g')
      fun _ _ ↦ True := by
  have hg : g.Sound xs := hopened.here.sound
  have hown := hopened.owned
  have hlist := hopened.elements his
  refine ((hopened.ownListIn rfl).and
    (hg.ownListIn_keeps hown.value rfl hown.sole hlist)).mono ?_ fun _ _ _ ↦ trivial
  rintro r g' ⟨⟨m, js, rfl, hl⟩, hkeeps', hcases⟩
  have hthere (e : HandleId) (he : e ∈ is) : ∃ w, h.valueOf? e = some w := by
    obtain ⟨-, w, -, -, hw⟩ := hs.exists_value (hs.isSome_of_element his e he)
    exact ⟨w, hw⟩
  refine ⟨m, js, rfl, hl, ⟨hl.alone, ?_, fun y k hy hyb hk ↦ hkeeps' y k hyb (hkeeps y k hy hk),
    fun ho ↦ ?_, hsame.imp_left ?_, ?_⟩⟩
  · rcases hcases m rfl with ⟨rfl, rfl⟩ | hcopied
    · obtain rfl := Option.some.inj (hlist.symm.trans hl.alone.elements)
      refine Heap.forall₂_same fun e he ↦ ?_
      obtain ⟨w, hw⟩ := hthere e he
      exact ⟨w, hw, hopened.valueOf?_of_keeps hv hkeeps hw⟩
    · refine Heap.forall₂_imp_of_mem (fun e he j hj ↦ ?_) (hcopied.same hkeeps' hl.alone.elements)
      obtain ⟨w, hw⟩ := hthere e he
      exact ⟨w, hw, hj w (hopened.valueOf?_of_keeps hv hkeeps hw)⟩
  · obtain rfl := howns ho
    rcases hcases m rfl with ⟨-, hg'⟩ | hcopied
    · exact hg'
    · obtain ⟨b', v', hi', -, hb', hl', hone⟩ := ho
      rw [Heap.valueOf?, hi', Option.bind_some, hb'] at hv
      cases hv
      exact (hcopied.shared hone).elim
  · rintro rfl
    exact ⟨hopened.block, hown.sole⟩
  · rcases hcases m rfl with ⟨rfl, rfl⟩ | hcopied
    · refine .inl ⟨?_, rfl⟩
      rcases hsame with rfl | hnew
      · exact hl.alone.owns
      · -- the block that the variable had before has the list, too
        obtain ⟨c, hc, hvc⟩ := Option.bind_eq_some_iff.1 hv
        have hheld := Heap.list_mem_holdsOf (hkeeps.valueAt? (by simp) hvc) rfl
        have hsole := hg.sole_holder (Heap.list_mem_holdsOf hown.value rfl) hl.alone.listSole
        cases hsole.2 _ hheld
        exact (hnew (Heap.born_of_content? hs.tidy (Heap.content?_block.2 hvc))).elim
    · exact .inr fun hb ↦ hcopied.new (hopened.steady.born _ hb)

/-- The same, and what it means if the variable is in the way. -/
theorem Opened.parted_or_busy (hopened : Opened hs i (.array l) [] [] b g)
    (hv : h.valueOf? i = some (.array l)) (his : h.elements? l = some is)
    (hkeeps : h.KeepsBut g (.handle i)) (hsame : g = h ∨ ¬ h.Born (.block b))
    (howns : h.Owns i l → g = h) :
    Ends (Heap.ownListIn b) g
      (fun r g' ↦ ∃ m js, r = some m ∧ Listed hs i (.array l) [] [] b m js g' ∧
        h.Parted i l is b m js g')
      fun f _ ↦ f = .busy → i ∈ is ∧ ¬ h.Owns i l := by
  have hparted := hopened.parted hv his hkeeps hsame howns
  by_cases ho : h.Owns i l
  · obtain ⟨b', v', -, -, -, -, hone⟩ := id ho
    have hrun := hopened.ownListIn_same rfl (howns ho ▸ hone)
    exact .of_ok hrun (hparted.get hrun)
  · refine (hparted.and (Heap.ends_ownListIn hopened.owned.value)).mono (fun _ _ hh ↦ hh.1)
      fun _ _ hf hbusy ↦ ⟨?_, ho⟩
    obtain ⟨_, is', ⟨⟩, his', e, he, heb⟩ := hf.2 hbusy
    obtain rfl := Option.some.inj ((hopened.elements his).symm.trans his')
    rwa [← hopened.here.eq_of_block hopened.block hopened.owned.sole heb]

end Scene

namespace Heap

variable [HostObject Obj] {h g g₁ : Heap Obj} {xs ys : List Hold} {i : HandleId} {b : BlockId}
  {l m : ListId} {is js : List HandleId}

/-! ## Sorting -/

/-- An array was made its variable's own, and then its elements were put in order. -/
structure Reordered (hs : h.Sound xs) (i : HandleId) (l : ListId) (is : List HandleId) (b : BlockId)
    (m : ListId) (js : List HandleId) (g₁ g : Heap Obj) : Prop where
  listed : Scene.Listed hs i (.array l) [] [] b m js g₁
  parted : h.Parted i l is b m js g₁
  apart : 1 < js.length → ∀ e ∈ js, g₁.blockOf? e ≠ some b
  sorted : g = g₁.withElements m (g₁.sorted js)

omit [HostObject Obj] in
/-- A variable is among the elements of its array only if it was there before. -/
theorem Parted.mem_of_mem (hp : h.Parted i l is b m js g) (hs : h.Sound xs)
    (his : h.elements? l = some is) (hmem : i ∈ js) : i ∈ is := by
  obtain ⟨e, he, w, hw, hi⟩ := exists_of_forall₂ hp.same hmem
  cases hp.alone.valueOf?.symm.trans hi
  obtain ⟨c, -, hc⟩ := Option.bind_eq_some_iff.1 hw
  have hthere := hs.isSome_of_value hc _ (List.mem_singleton_self _)
  obtain ⟨k, hk⟩ := Option.isSome_iff_exists.1 hthere
  rcases hp.list with ⟨ho, rfl⟩ | hnew
  · have hjs := hp.alone.elements
    rw [hp.kept ho, his] at hjs
    rwa [Option.some.inj hjs]
  · exact (hnew (born_of_content? hs.tidy hk)).elim

/-- **Sorting** makes an array its variable's own and puts its elements in order.  The variable is
being written meanwhile, so it cannot be among the elements if these have to be read. -/
theorem Sound.sort (hs : h.Sound xs) (hi : .handle i ∈ xs) (hv : h.valueOf? i = some (.array l))
    (his : h.elements? l = some is) :
    Ends (dispatch i .sort []) h
      (fun r g ↦ r = some (.ofBool true) ∧ ∃ b m js g₁, Reordered hs i l is b m js g₁ g)
      fun f _ ↦ f = .busy → i ∈ is ∧ (1 < is.length ∨ ¬ h.Owns i l) := by
  refine .congr (dispatch_array hv _ _) ?_
  have howns : h.Owns i l → Ends (own i) h (fun _ g ↦ g = h) fun _ _ ↦ True := fun ho ↦ by
    obtain ⟨b, hrun⟩ := ho.own
    exact .of_ok hrun rfl
  refine Ends.bind ((((Scene.At.opened hs hi hv).and (hs.own_keeps hi)).andIf howns).and
    ((prompt_own i).ends h _) |>.mono (fun _ _ hh ↦ hh.1) fun _ _ hf ↦ hf.2) ?_
  rintro b g ⟨⟨hopened, hkeeps, hsame⟩, howns⟩
  have hlist := hopened.elements his
  refine Ends.after (look_eq hopened.owned.value) (Ends.after (look_eq hlist) ?_)
  have hreorder : Ends (reorder b true sorted) g
      (fun r g ↦ r = .ofBool true ∧ ∃ b m js g₁, Reordered hs i l is b m js g₁ g)
      fun f _ ↦ f = .busy → i ∈ is ∧ (1 < is.length ∨ ¬ h.Owns i l) := by
    refine Ends.bind ((hopened.parted_or_busy hv his hkeeps hsame howns).mono
      (fun _ _ hh ↦ hh) fun _ _ hf hbusy ↦ (hf hbusy).imp_right .inr) ?_
    rintro _ g₁ ⟨m, js, rfl, hl, hp⟩
    refine Ends.after (look_eq hl.alone.elements) ?_
    by_cases hmany : 1 < js.length
    · rw [if_pos (by simpa using hmany)]
      refine Ends.bind ((Scene.ends_ensureApart g₁ b js).mono (fun _ _ hh ↦ hh) ?_) ?_
      · rintro _ _ ⟨-, -, e, he, heb⟩ -
        obtain rfl := hl.here.eq_of_block hl.alone.block hl.alone.sole heb
        exact ⟨hp.mem_of_mem hs his he, .inl (hp.same.length_eq ▸ hmany)⟩
      · rintro _ _ ⟨rfl, hapart⟩
        exact .of_ok rfl ⟨rfl, b, m, js, _, hl, hp, fun _ ↦ hapart, rfl⟩
    · rw [if_neg (by simpa using hmany)]
      exact .of_ok rfl ⟨rfl, b, m, js, g₁, hl, hp, fun hlt ↦ (hmany hlt).elim, rfl⟩
  exact hreorder.bind fun r g' ⟨hr, hreordered⟩ ↦ .pure ⟨congrArg some hr, hreordered⟩

end Heap
end ScriptHeap
