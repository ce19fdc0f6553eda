import ScriptHeap.Heap.Contents
import ScriptHeap.Proofs.Datum
import ScriptHeap.Proofs.Heap.Release

/-!
# What is seen in a heap

A value written out down to a depth is its *outline*.  Outlines exist in every heap, also when an
element contains itself; where a value can be written out in full, its outlines end up as that.
Two heaps show the same at a value when they agree on its form and elements match one by one, all
the way down; which lists and handles they are makes no difference.

## What is here

* `Heap.outline`, `Heap.shape` — values and cells written out down to a depth.
* `Heap.outline_of_datumWithin` — the outlines of a value that can be written out in full.
* `Heap.Matching`, `Heap.outline_eq_of_matching` — matching values have the same outlines.
* `Heap.Alike` — whatever is still there is seen as before.
-/

set_option autoImplicit false
namespace ScriptHeap.Heap

variable {Obj : Type}

/-! ## Outlines -/

/-- The value of a handle, no value if it is not there. -/
def shown (h : Heap Obj) (i : HandleId) : Value Obj :=
  (h.valueOf? i).getD .uninit

/-- What a reference shows; one that refers to nothing shows no value. -/
def shownBy (h : Heap Obj) (r : Option HandleId) : Value Obj :=
  (r.map h.shown).getD .uninit

/-- The elements in a list, none if it is not there. -/
def items (h : Heap Obj) (l : ListId) : List HandleId :=
  (h.elements? l).getD []

/-- A value written out down to a depth, with containers cut off behind it. -/
def outline : Nat → Heap Obj → Value Obj → Datum Obj
  | _, _, .scalar s => .scalar s
  | 0, _, .array _ => .array []
  | 0, _, .struct _ _ => .struct [] []
  | depth + 1, h, .array l => .array ((h.items l).map fun i ↦ outline depth h (h.shown i))
  | depth + 1, h, .struct names l =>
    let ds := (h.items l).map fun i ↦ outline depth h (h.shown i)
    .struct (names.zip ds) (ds.drop names.length)

@[simp] theorem outline_scalar (depth : Nat) (h : Heap Obj) (s : Scalar Obj) :
    outline depth h (.scalar s) = .scalar s := by
  cases depth <;> rfl

/-- What handles show down to a depth. -/
def seen (depth : Nat) (h : Heap Obj) (is : List HandleId) : List (Datum Obj) :=
  is.map fun i ↦ outline depth h (h.shown i)

/-- What is seen in a cell down to a depth. -/
def shape (depth : Nat) (h : Heap Obj) : Hold → List (Datum Obj)
  | .block b => ((h.valueAt? b).map (outline depth h)).toList
  | .handle i => ((h.valueOf? i).map (outline depth h)).toList
  | .list l => (h.items l).map fun i ↦ outline depth h (h.shown i)

theorem map_snd_zip_append_drop {α β : Type} (as : List α) (bs : List β) :
    (as.zip bs).map (·.2) ++ bs.drop as.length = bs := by
  induction as generalizing bs with
  | nil => rfl
  | cons a as ih =>
    cases bs with
    | nil => rfl
    | cons b bs => exact congrArg (b :: ·) (ih bs)

/-- The elements of the outline of a container are what is seen in its list. -/
theorem elements_outline {v : Value Obj} {l : ListId} (hl : v.list? = some l) (depth : Nat)
    (h : Heap Obj) : (outline (depth + 1) h v).elements = shape depth h (.list l) := by
  cases v with
  | scalar s => cases hl
  | array m =>
    cases hl
    rfl
  | struct names m =>
    cases hl
    exact map_snd_zip_append_drop names _

theorem outline_array (depth : Nat) (h : Heap Obj) (l : ListId) :
    outline (depth + 1) h (.array l) = .array (shape depth h (.list l)) :=
  rfl

/-- Values with a list are seen as the list is, one step less deep. -/
theorem outline_succ_of_list {h h' : Heap Obj} {v : Value Obj} {depth : Nat}
    (hv : ∀ l, v.list? = some l → shape depth h' (.list l) = shape depth h (.list l)) :
    outline (depth + 1) h' v = outline (depth + 1) h v := by
  cases v with
  | scalar s => rfl
  | array l =>
    have hl := hv l rfl
    rw [shape, shape] at hl
    rw [outline, outline, hl]
  | struct names l =>
    have hl := hv l rfl
    rw [shape, shape] at hl
    rw [outline, outline, hl]

theorem outline_of_list {h h' : Heap Obj} {v : Value Obj}
    (hv : ∀ l, v.list? = some l → ∀ depth, shape depth h' (.list l) = shape depth h (.list l))
    (depth : Nat) : outline depth h' v = outline depth h v := by
  cases depth with
  | zero => cases v <;> rfl
  | succ depth => exact outline_succ_of_list fun l hl ↦ hv l hl depth

/-! ## Values that can be written out in full -/

theorem mapM_eq_some_map {α β : Type} {f : α → Option β} {g : α → β} {as : List α} {bs : List β}
    (h : as.mapM f = some bs) (hg : ∀ a ∈ as, ∀ b, f a = some b → g a = b) : as.map g = bs := by
  induction as generalizing bs with
  | nil =>
    cases h
    rfl
  | cons a as ih =>
    rw [List.mapM_cons] at h
    obtain ⟨b, hb, h⟩ := Option.bind_eq_some_iff.1 h
    obtain ⟨cs, hcs, h⟩ := Option.bind_eq_some_iff.1 h
    cases h
    rw [List.map_cons, hg a List.mem_cons_self b hb,
      ih hcs fun c hc ↦ hg c (List.mem_cons_of_mem _ hc)]

/-- **A value that can be written out in full** has that as its outline at every further depth. -/
theorem outline_of_datumWithin {h : Heap Obj} {v : Value Obj} {d : Datum Obj} {depth more : Nat}
    (hd : datumWithin depth h v = some d) (hle : depth ≤ more) : outline more h v = d := by
  induction depth generalizing v d more with
  | zero =>
    cases v with
    | scalar s =>
      cases hd
      exact outline_scalar _ _ _
    | array l => cases hd
    | struct names l => cases hd
  | succ depth ih =>
    obtain ⟨more, rfl⟩ : ∃ m, more = m + 1 := ⟨more - 1, by omega⟩
    have hitems {is : List HandleId} {ds : List (Datum Obj)}
        (hds : (is.mapM fun i ↦ (h.valueOf? i).bind (datumWithin depth h)) = some ds) :
        (is.map fun i ↦ outline more h (h.shown i)) = ds := by
      refine mapM_eq_some_map hds fun i _ e he ↦ ?_
      obtain ⟨v, hv, hve⟩ := Option.bind_eq_some_iff.1 he
      rw [shown, hv, Option.getD_some]
      exact ih hve (Nat.le_of_succ_le_succ hle)
    cases v with
    | scalar s =>
      cases hd
      exact outline_scalar _ _ _
    | array l =>
      rw [datumWithin] at hd
      obtain ⟨is, his, hd⟩ := Option.bind_eq_some_iff.1 hd
      obtain ⟨ds, hds, hd⟩ := Option.bind_eq_some_iff.1 hd
      cases hd
      rw [outline, items, his, Option.getD_some, hitems hds]
    | struct names l =>
      rw [datumWithin] at hd
      obtain ⟨is, his, hd⟩ := Option.bind_eq_some_iff.1 hd
      obtain ⟨ds, hds, hd⟩ := Option.bind_eq_some_iff.1 hd
      cases hd
      rw [outline, items, his, Option.getD_some, hitems hds]

/-! ## Matching values -/

/-- Two values in two heaps have the same form, and their elements match one by one. -/
def Matching (h h' : Heap Obj) (R : Value Obj → Value Obj → Prop) (v w : Value Obj) : Prop :=
  ∃ m, w = v.withList m ∧ ∀ l, v.list? = some l →
    List.Forall₂ (fun i j ↦ R (h.shown i) (h'.shown j)) (h.items l) (h'.items m)

theorem map_eq_map_of_forall₂ {α β γ : Type} {R : α → β → Prop} {f : α → γ} {g : β → γ}
    (hR : ∀ a b, R a b → f a = g b) {as : List α} {bs : List β} (h : List.Forall₂ R as bs) :
    as.map f = bs.map g := by
  induction h with
  | nil => rfl
  | cons hab _ ih => rw [List.map_cons, List.map_cons, hR _ _ hab, ih]

/-- **Matching values have the same outlines**, when elements of matching values match again. -/
theorem outline_eq_of_matching {h h' : Heap Obj} {R : Value Obj → Value Obj → Prop}
    (hR : ∀ v w, R v w → Matching h h' R v w) (depth : Nat) {v w : Value Obj} (hvw : R v w) :
    outline depth h v = outline depth h' w := by
  induction depth generalizing v w with
  | zero =>
    obtain ⟨m, rfl, -⟩ := hR v w hvw
    cases v <;> rfl
  | succ depth ih =>
    obtain ⟨m, rfl, hitems⟩ := hR v w hvw
    have hds (l : ListId) (hl : v.list? = some l) :
        (h.items l).map (fun i ↦ outline depth h (h.shown i)) =
          (h'.items m).map fun j ↦ outline depth h' (h'.shown j) :=
      map_eq_map_of_forall₂ (fun _ _ hij ↦ ih hij) (hitems l hl)
    cases v with
    | scalar s => rfl
    | array l => rw [Value.withList, outline, outline, hds l rfl]
    | struct names l => rw [Value.withList, outline, outline, hds l rfl]

theorem forall₂_same {α : Type} {R : α → α → Prop} {as : List α} (h : ∀ a ∈ as, R a a) :
    List.Forall₂ R as as := by
  induction as with
  | nil => exact .nil
  | cons a as ih =>
    exact .cons (h a List.mem_cons_self) (ih fun b hb ↦ h b (List.mem_cons_of_mem _ hb))

theorem forall₂_imp_of_mem {α β : Type} {R S : α → β → Prop} {as : List α} {bs : List β}
    (hRS : ∀ a ∈ as, ∀ b, R a b → S a b) (h : List.Forall₂ R as bs) : List.Forall₂ S as bs := by
  induction h with
  | nil => exact .nil
  | cons hab _ ih =>
    exact .cons (hRS _ List.mem_cons_self _ hab)
      (ih fun a ha ↦ hRS a (List.mem_cons_of_mem _ ha))

theorem exists_of_forall₂ {α β : Type} {R : α → β → Prop} {as : List α} {bs : List β}
    (h : List.Forall₂ R as bs) {b : β} (hb : b ∈ bs) : ∃ a ∈ as, R a b := by
  induction h with
  | nil => exact absurd hb List.not_mem_nil
  | @cons a _ as _ hab _ ih =>
    rcases List.mem_cons.1 hb with rfl | hb
    · exact ⟨a, List.mem_cons_self, hab⟩
    · obtain ⟨a', ha', hR⟩ := ih hb
      exact ⟨a', List.mem_cons_of_mem _ ha', hR⟩

theorem withList_self (v : Value Obj) : ∃ l, v = v.withList l ∧ ∀ m, v.list? = some m → m = l := by
  cases v with
  | scalar s => exact ⟨⟨0⟩, rfl, fun _ h ↦ nomatch h⟩
  | array l => exact ⟨l, rfl, fun _ h ↦ (Option.some.inj h).symm⟩
  | struct names l => exact ⟨l, rfl, fun _ h ↦ (Option.some.inj h).symm⟩

theorem list?_withList {v : Value Obj} {l : ListId} (hl : v.list? = some l) (m : ListId) :
    (v.withList m).list? = some m := by
  cases v with
  | scalar s => cases hl
  | array l => rfl
  | struct names l => rfl

theorem holds_of_list? {v : Value Obj} {l : ListId} (hl : v.list? = some l) :
    v.holds = [.list l] := by
  cases v with
  | scalar s => cases hl
  | array m =>
    cases hl
    rfl
  | struct names m =>
    cases hl
    rfl

theorem list_mem_holds {v : Value Obj} {l : ListId} (hl : v.list? = some l) :
    Hold.list l ∈ v.holds := by
  rw [holds_of_list? hl]
  exact List.mem_singleton_self _

theorem list?_eq_of_holds {v w : Value Obj} (h : v.holds = w.holds) : v.list? = w.list? := by
  cases v <;> cases w <;> simp_all [Value.holds, Value.list?]

theorem list?_of_mem_holds {v : Value Obj} {l : ListId} (hl : Hold.list l ∈ v.holds) :
    v.list? = some l := by
  cases v <;> simp_all [Value.holds, Value.list?]

/-- The block with a value holds its list. -/
theorem list_mem_holdsOf {h : Heap Obj} {b : BlockId} {v : Value Obj} {l : ListId}
    (hb : h.valueAt? b = some v) (hl : v.list? = some l) : Hold.list l ∈ h.holdsOf (.block b) := by
  rw [holdsOf_block hb]
  exact list_mem_holds hl

/-- A value whose list is the same in both heaps matches itself when its elements do. -/
theorem Matching.of_same {h h' : Heap Obj} {R : Value Obj → Value Obj → Prop} {v : Value Obj}
    (hitems : ∀ l, v.list? = some l →
      h'.items l = h.items l ∧ ∀ i ∈ h.items l, R (h.shown i) (h'.shown i)) :
    Matching h h' R v v := by
  obtain ⟨m, hm, hlist⟩ := withList_self v
  refine ⟨m, hm, fun l hl ↦ ?_⟩
  obtain rfl := hlist l hl
  rw [(hitems l hl).1]
  exact forall₂_same (hitems l hl).2

/-! ## Cells that are seen as before -/

/-- Whatever is still there was there before and is seen as before. -/
def Alike (h h' : Heap Obj) : Prop :=
  ∀ x, h.Born x → (h'.content? x).isSome →
    (h.content? x).isSome ∧ ∀ depth, shape depth h' x = shape depth h x

theorem Alike.refl (h : Heap Obj) : h.Alike h :=
  fun _ _ hx ↦ ⟨hx, fun _ ↦ rfl⟩

theorem Alike.trans {h h' h'' : Heap Obj} (hborn : ∀ x, h.Born x → h'.Born x) (ha : h.Alike h')
    (ha' : h'.Alike h'') : h.Alike h'' := by
  intro x hx hk
  obtain ⟨hk', hshape'⟩ := ha' x (hborn x hx) hk
  obtain ⟨hk'', hshape⟩ := ha x hx hk'
  exact ⟨hk'', fun depth ↦ (hshape' depth).trans (hshape depth)⟩

section
variable {h h' : Heap Obj}

theorem shown_eq {i : HandleId} {v : Value Obj} (hv : h.valueOf? i = some v) : h.shown i = v := by
  rw [shown, hv, Option.getD_some]

theorem items_eq {l : ListId} {is : List HandleId} (hl : h.elements? l = some is) :
    h.items l = is := by
  rw [items, hl, Option.getD_some]

/-- A list holds whatever is seen in it. -/
theorem mem_holdsOf_of_mem_items {l : ListId} {i : HandleId} (hi : i ∈ h.items l) :
    Hold.handle i ∈ h.holdsOf (.list l) := by
  cases hl : h.elements? l with
  | none =>
    rw [items, hl] at hi
    cases hi
  | some is =>
    rw [items_eq hl] at hi
    exact handle_mem_holdsOf hl hi

/-- What is seen in a list is what its elements show. -/
theorem shape_list {l : ListId} {is : List HandleId} (hl : h.elements? l = some is)
    (depth : Nat) : shape depth h (.list l) = seen depth h is := by
  rw [shape, items_eq hl]
  rfl

theorem seen_append (depth : Nat) (h : Heap Obj) (is js : List HandleId) :
    seen depth h (is ++ js) = seen depth h is ++ seen depth h js :=
  List.map_append

/-- Cells are seen as before when their values match, element by element. -/
theorem Alike.of_matching {R : Value Obj → Value Obj → Prop}
    (hR : ∀ v w, R v w → Matching h h' R v w)
    (hblock : ∀ b, h.Born (.block b) → ∀ w, h'.valueAt? b = some w →
      ∃ v, h.valueAt? b = some v ∧ R v w)
    (hhandle : ∀ i, h.Born (.handle i) → ∀ b, h'.blockOf? i = some b →
      ∃ v w, h.valueOf? i = some v ∧ h'.valueOf? i = some w ∧ R v w)
    (hlist : ∀ l, h.Born (.list l) → ∀ is, h'.elements? l = some is →
      h.elements? l = some is ∧ ∀ i ∈ is, R (h.shown i) (h'.shown i)) : h.Alike h' := by
  intro x hx hk
  obtain ⟨k, hk⟩ := Option.isSome_iff_exists.1 hk
  rcases content?_sort hk with ⟨b, w, rfl, rfl, hw⟩ | ⟨i, b, rfl, rfl, hb⟩ | ⟨l, is, rfl, rfl, his⟩
  · obtain ⟨v, hv, hvw⟩ := hblock b hx w hw
    refine ⟨isSome_of_valueAt? hv, fun depth ↦ ?_⟩
    rw [shape, shape, hv, hw, Option.map_some, Option.map_some,
      outline_eq_of_matching hR depth hvw]
  · obtain ⟨v, w, hv, hw, hvw⟩ := hhandle i hx b hb
    obtain ⟨c, hc, -⟩ := Option.bind_eq_some_iff.1 hv
    refine ⟨isSome_of_blockOf? hc, fun depth ↦ ?_⟩
    rw [shape, shape, hv, hw, Option.map_some, Option.map_some,
      outline_eq_of_matching hR depth hvw]
  · obtain ⟨hl, hitems⟩ := hlist l hx is his
    refine ⟨isSome_of_elements? hl, fun depth ↦ ?_⟩
    rw [shape, shape, items_eq hl, items_eq his]
    exact List.map_congr_left fun i hi ↦ (outline_eq_of_matching hR depth (hitems i hi)).symm

variable {xs ys : List Hold}

/-- The handles of a sound heap show values. -/
theorem Sound.exists_valueOf? (hs : h.Sound xs) {i : HandleId} {b : BlockId}
    (hi : h.blockOf? i = some b) : ∃ v, h.valueAt? b = some v ∧ h.valueOf? i = some v := by
  have hthere := hs.isSome_of_mem_holdsOf (mem_holdsOf_of_blockOf? hi)
  obtain ⟨v, hv⟩ := exists_valueAt?_of_isSome hthere
  exact ⟨v, hv, by rw [valueOf?, hi, Option.bind_some, hv]⟩

/-- A handle that is there has a block with a value. -/
theorem Sound.exists_value (hs : h.Sound xs) {i : HandleId}
    (hi : (h.content? (.handle i)).isSome) :
    ∃ b v, h.blockOf? i = some b ∧ h.valueAt? b = some v ∧ h.valueOf? i = some v := by
  obtain ⟨b, hb⟩ := exists_blockOf?_of_isSome hi
  obtain ⟨v, hv, hiv⟩ := hs.exists_valueOf? hb
  exact ⟨b, v, hb, hv, hiv⟩

/-- The holds of a value that is there are there, too. -/
theorem Sound.isSome_of_value (hs : h.Sound xs) {b : BlockId} {v : Value Obj}
    (hb : h.valueAt? b = some v) : ∀ y ∈ v.holds, (h.content? y).isSome := by
  intro y hy
  refine hs.isSome_of_mem_holdsOf (y := .block b) ?_
  rwa [holdsOf_block hb]

/-- The elements of a list are there. -/
theorem Sound.isSome_of_element (hs : h.Sound xs) {l : ListId} {is : List HandleId}
    (hl : h.elements? l = some is) : ∀ i ∈ is, (h.content? (.handle i)).isSome := by
  intro i hi
  exact hs.isSome_of_mem_holdsOf (handle_mem_holdsOf hl hi)

/-- No handle stands at two places in one list. -/
theorem Sound.nodup_elements (hs : h.Sound xs) {l : ListId} {is : List HandleId}
    (hl : h.elements? l = some is) : is.Nodup := by
  refine List.nodup_iff_count_le_one.2 fun i ↦ ?_
  have huse := h.count_holdsOf_le_uses (.handle i) (.list l)
  rw [holdsOf_list hl, count_handleHolds] at huse
  exact huse.trans (hs.single i)

/-- A list that is there has elements, and they are there. -/
theorem Sound.exists_elements (hs : h.Sound xs) {l : ListId}
    (hl : (h.content? (.list l)).isSome) :
    ∃ is, h.elements? l = some is ∧ ∀ i ∈ is, (h.content? (.handle i)).isSome := by
  obtain ⟨is, his⟩ := exists_elements?_of_isSome hl
  exact ⟨is, his, hs.isSome_of_element his⟩

theorem Sound.born_of_mem (hs : h.Sound xs) {x : Hold} (hx : x ∈ xs) : h.Born x := by
  obtain ⟨k, hk⟩ := hs.exists_cell?_of_mem hx
  exact born_of_cell? hs.tidy hk

theorem Sound.born_of_isSome (hs : h.Sound xs) {x : Hold} (hx : (h.content? x).isSome) :
    h.Born x := by
  obtain ⟨k, hk⟩ := Option.isSome_iff_exists.1 hx
  exact born_of_content? hs.tidy hk

theorem Sound.born_of_mem_holdsOf (hs : h.Sound xs) {x y : Hold} (hx : x ∈ h.holdsOf y) :
    h.Born x := by
  obtain ⟨k, hk⟩ := hs.exists_cell?_of_mem_holdsOf hx
  exact born_of_cell? hs.tidy hk

/-- What was there and is still there. -/
def Lasting (h h' : Heap Obj) (x : Hold) : Prop :=
  h.Born x ∧ (h'.content? x).isSome

/-- What a lasting cell holds after a quiet change is lasting, too. -/
theorem Quiet.lasting (hq : h.Quiet h') (hs : h.Sound xs) (hs' : h'.Sound ys) {x y : Hold}
    (hx : h.Born x) (hy : y ∈ h'.holdsOf x) : h.Lasting h' y := by
  obtain ⟨k, hk, hmem⟩ := (mem_holdsOf y).1 hy
  have hy' : y ∈ h.holdsOf x := (mem_holdsOf y).2 ⟨k, hq.content x hx k hk, hmem⟩
  exact ⟨hs.born_of_mem_holdsOf hy', hs'.isSome_of_mem_holdsOf hy⟩

/-- **After a quiet change all is seen as before.** -/
theorem Quiet.alike (hq : h.Quiet h') (hs : h.Sound xs) (hs' : h'.Sound ys) : h.Alike h' := by
  have hvalue (i : HandleId) (hi : h.Born (.handle i)) (b : BlockId) (hb : h'.blockOf? i = some b) :
      ∃ v, h.valueOf? i = some v ∧ h'.valueOf? i = some v ∧ ∀ x ∈ v.holds, h.Lasting h' x := by
    obtain ⟨v, hv, hv'⟩ := hs'.exists_valueOf? hb
    have hblock := hq.content _ hi _ (content?_handle.2 hb)
    have hborn : h.Born (.block b) :=
      hs.born_of_mem_holdsOf (by rw [holdsOf_eq hblock]; exact List.mem_singleton_self _)
    have hold := content?_block.1 (hq.content _ hborn _ (content?_block.2 hv))
    refine ⟨v, by rw [valueOf?, content?_handle.1 hblock, Option.bind_some, hold], hv', ?_⟩
    exact fun x hx ↦ hq.lasting hs hs' hborn (by rw [holdsOf_block hv]; exact hx)
  have hitems (l : ListId) (hl : h.Born (.list l)) (is : List HandleId)
      (his : h'.elements? l = some is) : h.elements? l = some is ∧
        ∀ i ∈ is, h.shown i = h'.shown i ∧ ∀ x ∈ (h.shown i).holds, h.Lasting h' x := by
    refine ⟨content?_list.1 (hq.content _ hl _ (content?_list.2 his)), fun i hi ↦ ?_⟩
    obtain ⟨hborn, hpresent⟩ := hq.lasting hs hs' hl (handle_mem_holdsOf his hi)
    obtain ⟨b, hb⟩ := exists_blockOf?_of_isSome hpresent
    obtain ⟨v, hv, hv', hx⟩ := hvalue i hborn b hb
    rw [shown_eq hv, shown_eq hv']
    exact ⟨rfl, hx⟩
  refine Alike.of_matching (R := fun v w ↦ v = w ∧ ∀ x ∈ v.holds, h.Lasting h' x) ?_ ?_ ?_ hitems
  · rintro v _ ⟨rfl, hx⟩
    refine Matching.of_same fun l hl ↦ ?_
    obtain ⟨hborn, hpresent⟩ := hx (.list l) (list_mem_holds hl)
    obtain ⟨is, his⟩ := exists_elements?_of_isSome hpresent
    obtain ⟨hl, hi⟩ := hitems l hborn is his
    rw [items_eq hl, items_eq his]
    exact ⟨rfl, hi⟩
  · intro b hb w hw
    have hv := content?_block.1 (hq.content _ hb _ (content?_block.2 hw))
    refine ⟨w, hv, rfl, fun x hx ↦ hq.lasting hs hs' hb ?_⟩
    rwa [holdsOf_block hw]
  · intro i hi b hb
    obtain ⟨v, hv, hv', hx⟩ := hvalue i hi b hb
    exact ⟨v, v, hv, hv', rfl, hx⟩

/-! ## Other storage for the same contents -/

/-- Another block with the same value is not seen. -/
theorem Sound.alike_withBlock (hs : h.Sound xs) {i : HandleId} {c : BlockId} {v : Value Obj}
    (hi : h.valueOf? i = some v) (hc : h.valueAt? c = some v) : h.Alike (h.withBlock i c) := by
  obtain ⟨b, hb, hbv⟩ := Option.bind_eq_some_iff.1 hi
  obtain ⟨n, hcell⟩ := exists_cell?_of_content? (content?_handle.2 hb)
  have hvalue (j : HandleId) : (h.withBlock i c).valueOf? j = h.valueOf? j := by
    by_cases hj : j = i
    · subst hj
      rw [valueOf?, blockOf?_withBlock hcell, hi]
      exact hc
    · rw [valueOf?, valueOf?, blockOf?_withBlock_of_ne hcell c hj]
      rfl
  have hshown (j : HandleId) : h.shown j = (h.withBlock i c).shown j := by
    rw [shown, shown, hvalue]
  refine Alike.of_matching (R := Eq) ?_ (fun b _ w hw ↦ ⟨w, hw, rfl⟩) ?_
    fun l _ is his ↦ ⟨his, fun j _ ↦ hshown j⟩
  · rintro v _ rfl
    exact Matching.of_same fun l _ ↦ ⟨rfl, fun j _ ↦ hshown j⟩
  · intro j _ b' hb'
    obtain ⟨w, hw⟩ : ∃ w, h.valueOf? j = some w := by
      by_cases hj : j = i
      · exact ⟨v, hj ▸ hi⟩
      · rw [blockOf?_withBlock_of_ne hcell c hj] at hb'
        obtain ⟨w, -, hw⟩ := hs.exists_valueOf? hb'
        exact ⟨w, hw⟩
    exact ⟨w, w, hw, by rw [hvalue, hw], rfl⟩

/-- A value is the same, or has another list now. -/
def Relisted (v : Value Obj) (m : ListId) (x y : Value Obj) : Prop :=
  x = y ∨ x = v ∧ y = v.withList m

section
variable {b : BlockId} {v : Value Obj} {m : ListId}

/-- Handles of one block show the value in it, before and after it gets another list. -/
theorem relisted_valueOf? (hb : h.cell? (.block b) = some (1, .value v)) {i j : HandleId}
    {c : BlockId} (hi : h.blockOf? i = some c) (hj : h.blockOf? j = some c) {w : Value Obj}
    (hw : h.valueAt? c = some w) :
    ∃ w', h.valueOf? i = some w ∧ (h.withValue b (v.withList m)).valueOf? j = some w' ∧
      Relisted v m w w' := by
  have hj' : (h.withValue b (v.withList m)).blockOf? j = some c := hj
  rw [valueOf?, valueOf?, hi, hj', Option.bind_some, Option.bind_some]
  by_cases hc : c = b
  · subst hc
    obtain rfl := Option.some.inj ((content?_block.1 (content?_eq hb)).symm.trans hw)
    exact ⟨_, hw, valueAt?_withValue hb _, .inr ⟨rfl, rfl⟩⟩
  · exact ⟨w, hw, (valueAt?_withValue_of_ne hb _ hc).trans hw, .inl rfl⟩

theorem Sound.relisted_shown (hs : h.Sound xs) (hb : h.cell? (.block b) = some (1, .value v))
    {i j : HandleId} (hij : h.blockOf? i = h.blockOf? j) :
    Relisted v m (h.shown i) ((h.withValue b (v.withList m)).shown j) := by
  cases hi : h.blockOf? i with
  | none =>
    have hj : (h.withValue b (v.withList m)).blockOf? j = none := hij.symm.trans hi
    rw [shown, shown, valueOf?, valueOf?, hi, hj]
    exact .inl rfl
  | some c =>
    obtain ⟨w, hw, -⟩ := hs.exists_valueOf? hi
    obtain ⟨w', hiw, hjw, hww⟩ := relisted_valueOf? (m := m) hb hi (hij ▸ hi) hw
    rw [shown_eq hiw, shown_eq hjw]
    exact hww

/-- Another list with elements that share the blocks of the old ones is not seen. -/
theorem Sound.alike_withValue (hs : h.Sound xs) {l : ListId}
    (hb : h.cell? (.block b) = some (1, .value v)) (hl : v.list? = some l)
    (hitems : List.Forall₂ (fun i j ↦ h.blockOf? i = h.blockOf? j) (h.items l) (h.items m)) :
    h.Alike (h.withValue b (v.withList m)) := by
  refine Alike.of_matching (R := Relisted v m) ?_ ?_ ?_
    fun k _ is his ↦ ⟨his, fun j _ ↦ hs.relisted_shown hb rfl⟩
  · rintro x y (rfl | ⟨rfl, rfl⟩)
    · exact Matching.of_same fun k _ ↦ ⟨rfl, fun j _ ↦ hs.relisted_shown hb rfl⟩
    · refine ⟨m, rfl, fun k hk ↦ ?_⟩
      obtain rfl := Option.some.inj (hl.symm.trans hk)
      exact hitems.imp fun i j hij ↦ hs.relisted_shown hb hij
  · intro c _ w hw
    by_cases hc : c = b
    · subst hc
      obtain rfl := Option.some.inj ((valueAt?_withValue hb _).symm.trans hw)
      exact ⟨v, content?_block.1 (content?_eq hb), .inr ⟨rfl, rfl⟩⟩
    · exact ⟨w, (valueAt?_withValue_of_ne hb _ hc).symm.trans hw, .inl rfl⟩
  · intro i _ c hc
    obtain ⟨w, hw, -⟩ := hs.exists_valueOf? (i := i) (b := c) hc
    obtain ⟨w', hiw, hjw, hww⟩ := relisted_valueOf? (m := m) hb (i := i) (j := i) hc hc hw
    exact ⟨w, w', hiw, hjw, hww⟩

end

end

end ScriptHeap.Heap
