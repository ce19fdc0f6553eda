import ScriptHeap.Proofs.Heap.Cycles
import ScriptHeap.Proofs.Number.Double

/-!
# Script equality

Two values are compared by their forms, numbers as doubles, names up to case and elements one by
one, to any depth; an application object is asked for its own opinion, also when it stands on the
right.  So equality is symmetric as far as the objects agree with each other, and without objects it
is transitive.

## What is here

* `Scalar.equal_iff`, `sameNames_iff` — which scalars are equal, and which lists of names.
* `Heap.Inside` — being a part of a value, at any depth.
* `Heap.Paired`, `Heap.listsEqualBy_iff` — two lists are equal when they are one or their elements
  pair up.
* `Heap.equalBy_iff` — which values are equal when none is an object.
* `Heap.equalWithin_of_isSome` — a look that goes deeper than the values do finds the same.
* `Heap.equalWithin_symm`, `Heap.equalWithin_trans` — symmetry and transitivity.
* `Heap.Resembles`, `Heap.Resembles.equalWithin` — values with the same contents, and that equality
  is the same for them.
-/

set_option autoImplicit false
namespace ScriptHeap

variable {Obj : Type}

/-! ## Scalars -/

theorem HostPointer.same_iff {p q : HostPointer} :
    p.same q = true ↔ p.family.number = q.family.number ∧ p.pointee = q.pointee := by
  simp only [HostPointer.same, Bool.and_eq_true, beq_iff_eq]

namespace Scalar

/-- The number that a scalar is. -/
def number? : Scalar Obj → Option Double
  | .integer n => some (.ofInt32 n)
  | .double x => some x
  | _ => none

/-- Scalars that are equal: numbers that are so as doubles, and others of one sort. -/
inductive Equal : Scalar Obj → Scalar Obj → Prop where
  | uninit : Equal .uninit .uninit
  | number {s t : Scalar Obj} {x y : Double} (hx : s.number? = some x) (hy : t.number? = some y)
      (hxy : x.equal y = true) : Equal s t
  | string (s : String) : Equal (.string s) (.string s)
  | error (text : String) : Equal (.error text) (.error text)
  | pointer {p q : HostPointer} (hpq : p.same q = true) : Equal (.pointer p) (.pointer q)

variable {s t u : Scalar Obj}

/-- Integers are compared without a detour; it makes no difference, since they keep apart as
doubles. -/
theorem equal_iff : s.equal t = true ↔ s.Equal t := by
  constructor
  · intro h
    cases s with
    | uninit =>
      cases t with
      | uninit => exact .uninit
      | _ => cases h
    | integer a =>
      cases t with
      | integer b => exact .number rfl rfl (Double.ofInt32_equal_iff.2 (eq_of_beq h))
      | double y => exact .number rfl rfl h
      | _ => cases h
    | double x =>
      cases t with
      | integer b => exact .number rfl rfl h
      | double y => exact .number rfl rfl h
      | _ => cases h
    | string a =>
      cases t with
      | string b =>
        obtain rfl : a = b := eq_of_beq h
        exact .string a
      | _ => cases h
    | error a =>
      cases t with
      | error b =>
        obtain rfl : a = b := eq_of_beq h
        exact .error a
      | _ => cases h
    | pointer p =>
      cases t with
      | pointer q => exact .pointer h
      | _ => cases h
    | object o => cases t <;> cases h
  · intro h
    cases h with
    | uninit => rfl
    | number hx hy hxy =>
      cases s <;> cases hx <;> cases t <;> cases hy
      · exact beq_iff_eq.2 (Double.ofInt32_equal_iff.1 hxy)
      · exact hxy
      · exact hxy
      · exact hxy
    | string s => exact beq_self_eq_true s
    | error s => exact beq_self_eq_true s
    | pointer hpq => exact hpq

theorem Equal.symm (hst : s.Equal t) : t.Equal s := by
  cases hst with
  | uninit => exact .uninit
  | number hx hy hxy => exact .number hy hx (Double.equal_comm _ _ ▸ hxy)
  | string s => exact .string s
  | error s => exact .error s
  | pointer hpq =>
    obtain ⟨hfamily, hpointee⟩ := HostPointer.same_iff.1 hpq
    exact .pointer (HostPointer.same_iff.2 ⟨hfamily.symm, hpointee.symm⟩)

theorem Equal.trans (hst : s.Equal t) (htu : t.Equal u) : s.Equal u := by
  cases hst with
  | uninit => exact htu
  | number hx hy hxy =>
    cases htu with
    | number hy' hz hyz =>
      obtain rfl := Option.some.inj (hy.symm.trans hy')
      exact .number hx hz (Double.equal_trans hxy hyz)
    | _ => cases hy
  | string s => exact htu
  | error s => exact htu
  | pointer hpq =>
    cases htu with
    | number hx => cases hx
    | pointer hqr =>
      obtain ⟨hfamily, hpointee⟩ := HostPointer.same_iff.1 hpq
      obtain ⟨hfamily', hpointee'⟩ := HostPointer.same_iff.1 hqr
      exact .pointer (HostPointer.same_iff.2 ⟨hfamily.trans hfamily', hpointee.trans hpointee'⟩)

end Scalar

/-! ## Names -/

theorem sameNames_iff {ns ms : List String} :
    sameNames ns ms = true ↔ ns.map Text.folded = ms.map Text.folded := by
  rw [sameNames, Bool.and_eq_true, beq_iff_eq]
  induction ns generalizing ms with
  | nil => cases ms <;> simp
  | cons n ns ih =>
    cases ms with
    | nil => simp
    | cons m ms =>
      rw [List.zip_cons_cons, List.all_cons, Bool.and_eq_true, Text.sameName_iff, List.map_cons,
        List.map_cons, List.cons.injEq, ← ih, List.length_cons, List.length_cons,
        Nat.add_right_cancel_iff]
      exact and_left_comm

namespace Heap

variable {h : Heap Obj}

/-! ## Parts of a value -/

/-- An element in the list has the value. -/
def HasElement (h : Heap Obj) (l : ListId) (v : Value Obj) : Prop :=
  ∃ is, h.elements? l = some is ∧ ∃ i ∈ is, h.valueOf? i = some v

/-- The first value is the second, or stands inside it at any depth. -/
inductive Inside (h : Heap Obj) (u : Value Obj) : Value Obj → Prop where
  | here : Inside h u u
  | element {v w : Value Obj} {l : ListId} (hl : v.list? = some l) (hw : h.HasElement l w)
      (hu : Inside h u w) : Inside h u v

/-- The elements of a list in one heap pair up with those of a list in another, which may be the
same heap. -/
def Paired (h h' : Heap Obj) (R : Value Obj → Value Obj → Prop) (l m : ListId) : Prop :=
  ∃ is js, h.elements? l = some is ∧ h'.elements? m = some js ∧
    List.Forall₂ (fun i j ↦ ∃ v w, h.valueOf? i = some v ∧ h'.valueOf? j = some w ∧ R v w) is js

namespace Paired

variable {h' h'' : Heap Obj} {R S T : Value Obj → Value Obj → Prop} {l m k : ListId}

theorem imp (hpaired : h.Paired h' R l m)
    (hRS : ∀ v w, h.HasElement l v → h'.HasElement m w → R v w → S v w) : h.Paired h' S l m := by
  obtain ⟨is, js, his, hjs, hall⟩ := hpaired
  refine ⟨is, js, his, hjs, ?_⟩
  rw [List.forall₂_iff_get] at hall ⊢
  obtain ⟨hlength, hall⟩ := hall
  refine ⟨hlength, fun n hn hn' ↦ ?_⟩
  obtain ⟨v, w, hv, hw, hvw⟩ := hall n hn hn'
  exact ⟨v, w, hv, hw, hRS v w ⟨is, his, _, List.get_mem is _, hv⟩
    ⟨js, hjs, _, List.get_mem js _, hw⟩ hvw⟩

theorem flip (hpaired : h.Paired h' R l m) : h'.Paired h (fun v w ↦ R w v) m l := by
  obtain ⟨is, js, his, hjs, hall⟩ := hpaired
  refine ⟨js, is, hjs, his, hall.flip.imp ?_⟩
  exact fun _ _ ⟨v, w, hv, hw, hvw⟩ ↦ ⟨w, v, hw, hv, hvw⟩

theorem trans (hlm : h.Paired h' R l m) (hmk : h'.Paired h'' S m k)
    (hRST : ∀ u v w, h.HasElement l u → h'.HasElement m v → h''.HasElement k w →
      R u v → S v w → T u w) : h.Paired h'' T l k := by
  obtain ⟨is, js, his, hjs, hall⟩ := hlm
  obtain ⟨js', ks, hjs', hks, hall'⟩ := hmk
  obtain rfl := Option.some.inj (hjs.symm.trans hjs')
  refine ⟨is, ks, his, hks, ?_⟩
  rw [List.forall₂_iff_get] at hall hall' ⊢
  obtain ⟨hlength, hall⟩ := hall
  obtain ⟨hlength', hall'⟩ := hall'
  refine ⟨hlength.trans hlength', fun n hn hn' ↦ ?_⟩
  obtain ⟨u, v, hu, hv, huv⟩ := hall n hn (hlength ▸ hn)
  obtain ⟨v', w, hv', hw, hvw⟩ := hall' n (hlength ▸ hn) hn'
  obtain rfl := Option.some.inj (hv.symm.trans hv')
  exact ⟨u, w, hu, hw, hRST u v w ⟨is, his, _, List.get_mem is _, hu⟩
    ⟨js, hjs, _, List.get_mem js _, hv⟩ ⟨ks, hks, _, List.get_mem ks _, hw⟩ huv hvw⟩

/-- A list whose elements are there pairs up with itself. -/
theorem self {is : List HandleId} (his : h.elements? l = some is)
    (hall : ∀ i ∈ is, ∃ v, h.valueOf? i = some v ∧ R v v) : h.Paired h R l l := by
  refine ⟨is, is, his, his, forall₂_same fun i hi ↦ ?_⟩
  obtain ⟨v, hv, hR⟩ := hall i hi
  exact ⟨v, v, hv, hv, hR⟩

end Paired

/-- Two lists are equal when they are one or their elements pair up. -/
theorem listsEqualBy_iff {values : Value Obj → Value Obj → Bool} {l m : ListId} :
    h.listsEqualBy values l m = true ↔ l = m ∨ h.Paired h (values · · = true) l m := by
  rw [listsEqualBy, Bool.or_eq_true, beq_iff_eq]
  refine or_congr_right ?_
  rw [Paired]
  cases h.elements? l with
  | none => simp
  | some is =>
    cases h.elements? m with
    | none => simp
    | some js =>
      simp only [Bool.and_eq_true, beq_iff_eq, Option.some.injEq, exists_and_left,
        exists_eq_left', List.forall₂_iff_zip, List.all_eq_true, Prod.forall]
      refine and_congr_right fun _ ↦ forall₂_congr fun i j ↦ imp_congr_right fun _ ↦ ?_
      cases h.valueOf? i <;> cases h.valueOf? j <;> simp

/-! ## Values -/

section
variable [HostObject Obj] {lists lists' : ListId → ListId → Bool} {v w u : Value Obj}

/-- Values that are equal without an object's say. -/
inductive EqualBy (lists : ListId → ListId → Prop) : Value Obj → Value Obj → Prop where
  | scalar {s t : Scalar Obj} (hst : s.Equal t) : EqualBy lists (.scalar s) (.scalar t)
  | array {l m : ListId} (hlm : lists l m) : EqualBy lists (.array l) (.array m)
  | struct {ns ms : List String} {l m : ListId} (hnames : ns.map Text.folded = ms.map Text.folded)
      (hlm : lists l m) : EqualBy lists (.struct ns l) (.struct ms m)

/-- An object on the right is asked when there is none on the left. -/
theorem equalBy_object_right (lists : ListId → ListId → Bool) (hv : ∀ o, v ≠ .object o)
    (p : HostValue Obj) : equalBy lists v (.object p) = HostObject.isEqual p.object v := by
  cases v with
  | scalar s =>
    cases s with
    | object o => exact absurd rfl (hv o)
    | _ => rfl
  | array l => rfl
  | struct ns l => rfl

theorem equalBy_iff (hv : ∀ o, v ≠ .object o) (hw : ∀ o, w ≠ .object o) :
    equalBy lists v w = true ↔ EqualBy (lists · · = true) v w := by
  constructor
  · intro h
    cases v with
    | scalar s =>
      cases w with
      | scalar t =>
        refine .scalar (Scalar.equal_iff.1 ?_)
        cases s with
        | object o => exact absurd rfl (hv o)
        | _ =>
          cases t with
          | object o => exact absurd rfl (hw o)
          | _ => exact h
      | _ =>
        cases s with
        | object o => exact absurd rfl (hv o)
        | _ => cases h
    | array l =>
      cases w with
      | scalar t =>
        cases t with
        | object o => exact absurd rfl (hw o)
        | _ => cases h
      | array m => exact .array h
      | struct ms m => cases h
    | struct ns l =>
      cases w with
      | scalar t =>
        cases t with
        | object o => exact absurd rfl (hw o)
        | _ => cases h
      | array m => cases h
      | struct ms m =>
        obtain ⟨hnames, hlm⟩ := Bool.and_eq_true_iff.1 h
        exact .struct (sameNames_iff.1 hnames) hlm
  · intro h
    cases h with
    | @scalar s t hst =>
      have hequal := Scalar.equal_iff.2 hst
      cases s with
      | object o => exact absurd rfl (hv o)
      | _ =>
        cases t with
        | object o => exact absurd rfl (hw o)
        | _ => exact hequal
    | array hlm => exact hlm
    | struct hnames hlm => exact Bool.and_eq_true_iff.2 ⟨sameNames_iff.2 hnames, hlm⟩

/-! ## Symmetry -/

/-- Which of two objects is asked makes no difference where they agree. -/
theorem equalBy_symm
    (hobjects : ∀ o p, v = .object o → w = .object p →
      HostObject.isEqual o.object w = HostObject.isEqual p.object v)
    (hlists : ∀ l m, v.list? = some l → w.list? = some m → lists l m = true → lists' m l = true)
    (hvw : equalBy lists v w = true) : equalBy lists' w v = true := by
  by_cases hv : ∃ o, v = .object o
  · obtain ⟨o, rfl⟩ := hv
    by_cases hw : ∃ p, w = .object p
    · obtain ⟨p, rfl⟩ := hw
      exact (hobjects o p rfl rfl).symm.trans hvw
    · rw [equalBy_object_right _ (not_exists.1 hw)]
      exact hvw
  · by_cases hw : ∃ p, w = .object p
    · obtain ⟨p, rfl⟩ := hw
      rw [equalBy_object_right _ (not_exists.1 hv)] at hvw
      exact hvw
    · refine (equalBy_iff (not_exists.1 hw) (not_exists.1 hv)).2 ?_
      cases (equalBy_iff (not_exists.1 hv) (not_exists.1 hw)).1 hvw with
      | scalar hst => exact .scalar hst.symm
      | array hlm => exact .array (hlists _ _ rfl rfl hlm)
      | struct hnames hlm => exact .struct hnames.symm (hlists _ _ rfl rfl hlm)

/-- Objects inside the one value agree with those inside the other. -/
def ObjectsAgree (h : Heap Obj) (v w : Value Obj) : Prop :=
  ∀ o p, h.Inside (.object o) v → h.Inside (.object p) w →
    HostObject.isEqual o.object (.object p) = HostObject.isEqual p.object (.object o)

theorem ObjectsAgree.symm (hagree : h.ObjectsAgree v w) : h.ObjectsAgree w v :=
  fun o p ho hp ↦ (hagree p o hp ho).symm

theorem ObjectsAgree.here (hagree : h.ObjectsAgree v w) (o p : HostValue Obj)
    (hv : v = .object o) (hw : w = .object p) :
    HostObject.isEqual o.object w = HostObject.isEqual p.object v := by
  subst hv hw
  exact hagree o p .here .here

theorem equalWithin_symm {depth : Nat} (hagree : h.ObjectsAgree v w)
    (hvw : equalWithin depth h v w = true) : equalWithin depth h w v = true := by
  induction depth generalizing v w with
  | zero =>
    exact equalBy_symm hagree.here (fun _ _ _ _ hlm ↦ beq_iff_eq.2 (eq_of_beq hlm).symm) hvw
  | succ depth ih =>
    refine equalBy_symm hagree.here (fun l m hl hm hlm ↦ listsEqualBy_iff.2 ?_) hvw
    refine (listsEqualBy_iff.1 hlm).imp Eq.symm fun hpaired ↦ ?_
    refine (hpaired.imp fun a b ha hb hab ↦ ?_).flip
    exact ih (fun o p ho hp ↦ hagree o p (.element hl ha ho) (.element hm hb hp)) hab

/-! ## Transitivity -/

theorem equalBy_trans {lists'' : ListId → ListId → Bool} (hu : ∀ o, u ≠ .object o)
    (hv : ∀ o, v ≠ .object o) (hw : ∀ o, w ≠ .object o)
    (hlists : ∀ l m k, u.list? = some l → v.list? = some m → w.list? = some k →
      lists l m = true → lists' m k = true → lists'' l k = true)
    (huv : equalBy lists u v = true) (hvw : equalBy lists' v w = true) :
    equalBy lists'' u w = true := by
  refine (equalBy_iff hu hw).2 ?_
  cases (equalBy_iff hu hv).1 huv with
  | scalar hst =>
    cases (equalBy_iff hv hw).1 hvw with
    | scalar htu => exact .scalar (hst.trans htu)
  | array hlm =>
    cases (equalBy_iff hv hw).1 hvw with
    | array hmk => exact .array (hlists _ _ _ rfl rfl rfl hlm hmk)
  | struct hnames hlm =>
    cases (equalBy_iff hv hw).1 hvw with
    | struct hnames' hmk =>
      exact .struct (hnames.trans hnames') (hlists _ _ _ rfl rfl rfl hlm hmk)

/-- No object stands anywhere in the value. -/
def ObjectFree (h : Heap Obj) (v : Value Obj) : Prop :=
  ∀ o, ¬ h.Inside (.object o) v

omit [HostObject Obj] in
theorem ObjectFree.ne (hfree : h.ObjectFree v) (o : HostValue Obj) : v ≠ .object o :=
  fun he ↦ hfree o (he ▸ .here)

omit [HostObject Obj] in
theorem ObjectFree.element {l : ListId} (hfree : h.ObjectFree v) (hl : v.list? = some l)
    (hw : h.HasElement l w) : h.ObjectFree w :=
  fun o ho ↦ hfree o (.element hl hw ho)

/-- Lists that are one on the one side and pair up on the other side pair up, and so do lists that
pair up on both sides. -/
theorem equalWithin_trans {depth : Nat} (hu : h.ObjectFree u) (hv : h.ObjectFree v)
    (hw : h.ObjectFree w) (huv : equalWithin depth h u v = true)
    (hvw : equalWithin depth h v w = true) : equalWithin depth h u w = true := by
  induction depth generalizing u v w with
  | zero =>
    refine equalBy_trans hu.ne hv.ne hw.ne (fun _ _ _ _ _ _ hlm hmk ↦ ?_) huv hvw
    exact beq_iff_eq.2 ((eq_of_beq hlm).trans (eq_of_beq hmk))
  | succ depth ih =>
    refine equalBy_trans hu.ne hv.ne hw.ne (fun l m k hl hm hk hlm hmk ↦ ?_) huv hvw
    rcases listsEqualBy_iff.1 hlm with rfl | hpaired
    · exact hmk
    · rcases listsEqualBy_iff.1 hmk with rfl | hpaired'
      · exact hlm
      · refine listsEqualBy_iff.2 (.inr (hpaired.trans hpaired' fun a b c ha hb hc hab hbc ↦ ?_))
        exact ih (hu.element hl ha) (hv.element hm hb) (hw.element hk hc) hab hbc

end

/-! ## Depth -/

theorem isSome_of_mapM {α β : Type} {f : α → Option β} {as : List α} (hall : (as.mapM f).isSome) :
    ∀ a ∈ as, (f a).isSome := by
  induction as with
  | nil => exact fun a ha ↦ absurd ha List.not_mem_nil
  | cons a as ih =>
    rw [List.mapM_cons] at hall
    obtain ⟨bs, hbs⟩ := Option.isSome_iff_exists.1 hall
    obtain ⟨b, hb, hrest⟩ := Option.bind_eq_some_iff.1 hbs
    obtain ⟨cs, hcs, -⟩ := Option.bind_eq_some_iff.1 hrest
    intro x hx
    rcases List.mem_cons.1 hx with rfl | hx
    · rw [hb]
      rfl
    · exact ih (by rw [hcs]; rfl) x hx

/-- The elements of a value that is written out down to a depth are so down to one less. -/
theorem isSome_of_datumWithin {depth : Nat} {v : Value Obj} {l : ListId} (hl : v.list? = some l)
    (hd : (datumWithin (depth + 1) h v).isSome) :
    ∃ is, h.elements? l = some is ∧
      ∀ e ∈ is, ∃ w, h.valueOf? e = some w ∧ (datumWithin depth h w).isSome := by
  have hbind {d : List (Datum Obj) → Datum Obj} (hsome : (do
      let is ← h.elements? l
      let ds ← is.mapM fun i ↦ (h.valueOf? i).bind (datumWithin depth h)
      return d ds).isSome) : ∃ is, h.elements? l = some is ∧
      ∀ e ∈ is, ∃ w, h.valueOf? e = some w ∧ (datumWithin depth h w).isSome := by
    obtain ⟨d, hd⟩ := Option.isSome_iff_exists.1 hsome
    obtain ⟨is, his, hrest⟩ := Option.bind_eq_some_iff.1 hd
    obtain ⟨ds, hds, -⟩ := Option.bind_eq_some_iff.1 hrest
    refine ⟨is, his, fun e he ↦ ?_⟩
    obtain ⟨d, hd⟩ := Option.isSome_iff_exists.1 (isSome_of_mapM (by rw [hds]; rfl) e he)
    obtain ⟨w, hw, hwd⟩ := Option.bind_eq_some_iff.1 hd
    exact ⟨w, hw, by rw [hwd]; rfl⟩
  cases v with
  | scalar s => cases hl
  | array m =>
    cases hl
    exact hbind hd
  | struct names m =>
    cases hl
    exact hbind (d := fun ds ↦ .struct (names.zip ds) (ds.drop names.length)) hd

/-- Only values of elements are compared. -/
theorem listsEqualBy_congr {f g : Value Obj → Value Obj → Bool} {l : ListId} {is : List HandleId}
    (his : h.elements? l = some is)
    (hvalues : ∀ e ∈ is, ∀ a, h.valueOf? e = some a → ∀ b, f a b = g a b) (m : ListId) :
    h.listsEqualBy f l m = h.listsEqualBy g l m := by
  rw [listsEqualBy, listsEqualBy, his]
  cases h.elements? m with
  | none => rfl
  | some js =>
    refine congrArg (l == m || ·) (congrArg (is.length == js.length && ·) (Bool.eq_iff_iff.2 ?_))
    rw [List.all_eq_true, List.all_eq_true]
    refine forall₂_congr fun p hp ↦ ?_
    dsimp only
    cases ha : h.valueOf? p.1 with
    | none => rfl
    | some a =>
      cases h.valueOf? p.2 with
      | none => rfl
      | some b => simp only [hvalues p.1 (List.of_mem_zip hp).1 a ha b]

section
variable [HostObject Obj]

/-- Lists are compared only where the left value has one. -/
theorem equalBy_congr {f g : ListId → ListId → Bool} {v : Value Obj} (w : Value Obj)
    (hlists : ∀ l, v.list? = some l → ∀ m, f l m = g l m) : equalBy f v w = equalBy g v w := by
  cases v with
  | scalar s =>
    cases w with
    | scalar t => cases s <;> cases t <;> rfl
    | array m => cases s <;> rfl
    | struct names m => cases s <;> rfl
  | array l =>
    cases w with
    | scalar t => cases t <;> rfl
    | array m => exact hlists l rfl m
    | struct names m => rfl
  | struct ns l =>
    cases w with
    | scalar t => cases t <;> rfl
    | array m => rfl
    | struct ms m => exact congrArg (sameNames ns ms && ·) (hlists l rfl m)

/-- Where a value is written out, a deeper comparison finds the same. -/
theorem equalWithin_of_isSome {depth depth' : Nat} {v : Value Obj}
    (hd : (datumWithin depth h v).isSome) (hle : depth ≤ depth') (w : Value Obj) :
    equalWithin depth' h v w = equalWithin depth h v w := by
  induction depth generalizing depth' v w with
  | zero =>
    have hnone (l : ListId) (hl : v.list? = some l) : False := by
      cases v with
      | scalar s => cases hl
      | array m => cases hd
      | struct names m => cases hd
    cases depth' with
    | zero => rfl
    | succ depth' => exact equalBy_congr w fun l hl ↦ (hnone l hl).elim
  | succ depth ih =>
    obtain ⟨depth', rfl⟩ := Nat.exists_eq_add_of_lt hle
    refine equalBy_congr w fun l hl m ↦ ?_
    obtain ⟨is, his, hall⟩ := isSome_of_datumWithin hl hd
    refine listsEqualBy_congr his (fun e he a ha b ↦ ?_) m
    obtain ⟨a', ha', hda⟩ := hall e he
    obtain rfl := Option.some.inj (ha'.symm.trans ha)
    exact ih hda (Nat.le_add_right _ _) b

end

/-! ## Contents -/

/-- A scalar inside a value is seen there from a certain depth on. -/
theorem Inside.exists_outline {s : Scalar Obj} {v : Value Obj} (hs : h.Inside (.scalar s) v) :
    ∃ depth, ∀ more, depth ≤ more → (Datum.scalar s).Inside (outline more h v) := by
  induction hs with
  | here => exact ⟨0, fun more _ ↦ outline_scalar more h s ▸ .here _⟩
  | @element v w l hl hw _ ih =>
    obtain ⟨depth, hdepth⟩ := ih
    obtain ⟨is, his, i, hi, hiw⟩ := hw
    refine ⟨depth + 1, fun more hle ↦ ?_⟩
    obtain ⟨more, rfl⟩ : ∃ n, more = n + 1 := ⟨more - 1, by omega⟩
    refine .element ?_ (hdepth more (by omega))
    rw [elements_outline hl, shape_list his]
    refine List.mem_map.2 ⟨i, hi, ?_⟩
    rw [shown, hiw, Option.getD_some]

/-- So it is among the scalars that are written out. -/
theorem Inside.datum {s : Scalar Obj} {v : Value Obj} {d : Datum Obj}
    (hs : h.Inside (.scalar s) v) (hd : h.datum? v = some d) : (Datum.scalar s).Inside d := by
  obtain ⟨depth, hdepth⟩ := hs.exists_outline
  rw [← outline_of_datumWithin hd (Nat.le_max_left h.depth depth)]
  exact hdepth _ (Nat.le_max_right _ _)

theorem objectFree_of_datum {v : Value Obj} {d : Datum Obj} (hd : h.datum? v = some d)
    (hfree : d.HostFree) : h.ObjectFree v :=
  fun o ho ↦ Bool.noConfusion (hfree (.object o) (ho.datum hd))

/-- A value shows in one heap what another shows in the other: both are of one form with the same
names, and their elements show the same one by one, as deep as they go.  Which lists and which
handles they are makes no difference. -/
def Resembles (h h' : Heap Obj) (v w : Value Obj) : Prop :=
  ∃ R : Value Obj → Value Obj → Prop, R v w ∧
    ∀ v w, R v w → ∃ m, w = v.withList m ∧ ∀ l, v.list? = some l → h.Paired h' R l m

namespace Resembles

variable {h' : Heap Obj} {u v w : Value Obj} {s : Scalar Obj} {m : ListId}

theorem paired (hvw : h.Resembles h' v w) :
    ∃ m, w = v.withList m ∧ ∀ l, v.list? = some l → h.Paired h' (h.Resembles h') l m := by
  obtain ⟨R, hvw, hR⟩ := hvw
  obtain ⟨m, hw, hlist⟩ := hR v w hvw
  exact ⟨m, hw, fun l hl ↦ (hlist l hl).imp fun a b _ _ hab ↦ ⟨R, hab, hR⟩⟩

/-- Containers resemble each other when their elements do. -/
theorem of_paired
    (hlist : ∀ l, v.list? = some l → h.Paired h' (h.Resembles h') l m) :
    h.Resembles h' v (v.withList m) := by
  refine ⟨fun a b ↦ a = v ∧ b = v.withList m ∨ h.Resembles h' a b, .inl ⟨rfl, rfl⟩, ?_⟩
  rintro a b (⟨rfl, rfl⟩ | hab)
  · exact ⟨m, rfl, fun l hl ↦ (hlist l hl).imp fun _ _ _ _ hab ↦ .inr hab⟩
  · obtain ⟨k, hb, hpaired⟩ := hab.paired
    exact ⟨k, hb, fun l hl ↦ (hpaired l hl).imp fun _ _ _ _ hab ↦ .inr hab⟩

/-- What resembles a value is there. -/
theorem isSome (hvw : h.Resembles h' v w) : ∀ y ∈ w.holds, (h'.content? y).isSome := by
  obtain ⟨m, rfl, hpaired⟩ := hvw.paired
  have hthere {l : ListId} (hl : v.list? = some l) : (h'.content? (.list m)).isSome := by
    obtain ⟨_, js, -, hjs, -⟩ := hpaired l hl
    exact isSome_of_elements? hjs
  cases v with
  | scalar s => exact fun y hy ↦ absurd hy List.not_mem_nil
  | array l => exact List.forall_mem_singleton.2 (hthere rfl)
  | struct names l => exact List.forall_mem_singleton.2 (hthere rfl)

theorem scalar (s : Scalar Obj) : h.Resembles h' (.scalar s) (.scalar s) :=
  of_paired (m := ⟨0⟩) fun _ hl ↦ nomatch hl

theorem eq_scalar (hvs : h.Resembles h' v (.scalar s)) : v = .scalar s := by
  obtain ⟨m, hs, -⟩ := hvs.paired
  cases v with
  | scalar t => exact hs.symm
  | array l => cases hs
  | struct names l => cases hs

theorem symm (hvw : h.Resembles h' v w) : h'.Resembles h w v := by
  refine ⟨fun b a ↦ h.Resembles h' a b, hvw, fun b a hab ↦ ?_⟩
  obtain ⟨m, rfl, hpaired⟩ := hab.paired
  cases a with
  | scalar s => exact ⟨m, rfl, fun _ hl ↦ nomatch hl⟩
  | array l =>
    refine ⟨l, rfl, fun k hk ↦ ?_⟩
    cases hk
    exact (hpaired l rfl).flip
  | struct names l =>
    refine ⟨l, rfl, fun k hk ↦ ?_⟩
    cases hk
    exact (hpaired l rfl).flip

/-- What stands inside a value resembles something inside the other. -/
theorem exists_inside (hvw : h.Resembles h' v w) (hu : h'.Inside u w) :
    ∃ u', h.Inside u' v ∧ h.Resembles h' u' u := by
  induction hu generalizing v with
  | here => exact ⟨v, .here, hvw⟩
  | @element w b k hk hb _ ih =>
    obtain ⟨m, rfl, hpaired⟩ := hvw.paired
    obtain ⟨l, hl⟩ : ∃ l, v.list? = some l := by
      cases v with
      | scalar s => cases hk
      | array l => exact ⟨l, rfl⟩
      | struct names l => exact ⟨l, rfl⟩
    obtain rfl := Option.some.inj ((list?_withList hl m).symm.trans hk)
    obtain ⟨is, js, his, hjs, hall⟩ := hpaired l hl
    obtain ⟨js', hjs', j, hj, hbj⟩ := hb
    obtain rfl := Option.some.inj (hjs.symm.trans hjs')
    obtain ⟨i, hi, a, b', ha, hb', hab⟩ := exists_of_forall₂ hall hj
    obtain rfl := Option.some.inj (hb'.symm.trans hbj)
    obtain ⟨u', hu', huu'⟩ := ih hab
    exact ⟨u', .element hl ⟨is, his, i, hi, ha⟩ hu', huu'⟩

theorem inside_scalar (hvw : h.Resembles h' v w) (hs : h'.Inside (.scalar s) w) :
    h.Inside (.scalar s) v := by
  obtain ⟨u, hu, hus⟩ := hvw.exists_inside hs
  rwa [← hus.eq_scalar]

end Resembles

section
variable [HostObject Obj] {h' : Heap Obj} {v w v' w' : Value Obj}
  {lists lists' : ListId → ListId → Bool}

/-- What an object thinks of a container does not depend on which element list that has. -/
def IgnoresLists (Obj : Type) [HostObject Obj] : Prop :=
  ∀ (o : Obj) (v : Value Obj) (l : ListId), HostObject.isEqual o (v.withList l) =
    HostObject.isEqual o v

omit [HostObject Obj] in
theorem withList_ne_object (hv : ∀ o, v ≠ .object o) (l : ListId) (o : HostValue Obj) :
    v.withList l ≠ .object o := by
  cases v with
  | scalar s => exact hv o
  | array m => exact fun he ↦ nomatch he
  | struct names m => exact fun he ↦ nomatch he

/-- Equality goes over to other lists. -/
theorem equalBy_withList (hobjects : IgnoresLists Obj) {l' m' : ListId}
    (hlists : ∀ l m, v.list? = some l → w.list? = some m → lists l m = true → lists' l' m' = true)
    (hvw : equalBy lists v w = true) : equalBy lists' (v.withList l') (w.withList m') = true := by
  by_cases hv : ∃ o, v = .object o
  · obtain ⟨o, rfl⟩ := hv
    exact (hobjects o.object w m').trans hvw
  · by_cases hw : ∃ p, w = .object p
    · obtain ⟨p, rfl⟩ := hw
      rw [equalBy_object_right _ (not_exists.1 hv)] at hvw
      rw [Value.withList, equalBy_object_right _ (withList_ne_object (not_exists.1 hv) l')]
      exact (hobjects p.object v l').trans hvw
    · refine (equalBy_iff (withList_ne_object (not_exists.1 hv) l')
        (withList_ne_object (not_exists.1 hw) m')).2 ?_
      cases (equalBy_iff (not_exists.1 hv) (not_exists.1 hw)).1 hvw with
      | scalar hst => exact .scalar hst
      | array hlm => exact .array (hlists _ _ rfl rfl hlm)
      | struct hnames hlm => exact .struct hnames (hlists _ _ rfl rfl hlm)

/-- Scalars are compared without a look at the heap. -/
theorem equalWithin_scalar (depth depth' : Nat) (h h' : Heap Obj) (s t : Scalar Obj) :
    equalWithin depth h (.scalar s) (.scalar t) =
      equalWithin depth' h' (.scalar s) (.scalar t) := by
  cases depth <;> cases depth' <;> exact equalBy_congr _ fun _ hl ↦ nomatch hl

/-- No scalar that stands inside both values differs from itself. -/
def SelfEqual (h : Heap Obj) (v w : Value Obj) : Prop :=
  ∀ s, h.Inside (.scalar s) v → h.Inside (.scalar s) w → h.equal (.scalar s) (.scalar s) = true

theorem SelfEqual.element {l m : ListId} (hself : h.SelfEqual v w) (hl : v.list? = some l)
    (hm : w.list? = some m) (hv : h.HasElement l v') (hw : h.HasElement m w') :
    h.SelfEqual v' w' :=
  fun s hs ht ↦ hself s (.element hl hv hs) (.element hm hw ht)

/-- A container is equal to itself in any case. -/
theorem SelfEqual.equalWithin_self (hself : h.SelfEqual v v) (depth : Nat) :
    equalWithin depth h v v = true := by
  have hlists (l : ListId) : equalWithin depth h (.array l) (.array l) = true := by
    cases depth with
    | zero => exact beq_self_eq_true l
    | succ depth => exact listsEqualBy_iff.2 (.inl rfl)
  cases v with
  | scalar s =>
    rw [equalWithin_scalar depth h.depth h h s s]
    exact hself s .here .here
  | array l => exact hlists l
  | struct names l =>
    cases depth with
    | zero => exact Bool.and_eq_true_iff.2 ⟨sameNames_iff.2 rfl, hlists l⟩
    | succ depth => exact Bool.and_eq_true_iff.2 ⟨sameNames_iff.2 rfl, hlists l⟩

/-- Elements pair up also where the lists are one. -/
theorem SelfEqual.paired {depth : Nat} {l m : ListId} (hself : h.SelfEqual v w)
    (hd : (datumWithin (depth + 1) h v).isSome) (hl : v.list? = some l) (hm : w.list? = some m)
    (hlm : h.listsEqualBy (equalWithin depth h) l m = true) :
    h.Paired h (equalWithin depth h · · = true) l m := by
  rcases listsEqualBy_iff.1 hlm with rfl | hpaired
  · obtain ⟨is, his, hall⟩ := isSome_of_datumWithin hl hd
    refine .self his fun i hi ↦ ?_
    obtain ⟨a, ha, -⟩ := hall i hi
    have helement : h.HasElement l a := ⟨is, his, i, hi, ha⟩
    exact ⟨a, ha, (hself.element hl hm helement helement).equalWithin_self depth⟩
  · exact hpaired

/-- **Equality is decided by the contents**, as deep as they go. -/
theorem Resembles.equalWithin {depth : Nat} (hobjects : IgnoresLists Obj)
    (hv : h.Resembles h' v v') (hw : h.Resembles h' w w') (hself : h.SelfEqual v w)
    (hd : (datumWithin depth h v).isSome) (hvw : equalWithin depth h v w = true) :
    equalWithin depth h' v' w' = true := by
  induction depth generalizing v w v' w' with
  | zero =>
    obtain ⟨l', rfl, -⟩ := hv.paired
    obtain ⟨m', rfl, -⟩ := hw.paired
    refine equalBy_withList hobjects (fun l m hl _ _ ↦ ?_) hvw
    cases v with
    | scalar s => cases hl
    | array l => cases hd
    | struct names l => cases hd
  | succ depth ih =>
    obtain ⟨l', rfl, hl'⟩ := hv.paired
    obtain ⟨m', rfl, hm'⟩ := hw.paired
    refine equalBy_withList hobjects (fun l m hl hm hlm ↦ listsEqualBy_iff.2 (.inr ?_)) hvw
    obtain ⟨is, his, hall⟩ := isSome_of_datumWithin hl hd
    have hpaired := hself.paired hd hl hm hlm
    -- from the one heap over to the other, along the elements of the first value and the second
    refine ((hl' l hl).flip.trans hpaired (T := fun a' b ↦ ∃ a, h.HasElement l a ∧
      h.Resembles h' a a' ∧ Heap.equalWithin depth h a b = true)
      fun a' a b _ ha _ haa' hab ↦ ⟨a, ha, haa', hab⟩).trans (hm' m hm)
      fun a' b b' _ hb _ ⟨a, ha, haa', hab⟩ hbb' ↦ ?_
    refine ih haa' hbb' (hself.element hl hm ha hb) ?_ hab
    obtain ⟨is', his', i, hi, hia⟩ := ha
    obtain rfl := Option.some.inj (his.symm.trans his')
    obtain ⟨a'', ha'', hda⟩ := hall i hi
    obtain rfl := Option.some.inj (ha''.symm.trans hia)
    exact hda

end

end Heap
end ScriptHeap
