import ScriptHeap.Host.Sample
import ScriptHeap.Proofs.Heap.Equality
import ScriptHeap.Proofs.Session.InPlace

/-!
# What equality depends on

Script equality is symmetric and transitive as far as objects allow it.  It is meant to compare
containers by their contents, and it does, but for one thing: two containers with the same element
list are equal without a look at the elements, one of which may differ from itself.  Who shares a
list with whom changes behind the scenes, and the answer changes with it.

## What is here

* `Heap.equal_symm_trans` — symmetry and transitivity.
* `Heap.equal_by_contents` — when containers are equal, and that sharing makes no difference where
  every scalar inside is equal to itself.
* `Session.equal_while_shared` — a copy that stops being equal when the array is read.
-/

set_option autoImplicit false
namespace ScriptHeap

theorem SampleObject.isEqual_comm (o p : HostValue SampleObject) :
    HostObject.isEqual o.object (.object p) = HostObject.isEqual p.object (.object o) := by
  obtain ⟨f, o⟩ := o
  obtain ⟨g, p⟩ := p
  cases o with
  | plain => cases p <;> rfl
  | counter n _ _ =>
    cases p with
    | plain => rfl
    | counter m _ _ => exact BEq.comm (a := n)

theorem SampleObject.ignoresLists : Heap.IgnoresLists SampleObject := by
  intro o v l
  cases o with
  | plain => rfl
  | counter n _ _ => cases v <;> rfl

/-! ## Symmetry and transitivity -/

/-- **Script equality is symmetric** where the objects inside the two values agree with each other,
and with it `<=` and `>=` are each other's converse; **it is transitive** on values with no object
anywhere in them, whichever of the three share elements. -/
theorem Heap.equal_symm_trans {Obj : Type} [HostObject Obj] (h : Heap Obj) :
    (∀ v w, h.ObjectsAgree v w → h.equal v w = h.equal w v ∧ h.atMost v w = h.atLeast w v) ∧
      ∀ u v w, h.ObjectFree u → h.ObjectFree v → h.ObjectFree w →
        h.equal u v = true → h.equal v w = true → h.equal u w = true := by
  constructor
  · intro v w hagree
    have hequal : h.equal v w = h.equal w v :=
      Bool.eq_iff_iff.2 ⟨equalWithin_symm hagree, equalWithin_symm hagree.symm⟩
    exact ⟨hequal, by rw [atMost, atLeast, hequal]⟩
  · exact fun u v w hu hv hw ↦ equalWithin_trans hu hv hw

namespace Session

/-- An array of a number and a struct with one member. -/
def numberAndMember (number : Scalar SampleObject) (name : String) : Datum SampleObject :=
  .array [.scalar number, .struct [(name, .scalar (.string "s"))] []]

/-- Two such arrays, and a copy of the second one that has got a list of its own, with the struct
still shared. -/
def threeArrays : Session SampleObject :=
  ((start ⟨false, ⟨4, none⟩⟩).run
    [.bind "x" (.literal (numberAndMember (.integer 2) "a")),
      .bind "y" (.literal (numberAndMember (.double ⟨0x4000000000000000⟩) "A")),
      .bind "z" (.reference "y"), .subscript "z" (.literal (.scalar (.integer 1))) none]).2

/-- An integer and a double, a name in two spellings, and a struct that two of the arrays share. -/
theorem equal_symm_trans_threeArrays :
    threeArrays.heap.equal (.array ⟨3⟩) (.array ⟨1⟩) = true ∧
      threeArrays.heap.atMost (.array ⟨1⟩) (.array ⟨3⟩) =
        threeArrays.heap.atLeast (.array ⟨3⟩) (.array ⟨1⟩) ∧
      threeArrays.heap.equal (.array ⟨1⟩) (.array ⟨4⟩) = true := by
  have hxy : threeArrays.heap.equal (.array ⟨1⟩) (.array ⟨3⟩) = true := by
    decide +kernel
  have hyz : threeArrays.heap.equal (.array ⟨3⟩) (.array ⟨4⟩) = true := by
    decide +kernel
  have hfree (v : Value SampleObject) (d : Datum SampleObject)
      (hd : threeArrays.heap.datum? v = some d.withoutHost) : threeArrays.heap.ObjectFree v :=
    Heap.objectFree_of_datum hd d.hostFree_withoutHost
  have hx := hfree (.array ⟨1⟩) (numberAndMember (.integer 2) "a") (by cbv)
  have hy := hfree (.array ⟨3⟩) (numberAndMember (.double ⟨0x4000000000000000⟩) "A") (by cbv)
  have hz := hfree (.array ⟨4⟩) (numberAndMember (.double ⟨0x4000000000000000⟩) "A") (by cbv)
  obtain ⟨hsymm, htrans⟩ := threeArrays.heap.equal_symm_trans
  obtain ⟨hequal, horder⟩ := hsymm (.array ⟨1⟩) (.array ⟨3⟩) fun o p _ _ ↦
    SampleObject.isEqual_comm o p
  exact ⟨hequal ▸ hxy, horder, htrans _ _ _ hx hy hz hxy hyz⟩

end Session

/-! ## Contents -/

namespace Heap

variable {Obj : Type} [HostObject Obj] {h : Heap Obj} {xs : List Hold} {v w : Value Obj}
  {l m : ListId}

/-- **When two containers are equal**: they are of one form, their names agree in order, up to case,
and they have the same list or elements that are equal one by one. -/
theorem Sound.equal_iff (hs : h.Sound xs) (hends : ¬ h.Endless) (hl : v.list? = some l)
    (hm : w.list? = some m) (hthere : (h.content? (.list l)).isSome) :
    h.equal v w = true ↔ v.sameForm w = true ∧ sameNames v.names w.names = true ∧
      (l = m ∨ h.Paired h (h.equal · · = true) l m) := by
  have hd : (h.datum? v).isSome := by
    refine hs.datum?_isSome hends ?_
    rw [holds_of_list? hl]
    exact List.forall_mem_singleton.2 hthere
  -- one level deeper the elements are compared as they would be by themselves
  have hunfold : h.equal v w = equalBy (h.listsEqualBy h.equal) v w :=
    (equalWithin_of_isSome hd (Nat.le_succ h.depth) w).symm
  rw [hunfold, ← listsEqualBy_iff]
  cases v with
  | scalar s => cases hl
  | array l =>
    cases w with
    | scalar t => cases hm
    | array m =>
      cases hl
      cases hm
      exact ⟨fun he ↦ ⟨rfl, rfl, he⟩, fun he ↦ he.2.2⟩
    | struct ms m => exact ⟨fun he ↦ (nomatch he), fun he ↦ (nomatch he.1)⟩
  | struct ns l =>
    cases w with
    | scalar t => cases hm
    | array m => exact ⟨fun he ↦ (nomatch he), fun he ↦ (nomatch he.1)⟩
    | struct ms m =>
      cases hl
      cases hm
      rw [equalBy, Bool.and_eq_true]
      exact ⟨fun he ↦ ⟨rfl, he⟩, fun he ↦ he.2⟩

/-- What resembles values that are equal to themselves is so, too. -/
theorem SelfEqual.resembles {h' : Heap Obj} {v' w' : Value Obj} (hself : h.SelfEqual v w)
    (hv : h.Resembles h' v v') (hw : h.Resembles h' w w') : h'.SelfEqual v' w' := by
  intro s hs ht
  rw [equal, equalWithin_scalar h'.depth h.depth h' h s s]
  exact hself s (hv.inside_scalar hs) (hw.inside_scalar ht)

/-- A look that goes as deep as it takes in both heaps finds the same. -/
theorem Sound.equal_of_resembles {ys : List Hold} {h' : Heap Obj} {v' w' : Value Obj}
    (hs : h.Sound xs) (hends : ¬ h.Endless) (hs' : h'.Sound ys) (hends' : ¬ h'.Endless)
    (hobjects : IgnoresLists Obj) (hv : h.Resembles h' v v') (hw : h.Resembles h' w w')
    (hself : h.SelfEqual v w) (hvw : h.equal v w = true) : h'.equal v' w' = true := by
  have hd := hs.datum?_isSome hends hv.symm.isSome
  have hd' := hs'.datum?_isSome hends' hv.isSome
  rw [equal, ← equalWithin_of_isSome hd' (Nat.le_max_right h.depth h'.depth)]
  rw [equal, ← equalWithin_of_isSome hd (Nat.le_max_left h.depth h'.depth)] at hvw
  refine hv.equalWithin hobjects hw hself (hs.datumWithin_isSome hends hv.symm.isSome ?_) hvw
  calc (h.below v).card < h.depth := Nat.lt_succ_of_le (h.card_below_le v)
    _ ≤ max h.depth h'.depth := Nat.le_max_left _ _

/-- **Containers are compared by their contents**, but for those that have the same list.  These are
equal without a look at the elements; where every scalar that stands inside both is equal to itself,
this makes no difference.  Then containers are equal when they are of one form, with names that
agree in order up to case, and their elements are equal one by one; and, if objects do not look at
element lists, the answer is the same in every other heap for values that show the same, whoever
shares lists with whom there. -/
theorem equal_by_contents (hs : h.Sound xs) (hends : ¬ h.Endless) (hl : v.list? = some l)
    (hm : w.list? = some m) (hthere : (h.content? (.list l)).isSome) :
    (h.equal v w = true ↔ v.sameForm w = true ∧ sameNames v.names w.names = true ∧
      (l = m ∨ h.Paired h (h.equal · · = true) l m)) ∧
    (h.SelfEqual v w →
      (h.equal v w = true ↔ v.sameForm w = true ∧ sameNames v.names w.names = true ∧
        h.Paired h (h.equal · · = true) l m) ∧
      (IgnoresLists Obj → ∀ (h' : Heap Obj) ys v' w', h'.Sound ys → ¬ h'.Endless →
        h.Resembles h' v v' → h.Resembles h' w w' → h'.equal v' w' = h.equal v w)) := by
  have hequal := hs.equal_iff hends hl hm hthere
  refine ⟨hequal, fun hself ↦ ⟨?_, fun hobjects h' ys v' w' hs' hends' hv hw ↦ ?_⟩⟩
  · rw [hequal]
    refine and_congr_right fun _ ↦ and_congr_right fun _ ↦ ⟨?_, .inr⟩
    rintro (rfl | hpaired)
    · obtain ⟨is, his, hhandles⟩ := hs.exists_elements hthere
      refine .self his fun i hi ↦ ?_
      obtain ⟨_, a, -, -, ha⟩ := hs.exists_value (hhandles i hi)
      have helement : h.HasElement l a := ⟨is, his, i, hi, ha⟩
      exact ⟨a, ha, (hself.element hl hm helement helement).equalWithin_self h.depth⟩
    · exact hpaired
  · refine Bool.eq_iff_iff.2 ⟨fun hequal' ↦ ?_, fun hequal ↦ ?_⟩
    · exact hs'.equal_of_resembles hends' hs hends hobjects hv.symm hw.symm (hself.resembles hv hw)
        hequal'
    · exact hs.equal_of_resembles hends hs' hends' hobjects hv hw hself hequal

end Heap

namespace Session

/-- An array in a variable, and a copy of it in another. -/
def twins (ds : List (Datum SampleObject)) : Session SampleObject :=
  ((start ⟨false, ⟨4, none⟩⟩).run
    [.bind "x" (.literal (.array ds)), .bind "y" (.reference "x")]).2

/-- The same after the first array was read, which has given it a list of its own. -/
def twinsParted (ds : List (Datum SampleObject)) : Session SampleObject :=
  ((twins ds).step (.subscript "x" (.literal (.scalar (.integer 1))) none)).2

/-- How far the cells of these sessions are from the bottom. -/
def twinsRank : Hold → Nat
  | .block b => if b.pool = .array then 3 else 0
  | .handle i => if i = ⟨2⟩ ∨ i = ⟨3⟩ then 4 else 1
  | .list _ => 2

/-- A number and a text. -/
def numberAndText : List (Datum SampleObject) :=
  [.scalar (.integer 1), .scalar (.string "s")]

/-- With a number and a text in them the two arrays are equal while they have one list, and they
still are when one of them was read. -/
theorem equal_by_contents_twins :
    (twins numberAndText).heap.equal (.array ⟨0⟩) (.array ⟨0⟩) = true ∧
      (twinsParted numberAndText).heap.equal (.array ⟨1⟩) (.array ⟨0⟩) = true := by
  have hs : (twins numberAndText).Books := (books_start _).run _
  have hs' : (twinsParted numberAndText).Books := hs.step _
  have hends : ¬ (twins numberAndText).heap.Endless := by
    refine Heap.not_endless_of_rank twinsRank ?_
    decide +kernel
  have hends' : ¬ (twinsParted numberAndText).heap.Endless := by
    refine Heap.not_endless_of_rank twinsRank ?_
    decide +kernel
  have hself : (twins numberAndText).heap.SelfEqual (.array ⟨0⟩) (.array ⟨0⟩) := by
    intro s hs _
    have hd : (twins numberAndText).heap.datum? (.array ⟨0⟩) = some (.array numberAndText) := by
      cbv
    cases hs.datum hd with
    | element he hinside =>
      rcases List.mem_pair.1 he with rfl | rfl
      · cases hinside with
        | here => decide +kernel
        | element he _ => cases he
      · cases hinside with
        | here => decide +kernel
        | element he _ => cases he
  have hread : (twins numberAndText).heap.Resembles (twinsParted numberAndText).heap (.array ⟨0⟩)
      (.array ⟨1⟩) := by
    refine .of_paired fun l hl ↦ ?_
    cases hl
    exact ⟨[⟨0⟩, ⟨1⟩], [⟨4⟩, ⟨5⟩], by cbv, by cbv,
      .cons ⟨_, _, by cbv, by cbv, .scalar _⟩ (.cons ⟨_, _, by cbv, by cbv, .scalar _⟩ .nil)⟩
  have hleft : (twins numberAndText).heap.Resembles (twinsParted numberAndText).heap (.array ⟨0⟩)
      (.array ⟨0⟩) := by
    refine .of_paired fun l hl ↦ ?_
    cases hl
    exact ⟨[⟨0⟩, ⟨1⟩], [⟨0⟩, ⟨1⟩], by cbv, by cbv,
      .cons ⟨_, _, by cbv, by cbv, .scalar _⟩ (.cons ⟨_, _, by cbv, by cbv, .scalar _⟩ .nil)⟩
  obtain ⟨hshared, hcontents⟩ := Heap.equal_by_contents (v := .array ⟨0⟩) (w := .array ⟨0⟩) hs hends
    rfl rfl (by decide +kernel)
  have hequal := hshared.2 ⟨rfl, rfl, .inl rfl⟩
  obtain ⟨-, hparted⟩ := hcontents hself
  exact ⟨hequal, (hparted SampleObject.ignoresLists _ _ _ _ hs' hends' hread hleft).trans hequal⟩

/-- An object that is equal to nothing, and a double that is no number. -/
def strangers : List (Datum SampleObject) :=
  [.scalar (.object ⟨⟨0, "Connection"⟩, .plain⟩), .scalar (.double .invalid)]

/-- **Equality changes when an array is read.**  The array and its copy are equal while they have
one list, though no element is equal to itself.  When the array was read, it has a list of its own,
and with the contents that they had the two are not equal any more. -/
theorem equal_while_shared :
    ((twins strangers).step (.compare (.reference "x") (.reference "y"))).1 =
        .comparison true false true ∧
      ¬ (twins strangers).heap.Paired (twins strangers).heap
        ((twins strangers).heap.equal · · = true) ⟨0⟩ ⟨0⟩ ∧
      (twinsParted strangers).heap.contents? ⟨2⟩ = (twins strangers).heap.contents? ⟨2⟩ ∧
      (twinsParted strangers).heap.contents? ⟨3⟩ = (twins strangers).heap.contents? ⟨3⟩ ∧
      ((twinsParted strangers).step (.compare (.reference "x") (.reference "y"))).1 =
        .comparison false false false := by
  refine ⟨by cbv, ?_, by cbv, by cbv, by cbv⟩
  rintro ⟨is, js, his, hjs, hall⟩
  cases (show (twins strangers).heap.elements? ⟨0⟩ = some [⟨0⟩, ⟨1⟩] by cbv).symm.trans his
  cases his.symm.trans hjs
  obtain ⟨v, w, hv, hw, hvw⟩ := (List.forall₂_cons.1 hall).1
  cases hv.symm.trans hw
  cases (show (twins strangers).heap.valueOf? ⟨0⟩ =
    some (.object ⟨⟨0, "Connection"⟩, .plain⟩) by cbv).symm.trans hv
  exact absurd hvw (by decide +kernel)

end Session
end ScriptHeap
