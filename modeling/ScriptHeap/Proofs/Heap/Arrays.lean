import ScriptHeap.Proofs.Heap.Assigning
import ScriptHeap.Proofs.Heap.Calls

/-!
# Arrays as lists

The methods of arrays that put elements in, take them out or turn their order around do to an array
what is done to a list, and they do the same to the handles of the elements: none of them looks at
what an element is.

## What is here

* `ListEdit` — changes of a list that do not depend on what is in it.
* `ListCall` — the calls of methods that treat an array as a list, with the change that each makes
  and the answer that it gives.
* `ListCall.run` — calls one after the other, on any list.
* `Heap.Edited` — an array after a change; `Heap.Operands.perform` says that this is what a call
  leaves.
* `Heap.Subscripted` — what a subscript gives.
-/

set_option autoImplicit false
namespace ScriptHeap

variable {Obj : Type}

/-! ## Lists -/

/-- A change of a list that does not depend on what is in it. -/
inductive ListEdit where
  | stay
  | insert (place : Nat)
  | erase (place : Nat)
  | reverse

/-- The list after a change.  The element is the one that is put in. -/
def ListEdit.apply {α : Type} (a : α) (as : List α) : ListEdit → List α
  | stay => as
  | insert place => as.insertIdx place a
  | erase place => as.eraseIdx place
  | reverse => as.reverse

theorem ListEdit.map_apply {α β : Type} (f : α → β) (a : α) (as : List α) (edit : ListEdit) :
    (edit.apply a as).map f = edit.apply (f a) (as.map f) := by
  cases edit with
  | stay => rfl
  | insert place => exact List.map_insertIdx ..
  | erase place => exact (List.eraseIdx_map ..).symm
  | reverse => exact List.map_reverse

/-- A position counted from one is among the first so many. -/
def InRange (n : Int32) (limit : Nat) : Prop :=
  1 ≤ n.toInt ∧ n.toInt ≤ limit

instance (n : Int32) (limit : Nat) : Decidable (InRange n limit) :=
  inferInstanceAs (Decidable (_ ∧ _))

theorem inRange_iff {n : Int32} {limit : Nat} :
    InRange n limit ↔ ∃ place : Nat, n.toInt = place + 1 ∧ place < limit := by
  refine ⟨fun ⟨hone, hle⟩ ↦ ⟨(n.toInt - 1).toNat, by omega, by omega⟩, ?_⟩
  rintro ⟨place, hn, hlt⟩
  exact ⟨by omega, by omega⟩

/-- A call of a method that treats an array as a list. -/
inductive ListCall (Obj : Type) where
  | size
  | has (n : Int32)
  | append (v : Value Obj)
  | insert (n : Int32) (v : Value Obj)
  | erase (n : Int32)
  | reverse

namespace ListCall

/-- The method that is called. -/
def method : ListCall Obj → Method
  | size => .size
  | has _ => .exists
  | append _ => .append
  | insert _ _ => .insert
  | erase _ => .erase
  | reverse => .reverse

/-- The arguments of the call. -/
def args : ListCall Obj → List (Value Obj)
  | size | reverse => []
  | has n | erase n => [.integer n]
  | append v => [v]
  | insert n v => [.integer n, v]

/-- The value that is put in, if there is one. -/
def value : ListCall Obj → Value Obj
  | append v | insert _ v => v
  | _ => .uninit

/-- What a call does to a list with so many elements. -/
def edit (length : Nat) : ListCall Obj → ListEdit
  | append _ => .insert length
  | insert n _ => if InRange n (length + 1) then .insert (n.toInt - 1).toNat else .stay
  | erase n => if InRange n length then .erase (n.toInt - 1).toNat else .stay
  | reverse => .reverse
  | size | has _ => .stay

/-- What a call answers for a list with so many elements. -/
def answer (length : Nat) : ListCall Obj → Value Obj
  | size => .integer (countNumber length)
  | has n => .ofBool (decide (InRange n length))
  | append _ | reverse => .ofBool true
  | insert n _ => if InRange n (length + 1) then .ofBool true else .error indexOutOfRange
  | erase n => if InRange n length then .ofBool true else .error indexOutOfRange

/-- The arguments of a call are numbers, or the value that is put in. -/
theorem mem_args {call : ListCall Obj} {w : Value Obj} (hw : w ∈ call.args) :
    w.holds = [] ∨ w = call.value := by
  cases call with
  | size => cases hw
  | reverse => cases hw
  | has n =>
    obtain rfl := List.mem_singleton.1 hw
    exact .inl rfl
  | erase n =>
    obtain rfl := List.mem_singleton.1 hw
    exact .inl rfl
  | append v => exact .inr (List.mem_singleton.1 hw)
  | insert n v =>
    rcases List.mem_cons.1 hw with rfl | hw
    · exact .inl rfl
    · exact .inr (List.mem_singleton.1 hw)

/-- Answers have no elements. -/
theorem holds_answer (length : Nat) (call : ListCall Obj) : (call.answer length).holds = [] := by
  cases call with
  | size => rfl
  | has n => rfl
  | append v => rfl
  | reverse => rfl
  | insert n v =>
    rw [answer]
    split <;> rfl
  | erase n =>
    rw [answer]
    split <;> rfl

variable {α : Type}

/-- Calls one after the other, on a list: their answers, and the list then.  There is an element to
be put in for each call. -/
def run : List (ListCall Obj) → List α → List α → List (Option (Value Obj)) × List α
  | call :: calls, a :: news, as =>
    let (answers, bs) := run calls news ((call.edit as.length).apply a as)
    (some (call.answer as.length) :: answers, bs)
  | _, _, as => ([], as)

/-- **What is put in at a place is taken out there again.** -/
theorem run_insert_erase {n : Int32} {as : List α} (hn : InRange n (as.length + 1)) (v : Value Obj)
    (a b : α) :
    run [insert n v, erase n] [a, b] as = ([some (.ofBool true), some (.ofBool true)], as) := by
  obtain ⟨place, hplace, hlt⟩ := inRange_iff.1 hn
  have hat : (n.toInt - 1).toNat = place := by
    omega
  have hlength : (as.insertIdx place a).length = as.length + 1 :=
    List.length_insertIdx_of_le_length (Nat.le_of_lt_succ hlt) a
  simp only [run, edit, answer, if_pos hn, hat, ListEdit.apply, hlength,
    List.eraseIdx_insertIdx_self]

/-- **Turned around twice**, a list is what it was. -/
theorem run_reverse_reverse (a b : α) (as : List α) :
    run [(reverse : ListCall Obj), reverse] [a, b] as =
      ([some (.ofBool true), some (.ofBool true)], as) := by
  simp only [run, edit, answer, ListEdit.apply, List.reverse_reverse]

/-- **Appended one after the other**, elements stand behind the list. -/
theorem run_appends {vs : List (Value Obj)} {news : List α} (hlength : vs.length = news.length)
    (as : List α) : (run (vs.map append) news as).2 = as ++ news := by
  induction vs generalizing news as with
  | nil =>
    rw [List.eq_nil_of_length_eq_zero hlength.symm, List.append_nil]
    rfl
  | cons v vs ih =>
    cases news with
    | nil => cases hlength
    | cons a news =>
      show (run (vs.map append) news (as.insertIdx as.length a)).2 = _
      rw [ih (Nat.succ.inj hlength), List.insertIdx_length_self, List.append_assoc]
      rfl

end ListCall

theorem placeUpTo?_eq (n : Int32) (limit : Nat) :
    placeUpTo? n limit = if InRange n limit then some (n.toInt - 1).toNat else none := by
  rw [placeUpTo?, fromOne?]
  by_cases hn : 0 < n.toInt
  · rw [if_pos hn, Option.filter_some]
    by_cases hlt : n.toInt.toNat - 1 < limit
    · rw [decide_eq_true hlt, if_pos rfl, if_pos ⟨by omega, by omega⟩]
      exact congrArg some (by omega)
    · rw [decide_eq_false hlt, if_neg Bool.false_ne_true, if_neg fun hw ↦ hlt ?_]
      have hle := hw.2
      omega
  · rw [if_neg hn, Option.filter_none, if_neg fun hw ↦ hn hw.1]

/-! ## Arrays that are changed -/

namespace Heap

/-- An array in a variable after a change of the list of its elements.  If it shared neither its
block nor its list before, it has its list still, and the handles in it were changed in the same
way. -/
structure Edited (h : Heap Obj) (i : HandleId) (is : List HandleId) (edit : ListEdit)
    (v : Value Obj) (m : ListId) (js : List HandleId) (g : Heap Obj) : Prop where
  value : g.valueOf? i = some (.array m)
  elements : g.elements? m = some js
  seen : ¬ g.Endless → ∀ depth,
    Heap.seen depth g js = edit.apply (outline depth h v) (Heap.seen depth h is)
  kept : ∀ l, h.Owns i l → g.Owns i l ∧ m = l ∧ ∃ e, js = edit.apply e is

end Heap

namespace Scene

variable [HostObject Obj] {h g g' : Heap Obj} {xs ys : List Hold} {i : HandleId} {b : BlockId}
  {v : Value Obj} {l m : ListId} {is js added : List HandleId} {place : Nat}

/-- The block of an array is made its own, and the other operand does not lead there. -/
theorem At.openedClearing (ho : h.Operands xs i (.array l) v) :
    Ends (Heap.own i) h
      (fun b g ↦ Opened ho.sound i (.array l) [] [] b g ∧
        (ofEditor ho.sound i).Clears g v.holds (.block b)) fun _ _ ↦ True := by
  have hstart := at_ofEditor ho.sound i
  have ht := target_ofEditor ho.sound ho.held
  have hgiven : (ofEditor ho.sound i).Given [] v := ho.right
  have hclear : (ofEditor ho.sound i).Clears h v.holds (.handle i) := fun _ ↦ ho.apart
  have hown := hstart.ownClearing (calm_ofEditor ho.sound i) (ht.mem []) (ht.free h) ho.left
    False.elim (hclear.seenPast_of_given hstart hgiven)
  refine ((At.opened ho.sound ho.held ho.left).and hown).mono ?_ fun _ _ _ ↦ trivial
  exact fun b g ⟨hopened, _, hclear', _⟩ ↦ ⟨hopened, hclear'⟩

/-- It has the elements that it had. -/
theorem Opened.elements {hs : h.Sound xs} (hopened : Opened hs i (.array l) added ys b g)
    (his : h.elements? l = some is) : g.elements? l = some is := by
  have hthere := hopened.here.isSome_of_value hopened.owned.value _ (List.mem_singleton_self _)
  obtain ⟨js, hjs, -⟩ := hopened.here.exists_elements hthere
  have hborn := Heap.born_of_content? hs.tidy (Heap.content?_list.2 his)
  obtain rfl := Option.some.inj ((hopened.steady.lists l js hborn hjs).symm.trans his)
  exact hjs

/-- An array that is left as it is. -/
theorem Opened.stay (ho : h.Operands xs i (.array l) v)
    (hopened : Opened ho.sound i (.array l) added ys b g) (his : h.elements? l = some is) :
    h.Edited i is .stay v l is g := by
  have hlist := hopened.elements his
  have hborn := Heap.born_of_content? ho.sound.tidy (Heap.content?_list.2 his)
  have hvalue : g.valueOf? i = some (.array l) := by
    rw [Heap.valueOf?, hopened.block, Option.bind_some, hopened.owned.value]
  refine ⟨hvalue, hlist, fun _ depth ↦ ?_, fun l' howns ↦ ?_⟩
  · have hthere : (g.content? (.list l)).isSome :=
      Heap.isSome_of_elements? hlist
    have hsame : Heap.shape depth g (.list l) = Heap.shape depth h (.list l) :=
      (hopened.here.shown trivial _ hborn hthere).2 depth
    rwa [Heap.shape_list hlist, Heap.shape_list his] at hsame
  · have howns' := hopened.kept l' ho.grounded howns
    obtain ⟨b', w, hi, -, hb, hl, -⟩ := id howns'
    obtain rfl := Option.some.inj (hopened.block.symm.trans hi)
    obtain rfl := Option.some.inj (hopened.owned.value.symm.trans hb)
    exact ⟨howns', Option.some.inj hl, i, rfl⟩

/-- New handles for values leave the block of an array its own. -/
theorem Opened.made {hs : h.Sound xs} {made : List HandleId} {zs : List Hold}
    (hopened : Opened hs i (.array l) added ys b g) (ha' : (ofEditor hs i).At made zs g')
    (hg : g.Grows g' g.Unset) : Opened hs i (.array l) made zs b g' := by
  refine hopened.grows ha' hg (fun hu ↦ ?_) fun l' _ _ ↦ g.not_unset_list l'
  cases hu.symm.trans (Heap.content?_block.2 hopened.owned.value)

/-- A new handle for a copy of the other operand. -/
theorem Opened.bindCopy {α : Type} {f : HandleId → HeapM Obj α} {good : α → Heap Obj → Prop}
    (ho : h.Operands xs i (.array l) v) (hopened : Opened ho.sound i (.array l) [] [] b g)
    (hclear : (ofEditor ho.sound i).Clears g v.holds (.block b))
    (hf : ∀ fresh g', Opened ho.sound i (.array l) [fresh] [] b g' →
      (ofEditor ho.sound i).Bears g' fresh v (.block b) → Ends (f fresh) g' good fun _ _ ↦ True) :
    Ends (do f (← Heap.bindNew (← Heap.copy v))) g good fun _ _ ↦ True := by
  have hgiven : (ofEditor ho.sound i).Given [] v := ho.right
  have hthere := hopened.here.isSome_of_given hgiven
  have hi := hopened.here.isSome_of_mem ho.held
  refine Ends.bind (hopened.here.copy hthere).ends ?_
  rintro w g₁ ⟨hw, ha₁, hg₁⟩
  subst hw
  have ho₁ := hopened.grows ha₁ hg₁ (Value.not_block_mem_holds w b) fun l' hends howns ↦ by
    obtain ⟨b', w', hi, hblock, hb, hl, hone⟩ := hopened.kept l' hends howns
    exact hopened.here.not_given hgiven hi hblock hb hl hone
  refine Ends.bind ((ha₁.bindNew False.elim).mono (fun _ _ hh ↦ hh) fun _ _ _ ↦ trivial) ?_
  rintro fresh g₂ ⟨ha₂, hg₂, hvalue, hnew⟩
  have ho₂ := ho₁.made ha₂ hg₂
  have hbears := (hclear.holder hopened.block).bears hopened.here hthere hi
    (hg₁.toAdds.trans hg₂.toAdds) hvalue fun hn ↦ hnew (hg₁.quiet.born _ hn)
  exact hf fresh g₂ ho₂ (hbears.block ha₂ ho₂.block ho₂.owned.sole)

/-- **An array after a change** of the list that was made its own. -/
theorem Listed.edited (e : HandleId) (edit : ListEdit) (removed : List HandleId)
    (ho : h.Operands xs i (.array l) v) (hl : Listed ho.sound i (.array l) added [] b m js g)
    (his : h.elements? l = some is)
    (hperm : (edit.apply e js ++ removed).Perm (js ++ added))
    (hnew : ∀ depth, edit.apply (Heap.outline depth g (g.shown e)) (Heap.seen depth h is) =
      edit.apply (Heap.outline depth h v) (Heap.seen depth h is)) :
    h.Edited i is edit v m (edit.apply e js)
      ((g.withElements m (edit.apply e js)).release (handleHolds removed)) := by
  obtain ⟨hal, hseen⟩ := hl.editElements ho.held hperm rfl
  refine ⟨hal.valueOf?, hal.elements, fun hends depth ↦ ?_, fun l' howns ↦ ?_⟩
  · refine (hseen hends depth).trans ?_
    rw [← hnew, ← hl.seen ho.held ho.left rfl his]
    exact edit.map_apply _ e js
  · obtain ⟨rfl, rfl⟩ := hl.same ho.left rfl his ho.grounded howns
    exact ⟨hal.owns, rfl, e, rfl⟩

/-- An array whose list was made its own, and then left as it is. -/
theorem Listed.stay (ho : h.Operands xs i (.array l) v)
    (hl : Listed ho.sound i (.array l) added ys b m js g) (his : h.elements? l = some is) :
    h.Edited i is .stay v m js g := by
  refine ⟨hl.alone.valueOf?, hl.alone.elements, fun _ ↦ hl.seen ho.held ho.left rfl his,
    fun l' howns ↦ ?_⟩
  obtain ⟨rfl, rfl⟩ := hl.same ho.left rfl his ho.grounded howns
  exact ⟨hl.alone.owns, rfl, i, rfl⟩

/-- An element put in. -/
theorem Opened.insertAt (ho : h.Operands xs i (.array l) v)
    (hopened : Opened ho.sound i (.array l) [] [] b g)
    (hclear : (ofEditor ho.sound i).Clears g v.holds (.block b)) (his : h.elements? l = some is)
    (hplace : place ≤ is.length) :
    Ends (Heap.insertAt b place v) g
      (fun r g' ↦ r = .ofBool true ∧ ∃ m js, h.Edited i is (.insert place) v m js g')
      fun _ _ ↦ True := by
  rw [Heap.insertAt]
  refine hopened.bindCopy ho hclear fun fresh g₁ ho₁ hbears ↦ ?_
  refine Ends.bind (ho₁.ownListHolding rfl hbears) ?_
  rintro _ g₂ ⟨m, js, rfl, hl, hbears₂⟩
  have hvalue := (hbears₂ ho.grounded).1
  have hperm : (js.insertIdx place fresh ++ []).Perm (js ++ [fresh]) := by
    rw [List.append_nil]
    rw [← hl.length_eq ho.held ho.left rfl his] at hplace
    exact (List.perm_insertIdx fresh js hplace).trans (List.perm_append_singleton fresh js).symm
  refine Ends.after (Heap.look_eq hl.alone.elements)
    (.of_ok rfl ⟨rfl, m, js.insertIdx place fresh, ?_⟩)
  refine hl.edited fresh (.insert place) [] ho his hperm fun depth ↦ ?_
  rw [Heap.shown_eq hvalue, hl.outline_value ho hvalue]

/-- An element taken out. -/
theorem Opened.eraseAt (ho : h.Operands xs i (.array l) v)
    (hopened : Opened ho.sound i (.array l) [] [] b g) (his : h.elements? l = some is)
    (place : Nat) :
    Ends (do
        let removed ← Heap.removeAt b place
        Heap.letGo (handleHolds removed.toList)
        return some (Value.ofBool true : Value Obj)) g
      (fun r g' ↦ r = some (.ofBool true) ∧ ∃ m js, h.Edited i is (.erase place) v m js g')
      fun _ _ ↦ True := by
  have hremove : Ends (Heap.removeAt b place) g
      (fun r g' ↦ ∃ m js, h.Edited i is (.erase place) v m js (g'.release (handleHolds r.toList)))
      fun _ _ ↦ True := by
    rw [Heap.removeAt]
    refine Ends.after (Heap.look_eq hopened.owned.value) ?_
    refine Ends.bind (hopened.ownListIn rfl) ?_
    rintro _ g₁ ⟨m, js, rfl, hl⟩
    refine Ends.after (Heap.look_eq hl.alone.value) ?_
    refine Ends.after (Heap.look_eq hl.alone.elements)
      (Ends.after rfl (.pure ⟨m, js.eraseIdx place, ?_⟩))
    have hperm : (js.eraseIdx place ++ (js[place]?).toList).Perm (js ++ []) := by
      rw [List.append_nil]
      exact perm_eraseIdx js place
    exact hl.edited i (.erase place) _ ho his hperm fun _ ↦ rfl
  exact hremove.bind fun r g' hedited ↦ Ends.after rfl (.pure ⟨rfl, hedited⟩)

/-- Elements in another order that does not depend on what they are. -/
theorem Opened.reorder {hs : h.Sound xs} (hopened : Opened hs i (.array l) [] [] b g)
    (f : Heap Obj → List HandleId → List HandleId) :
    Ends (Heap.reorder b false f) g
      (fun r g' ↦ r = .ofBool true ∧ ∃ m js g₁, Listed hs i (.array l) [] [] b m js g₁ ∧
        g' = g₁.withElements m (f g₁ js))
      fun _ _ ↦ True := by
  refine Ends.bind (hopened.ownListIn rfl) ?_
  rintro _ g₁ ⟨m, js, rfl, hl⟩
  refine Ends.after (Heap.look_eq hl.alone.elements) ?_
  exact .of_ok rfl ⟨rfl, m, js, g₁, hl, rfl⟩

end Scene

namespace Heap

variable [HostObject Obj] {h g : Heap Obj} {xs : List Hold} {i : HandleId} {l : ListId}
  {is : List HandleId} {call : ListCall Obj}

/-- Calls a method that treats an array as a list. -/
def perform (i : HandleId) (call : ListCall Obj) : HeapM Obj (Option (Value Obj)) :=
  dispatch i call.method call.args

/-- The methods of arrays answer for an array. -/
theorem dispatch_array (hv : h.valueOf? i = some (.array l)) (m : Method)
    (args : List (Value Obj)) :
    dispatch i m args h = (do
      let b ← own i
      match ← readBlock b with
      | .array l => arrayMethod b (← elements l).length m args
      | _ => return none) h := by
  have hread : Heap.read i h = .ok (.array l) h := look_eq hv
  rw [Heap.dispatch]
  exact (bind_of_ok hread).trans (bind_of_ok hread)

theorem arrayMethod_insert (b : BlockId) (size : Nat) (n : Int32) (v : Value Obj) :
    arrayMethod b size .insert [.integer n, v] =
      if InRange n (size + 1) then (do return some (← insertAt b (n.toInt - 1).toNat v))
      else return some (.error indexOutOfRange) := by
  by_cases hn : InRange n (size + 1)
  · simp only [arrayMethod, placeUpTo?_eq, if_pos hn]
  · simp only [arrayMethod, placeUpTo?_eq, if_neg hn]

theorem arrayMethod_erase (b : BlockId) (size : Nat) (n : Int32) :
    (arrayMethod b size .erase [.integer n] : HeapM Obj _) =
      if InRange n size then (do
        let removed ← removeAt b (n.toInt - 1).toNat
        letGo (handleHolds removed.toList)
        return some (.ofBool true))
      else return some (.error indexOutOfRange) := by
  by_cases hn : InRange n size
  · simp only [arrayMethod, placeUpTo?_eq, if_pos hn]
  · simp only [arrayMethod, placeUpTo?_eq, if_neg hn]

/-- **A call does to an array what it does to a list.** -/
theorem Operands.perform (ho : h.Operands xs i (.array l) call.value)
    (his : h.elements? l = some is) :
    Ends (Heap.perform i call) h
      (fun r g ↦ r = some (call.answer is.length) ∧
        ∃ m js, h.Edited i is (call.edit is.length) call.value m js g)
      fun _ _ ↦ True := by
  refine .congr (dispatch_array ho.left _ _) ?_
  refine Ends.bind (Scene.At.openedClearing ho) fun b g ⟨hopened, hclear⟩ ↦ ?_
  have hstay {w : Value Obj} (hw : w = call.answer is.length)
      (hedit : call.edit is.length = .stay) :
      Ends (pure (some w)) g
        (fun r g ↦ r = some (call.answer is.length) ∧
          ∃ m js, h.Edited i is (call.edit is.length) call.value m js g)
        fun (_ : Fault) _ ↦ True := by
    refine .pure ⟨congrArg some hw, l, is, ?_⟩
    rw [hedit]
    exact hopened.stay ho his
  refine Ends.after (look_eq hopened.owned.value) (Ends.after (look_eq (hopened.elements his)) ?_)
  cases call with
  | size => exact hstay rfl rfl
  | has n =>
    refine hstay ?_ rfl
    rw [placeUpTo?_eq]
    by_cases hn : InRange n is.length
    · rw [if_pos hn, ListCall.answer, decide_eq_true hn]
      rfl
    · rw [if_neg hn, ListCall.answer, decide_eq_false hn]
      rfl
  | append v =>
    refine (hopened.insertAt ho hclear his (Nat.le_refl _)).bind ?_
    rintro _ g' ⟨rfl, hedited⟩
    exact .pure ⟨rfl, hedited⟩
  | insert n v =>
    show Ends (arrayMethod b is.length .insert [.integer n, v]) g _ _
    rw [arrayMethod_insert]
    by_cases hn : InRange n (is.length + 1)
    · have hle : (n.toInt - 1).toNat ≤ is.length := by
        have hlimit := hn.2
        omega
      rw [ListCall.answer, ListCall.edit, if_pos hn, if_pos hn, if_pos hn]
      refine (hopened.insertAt ho hclear his hle).bind ?_
      rintro _ g' ⟨rfl, hedited⟩
      exact .pure ⟨rfl, hedited⟩
    · rw [if_neg hn]
      exact hstay (if_neg hn).symm (if_neg hn)
  | erase n =>
    show Ends (arrayMethod b is.length .erase [.integer n]) g _ _
    rw [arrayMethod_erase]
    by_cases hn : InRange n is.length
    · rw [ListCall.answer, ListCall.edit, if_pos hn, if_pos hn, if_pos hn]
      exact hopened.eraseAt ho his _
    · rw [if_neg hn]
      exact hstay (if_neg hn).symm (if_neg hn)
  | reverse =>
    refine (hopened.reorder _).bind ?_
    rintro _ g' ⟨rfl, m, js, g₁, hl, rfl⟩
    have hperm : (js.reverse ++ []).Perm (js ++ []) := by
      rw [List.append_nil, List.append_nil]
      exact List.reverse_perm js
    exact .pure ⟨rfl, m, js.reverse, hl.edited i .reverse [] ho his hperm fun _ ↦ rfl⟩

/-- What a subscript gives: the element at a position, or an error that is no element.  The array is
left as it is. -/
def Subscripted (h : Heap Obj) (i : HandleId) (is : List HandleId) (v : Value Obj) (n : Int32)
    (r : HandleId) (g : Heap Obj) : Prop :=
  ∃ m js, h.Edited i is .stay v m js g ∧
    ((∃ place : Nat, n.toInt = place + 1 ∧ place < is.length ∧ js[place]? = some r) ∨
      ¬ InRange n is.length ∧ r ∉ js ∧ g.valueOf? r = some (.error indexOutOfBounds))

@[inherit_doc Subscripted]
theorem Operands.subscript {v : Value Obj} (ho : h.Operands xs i (.array l) v)
    (his : h.elements? l = some is) (n : Int32) :
    Ends (Heap.subscript i (.integer n)) h (h.Subscripted i is v n) fun _ _ ↦ True := by
  refine Ends.after (look_eq ho.left) ?_
  refine Ends.bind (Scene.At.opened ho.sound ho.held ho.left) fun b g hopened ↦ ?_
  have hlist := hopened.elements his
  refine Ends.after (look_eq hopened.owned.value) ?_
  by_cases hn : InRange n is.length
  · obtain ⟨place, hplace, hlt⟩ := inRange_iff.1 hn
    simp only [fromOne?_eq_some hplace]
    refine Ends.after (look_eq hlist) ?_
    rw [if_pos hlt]
    refine Ends.bind (hopened.ownListIn rfl) ?_
    rintro _ g₁ ⟨m, js, rfl, hl⟩
    obtain ⟨e, he⟩ : ∃ e, js[place]? = some e :=
      ⟨_, List.getElem?_eq_getElem (by rwa [hl.length_eq ho.held ho.left rfl his])⟩
    refine Ends.after (look_eq hl.alone.elements) ?_
    rw [he]
    have hthere := hl.here.isSome_of_element hl.alone.elements e (List.mem_of_getElem? he)
    exact .of_ok (share_eq e g₁)
      ⟨m, js, (hl.share hthere).stay ho his, .inl ⟨place, hplace, hlt, he⟩⟩
  · have hout : Ends (Heap.bindNew (.error indexOutOfBounds)) g (h.Subscripted i is v n)
        fun _ _ ↦ True := by
      have hbind := Scene.At.bindNew (v := .error indexOutOfBounds) hopened.here False.elim
      refine hbind.mono ?_ fun _ _ _ ↦ trivial
      rintro r g' ⟨ha', hg', hvalue, hnew⟩
      refine ⟨l, is, (hopened.made ha' hg').stay ho his, .inr ⟨hn, fun hmem ↦ hnew ?_, hvalue⟩⟩
      exact hopened.here.born (hopened.here.isSome_of_element hlist r hmem)
    cases hplace : fromOne? n with
    | none => exact hout
    | some place =>
      refine Ends.after (look_eq hlist) ?_
      rw [if_neg fun hlt ↦ hn ?_]
      · exact hout
      · rw [fromOne?] at hplace
        split at hplace
        · obtain rfl := Option.some.inj hplace
          exact ⟨by omega, by omega⟩
        · cases hplace

end Heap
end ScriptHeap
