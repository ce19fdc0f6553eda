import ScriptHeap.Heap.Member
import ScriptHeap.Proofs.Heap.Writing

/-!
# Members and elements

Reaching into the container of a variable.  The operations that only look make block and element
list the variable's own first, which nobody sees; those that change the container change what is
seen through the variable only.

## What is here

* `Scene.Target` — the variable that an operation works on.
* `Scene.At.getMember?`, `Scene.At.subscript` — look-ups; they keep a heap at every scene.
* `Scene.At.setMember?`, `Scene.At.assignElement` — with `keep` the element that is there is
  written, and nobody else may look from that one.
* `Scene.At.addMember`, `Scene.At.removeAt`, `Scene.At.removeMember` — members put in and taken out.
-/

set_option autoImplicit false
namespace ScriptHeap

variable {Obj : Type}

/-! ## Rearranged lists -/

theorem perm_set {α : Type} {as : List α} {n : Nat} {old : α} (a : α) (h : as[n]? = some old) :
    (as.set n a ++ [old]).Perm (as ++ [a]) := by
  induction as generalizing n with
  | nil => cases h
  | cons b as ih =>
    cases n with
    | zero =>
      obtain rfl : b = old := Option.some.inj h
      refine ((List.perm_append_singleton b as).cons a).trans ((List.Perm.swap b a as).trans ?_)
      exact ((List.perm_append_singleton a as).cons b).symm
    | succ n => exact (ih h).cons b

theorem perm_eraseIdx {α : Type} (as : List α) (n : Nat) :
    (as.eraseIdx n ++ (as[n]?).toList).Perm as := by
  induction as generalizing n with
  | nil => exact .refl _
  | cons b as ih =>
    cases n with
    | zero => exact List.perm_append_singleton b as
    | succ n => exact (ih n).cons b

/-! ## Members by number -/

namespace Heap

variable [HostObject Obj] {h : Heap Obj} {n : Nat} {name : String}

/-- A number leads to the member with the name of the number. -/
theorem getMemberById?_eq (hname : h.memberName? n = some name) (i : HandleId) :
    getMemberById? i n h = getMember? i name h := by
  rw [getMemberById?, bind_of_ok (Scene.get_eq h)]
  simp only [hname]

@[inherit_doc getMemberById?_eq]
theorem setMemberById?_eq (hname : h.memberName? n = some name) (i : HandleId) (v : Value Obj)
    (keep : Bool) : setMemberById? i n v keep h = setMember? i name v keep h := by
  rw [setMemberById?, bind_of_ok (Scene.get_eq h)]
  simp only [hname]

end Heap

namespace Scene

/-! ## Targets -/

/-- The variable that an operation works on. -/
structure Target [HostObject Obj] (c : Scene Obj) (i : HandleId) : Prop where
  held : Hold.handle i ∈ c.outside
  blocked : c.blocked i
  only : ∀ j l, c.tied j l → j = i

variable [HostObject Obj] {c : Scene Obj} {made : List HandleId} {ys : List Hold} {h : Heap Obj}
  {i : HandleId}

theorem Target.mem (ht : c.Target i) (ys : List Hold) : Hold.handle i ∈ ys ++ c.outside :=
  List.mem_append_right _ ht.held

theorem Target.free (ht : c.Target i) (h : Heap Obj) : c.Free h (.handle i) :=
  free_of_blocked ht.blocked h

theorem Target.isSome (ht : c.Target i) (ha : c.At made ys h) :
    (h.content? (.handle i)).isSome :=
  ha.isSome_of_mem (ht.mem ys)

theorem Target.exists_value (ht : c.Target i) (ha : c.At made ys h) :
    ∃ v, h.valueOf? i = some v := by
  obtain ⟨_, v, -, -, hv⟩ := ha.exists_value (ha.isSome_of_mem (ht.mem ys))
  exact ⟨v, hv⟩

/-- Where a list is to be kept, the element at a place may leave. -/
def Yields (c : Scene Obj) (h : Heap Obj) (place : Nat) : Prop :=
  ∀ i l, c.tied i l → ∀ is e, h.elements? l = some is → is[place]? = some e → c.leaves e

theorem Yields.steady {h' : Heap Obj} {place : Nat} (hy : c.Yields h place) (ha : c.At made ys h)
    (hs : h.Steady h') : c.Yields h' place :=
  fun i l ht is e his he ↦
    hy i l ht is e (hs.lists l is (ha.onward.born _ (tied_born ht).2) his) he

/-- Without circles a variable is no element of its own list. -/
theorem At.not_element {b : BlockId} {v : Value Obj} {l : ListId} {is : List HandleId}
    (ha : c.At made ys h) (hac : c.acyclic) (hi : h.blockOf? i = some b)
    (hb : h.valueAt? b = some v) (hl : v.list? = some l) (his : h.elements? l = some is) :
    i ∉ is :=
  fun hmem ↦ ha.blockOf?_ne_of_element hac hb hl his i hmem hi

theorem Target.own {v : Value Obj} (ht : c.Target i) (ha : c.At made ys h) (hcalm : c.Calm h)
    (hv : h.valueOf? i = some v) (hset : c.single → v ≠ .uninit) :
    Ends (Heap.own i) h
      (fun b h' ↦ c.At made ys h' ∧ h.Steady h' ∧ c.Owned h' b v ∧ c.Ready h' v)
      (c.Faults made ys) :=
  (ha.own hcalm (ht.mem ys) (ht.free h) hv hset).mono (fun _ _ hh ↦ ⟨hh.1, hh.2.1, hh.2.2.2⟩)
    fun _ _ hf ↦ hf

/-- The same, and a new handle that does not lead to the variable does not lead to its block. -/
theorem Target.ownHolding {v w : Value Obj} {e : HandleId} (ht : c.Target i)
    (ha : c.At (e :: made) ys h) (hcalm : c.Calm h) (hv : h.valueOf? i = some v)
    (hset : c.single → v ≠ .uninit) (hbears : c.Bears h e w (.handle i)) :
    Ends (Heap.holding [.handle e] (Heap.own i)) h
      (fun b h' ↦ c.At (e :: made) ys h' ∧ h.Steady h' ∧ h'.blockOf? i = some b ∧ c.Owned h' b v ∧
        c.Ready h' v ∧ c.Bears h' e w (.block b))
      (c.Faults made ys) := by
  refine At.holdingNew ((ha.ownClearing hcalm (ht.mem ys) (ht.free h) hv hset
    (hbears.clears.seenPast fun z hz ↦ ?_)).mono ?_ fun _ _ hf ↦ hf)
  · obtain rfl := List.mem_singleton.1 hz
    exact List.mem_append_left _ List.mem_cons_self
  · exact fun _ _ ⟨⟨ha', hsteady, hi, hown, hready⟩, hclear, hkeeps⟩ ↦
      ⟨ha', hsteady, hi, hown, hready, hclear.bears_of_keeps hbears hkeeps⟩

/-- The own list of a block, while a new handle is held that does not lead there. -/
theorem At.ownListHolding {b : BlockId} {v w : Value Obj} {e : HandleId}
    (ha : c.At (e :: made) ys h) (ho : c.Owned h b v) (hready : c.Ready h v)
    (hbears : c.Bears h e w (.block b)) :
    Ends (Heap.holding [.handle e] (Heap.ownListIn b)) h
      (fun r h' ↦ c.At (e :: made) ys h' ∧ h.Steady h' ∧
        ∀ m, r = some m → c.OwnedList h h' b v m ∧ c.Bears h' e w (.list m))
      (c.Faults made ys) := by
  refine At.holdingNew ((ha.ownListInClearing ho hready (fun z hz ↦ ?_) hbears.clears).mono ?_
    fun _ _ hf ↦ hf)
  · obtain rfl := List.mem_singleton.1 hz
    exact List.mem_append_left _ List.mem_cons_self
  · exact fun _ _ ⟨⟨ha', hsteady, hr, _⟩, hclear, hkeeps⟩ ↦
      ⟨ha', hsteady, fun m hm ↦ ⟨hr m hm, (hclear m hm).bears_of_keeps hbears hkeeps⟩⟩

/-- An element of the variable is not to keep a list. -/
theorem Target.loose_element {b : BlockId} {v : Value Obj} {l : ListId} {is : List HandleId}
    {e : HandleId} (ht : c.Target i) (ha : c.At made ys h) (hi : h.blockOf? i = some b)
    (hb : h.valueAt? b = some v) (hl : v.list? = some l) (his : h.elements? l = some is)
    (he : e ∈ is) (l' : ListId) : ¬ c.tied e l' := by
  intro htied
  obtain rfl := ht.only e l' htied
  exact ha.not_element (c.tied_before e l' htied).1 hi hb hl his he

/-! ## Looking -/

/-- A new handle for a value without elements. -/
theorem At.bindScalar (ha : c.At made ys h) (s : Scalar Obj) :
    Ends (Heap.bindNew (.scalar s)) h (fun e h' ↦ c.At made (.handle e :: ys) h')
      (c.Faults made ys) :=
  Ends.mono (At.bindNew (v := .scalar s) ha fun _ ↦ Heap.matched_scalar s)
    (fun _ _ hh ↦ hh.1.settle) fun _ _ hf ↦ hf

/-- What a look-up leaves: the reference that was found, for the caller to hold.  If there is none,
the variable may still be written: nothing was done, or block and list are its own now. -/
def Looked (c : Scene Obj) (made : List HandleId) (ys : List Hold) (h : Heap Obj) (i : HandleId)
    (r : Option HandleId) (h' : Heap Obj) : Prop :=
  c.At made (handleHolds r.toList ++ ys) h' ∧
    (r = none → h' = h ∨ ∃ v m, c.Prepared h' i v m)

/-- The element at a place. -/
theorem Target.element? {v : Value Obj} {l : ListId} (ht : c.Target i) (ha : c.At made ys h)
    (hcalm : c.Calm h) (hv : h.valueOf? i = some v) (hl : v.list? = some l) (place : Nat) :
    Ends (Heap.element? i place) h (c.Looked made ys h i) (c.Faults made ys) := by
  rw [Heap.element?]
  refine (ha.ownContainer hcalm (ht.mem ys) (ht.free h) hv
    fun _ ↦ Heap.ne_uninit_of_list? hl).bind fun r h₁ ⟨ha₁, hr, hnone⟩ ↦ ?_
  cases r with
  | none =>
    rw [hnone rfl] at hl
    cases hl
  | some l =>
    obtain ⟨⟨w, hprepared⟩, is, his⟩ := hr l rfl
    refine Ends.after (Heap.look_eq his) ?_
    cases he : is[place]? with
    | none => exact .pure ⟨ha₁, fun _ ↦ .inr ⟨w, l, hprepared⟩⟩
    | some e =>
      have hthere := ha₁.isSome_of_element his e (List.mem_of_getElem? he)
      exact Ends.after (Heap.share_eq e h₁) (.pure ⟨(ha₁.retainOne hthere).1, by simp⟩)

/-- The reference to a member. -/
theorem Target.getMember? (ht : c.Target i) (ha : c.At made ys h) (hcalm : c.Calm h)
    (name : String) :
    Ends (Heap.getMember? i name) h (c.Looked made ys h i) (c.Faults made ys) := by
  obtain ⟨v, hv⟩ := ht.exists_value ha
  have hnone : Ends (pure none : HeapM Obj (Option HandleId)) h (c.Looked made ys h i)
      (c.Faults made ys) := .pure ⟨ha, fun _ ↦ .inl rfl⟩
  have hscalar (s : Scalar Obj) : Ends (do return some (← Heap.bindNew (.scalar s))) h
      (c.Looked made ys h i) (c.Faults made ys) :=
    (ha.bindScalar s).bind fun _ _ ha₁ ↦ .pure ⟨ha₁, by simp⟩
  rw [Heap.getMember?]
  refine Ends.after (Heap.look_eq hv) ?_
  split
  · split
    · exact ht.element? ha hcalm hv rfl _
    · exact hnone
  · split
    · exact hscalar _
    · exact hnone
  · split
    · exact hscalar _
    · exact hnone
  · exact hnone

/-- A member by its name, an error when there is none. -/
theorem Target.memberOr (ht : c.Target i) (ha : c.At made ys h) (hcalm : c.Calm h)
    (name text : String) :
    Ends (do
        match ← Heap.getMember? i name with
        | some e => return e
        | none => Heap.bindNew (.error text)) h
      (fun e h' ↦ c.At made (.handle e :: ys) h') (c.Faults made ys) := by
  refine (ht.getMember? ha hcalm name).bind ?_
  rintro r h₁ ⟨ha₁, _⟩
  cases r with
  | some e => exact .pure ha₁
  | none => exact ha₁.bindScalar _

/-- `x[index]`. -/
theorem Target.subscript (ht : c.Target i) (ha : c.At made ys h) (hcalm : c.Calm h)
    (index : Value Obj) :
    Ends (Heap.subscript i index) h (fun e h' ↦ c.At made (.handle e :: ys) h')
      (c.Faults made ys) := by
  obtain ⟨v, hv⟩ := ht.exists_value ha
  rw [Heap.subscript]
  refine Ends.after (Heap.look_eq hv) ?_
  split
  · refine (ht.own ha hcalm hv fun _ ↦ Heap.ne_uninit_of_list? rfl).bind
      fun b h₁ ⟨ha₁, _, hown, hready⟩ ↦ ?_
    refine Ends.after (Heap.look_eq hown.value) ?_
    split
    · rename_i hl _
      cases hl
      have hthere := ha₁.isSome_of_value hown.value _ (List.mem_singleton_self _)
      obtain ⟨is, his, -⟩ := ha₁.exists_elements hthere
      refine Ends.after (Heap.look_eq his) ?_
      split
      · refine (ha₁.ownListIn hown hready).bind fun r h₂ ⟨ha₂, _, hr, _⟩ ↦ ?_
        cases r with
        | none => exact ha₂.bindScalar _
        | some m =>
          obtain ⟨js, hjs⟩ := (hr m rfl).exists_elements
          refine Ends.after (Heap.look_eq hjs) ?_
          split
          · rename_i e he
            have hthere := ha₂.isSome_of_element hjs e (List.mem_of_getElem? he)
            exact .of_ok (Heap.share_eq e h₂) (ha₂.retainOne hthere).1
          · exact ha₂.bindScalar _
      · exact ha₁.bindScalar _
    · exact ha₁.bindScalar _
  · exact ha.bindScalar _
  · exact ht.memberOr ha hcalm _ _
  · exact ht.memberOr ha hcalm _ _
  · exact ha.bindScalar _
  · split
    · exact ha.bindScalar _
    · exact ha.bindScalar _
  · exact ha.bindScalar _
  · exact ha.bindScalar _

/-! ## Parts of changes -/

section
variable {b : BlockId} {v : Value Obj} {e : HandleId}

/-- A new last member, a handle that is in no list yet. -/
theorem At.appendMember (ha : c.At (e :: made) ys h) (ho : c.Owned h b v) (hready : c.Ready h v)
    (name : String) (hwrites : ¬ c.reads) (hclear : c.Clears h (handleHolds [e]) (.block b)) :
    c.Leads (Heap.appendMember b name e) h (fun _ h' ↦ c.At made ys h') (c.Faults made ys) := by
  rw [Heap.appendMember]
  refine Leads.after (Heap.look_eq ho.value) ?_
  split
  · rename_i names l
    have hheld (z : Hold) (hz : z ∈ handleHolds [e]) :
        z ∈ handleHolds (e :: made) ++ (ys ++ c.outside) := by
      obtain rfl := List.mem_singleton.1 hz
      exact List.mem_append_left _ List.mem_cons_self
    refine Leads.bind (At.holdingNew (ha.ownListForClearing ho hready rfl hheld hclear))
      fun m h₁ ⟨hex, hclear₁⟩ ↦ ?_
    -- from here on no block is needed
    refine .of_not_exhausts (fun he ↦ ?_) fun hreads ↦ ?_
    · exact not_exhausts_look _ ((he.next rfl).first fun _ _ _ ↦ not_exhausts_of_ok rfl)
    obtain ⟨ha₁, -, ho₁, hown, ⟨is, js, his, hjs, hall⟩, -⟩ :=
      hex (.struct (names ++ [name]) m) rfl fun hu ↦ absurd (hreads hu) hwrites
    refine Ends.after rfl (Ends.after (Heap.look_eq hjs) (.of_ok rfl ?_))
    have ha₂ := ha₁.withMore [e] hjs (.refl _) hown.free (fun hu ↦ absurd (hreads hu) hwrites)
      (ha₁.fits_of_sole ho₁.value rfl hown.sole fun _ hb ↦ absurd rfl hb)
      (hclear₁ (.struct (names ++ [name]) m) rfl)
    refine ha₂.finish fun hr w hw ↦ ?_
    obtain rfl := Option.some.inj (ho₁.value.symm.trans hw)
    -- one name more and one element more
    obtain ⟨is', his', hlength⟩ :=
      ha.regular hr b _ (Option.some_ne_none b).symm ho.value names l rfl
    obtain rfl := Option.some.inj (his.symm.trans his')
    rintro _ _ ⟨⟩
    refine ⟨js ++ [e], Heap.elements?_withElements hjs _, ?_⟩
    rw [List.length_append, List.length_append, ← hall.length_eq, hlength]
    rfl
  · exact .of_ok rfl fun _ ↦ ha.settle.releaseOne

/-- The same where the handle is held besides. -/
theorem At.appendNew {w : Value Obj} (ha : c.At (e :: made) ys h) (ho : c.Owned h b v)
    (hready : c.Ready h v) (name : String) (hwrites : ¬ c.reads)
    (hbears : c.Bears h e w (.block b)) :
    c.Leads (do Heap.appendMember b name (← Heap.share e)) h
      (fun _ h' ↦ c.At made (.handle e :: ys) h') (c.Faults made (.handle e :: ys)) := by
  obtain ⟨ha₁, hg₁⟩ := ha.retainOne (ha.isSome_of_made List.mem_cons_self)
  refine Leads.after (Heap.share_eq e h) ?_
  exact ha₁.appendMember (ho.grows ha hg₁ (by simp)) (hready.grows ha ho.value hg₁ (by simp)) name
    hwrites (hbears.grows ha hg₁).clears

/-- A new handle in the place of an element. -/
theorem At.replaceElement {l : ListId} {is : List HandleId} (ha : c.At (e :: made) ys h)
    (hl : h.elements? l = some is) (hfree : c.Free h (.list l)) (place : Nat)
    (hwrites : ¬ c.reads) (hclear : c.Clears h (handleHolds [e]) (.list l))
    (hyields : c.Yields h place) {bad : Fault → Heap Obj → Prop} :
    c.Leads (Heap.replaceElement l place e) h (fun _ h' ↦ c.At made ys h') bad := by
  rw [Heap.replaceElement]
  refine Leads.after (Heap.look_eq hl) ?_
  split
  · rename_i old hold
    have hperm := perm_set e hold
    refine Leads.after rfl (.of_ok rfl fun hreads ↦ ?_)
    have ha₁ := At.withElements [e] ha hl hperm hfree (fun hu ↦ absurd (hreads hu) hwrites)
      (ha.fits_of_length hl List.length_set) hclear fun i ht e' he' ↦ by
        obtain rfl := List.mem_singleton.1 he'
        exact hyields i l ht is e' hl hold
    exact ha₁.release.1
  · exact .of_ok rfl fun _ ↦ ha.settle.releaseOne

/-- A copy of a value in an element that is there.  Nobody else may look from that one. -/
theorem At.assignExisting {fresh : HandleId}
    (ha : c.At made (.handle e :: .handle fresh :: ys) h) (hv : c.Given ys v)
    (hm : c.regular → h.Matched v) (hfull : c.FullAt h e) (hwrites : ¬ c.reads)
    (hclear : c.Clears h v.holds (.handle e)) (hloose : ∀ l, ¬ c.tied e l) :
    c.Leads (Heap.assignExisting e fresh v) h
      (fun r h' ↦ r = e ∧ (c.Free h (.handle e) → c.At made (.handle e :: ys) h'))
      (c.Faults made ys) := by
  have hthere := ha.isSome_of_given (hv.mono fun y hy ↦
    List.mem_cons_of_mem _ (List.mem_cons_of_mem _ hy))
  have hassign := ha.assign hthere hm (i := e) List.mem_cons_self hfull hwrites hclear hloose
  rw [Heap.assignExisting]
  have hheld : c.Leads (Heap.assign e v) h (fun _ h' ↦ c.Free h (.handle e) →
      c.At made ([.handle e, .handle fresh] ++ ys) h')
      (c.Faults made ([.handle e, .handle fresh] ++ ys)) := hassign
  refine Leads.andThen (At.leadsHolding hheld) (fun _ _ _ ↦ not_exhausts_of_ok rfl)
    fun _ h₁ hset ↦ ?_
  refine Ends.after rfl (.pure ⟨rfl, fun hfree ↦ ?_⟩)
  exact ((hset hfree).perm (.swap _ _ _)).releaseOne

/-- New handles without a value. -/
theorem At.newUninits (ha : c.At made ys h) (n : Nat) :
    Ends (Heap.newUninits n) h
      (fun js h' ↦ c.At (js ++ made) ys h' ∧ h.Grows h' h.Unset ∧ js.length = n ∧
        ∀ j ∈ js, h'.valueOf? j = some .uninit)
      (c.Faults made ys) := by
  cases n with
  | zero => exact .pure ⟨ha, .refl h _, rfl, fun j hj ↦ absurd hj List.not_mem_nil⟩
  | succ n =>
    rw [Heap.newUninits]
    refine ha.newUninit.bind fun first h₁ ⟨ha₁, hg₁, hvalue, _⟩ ↦ ?_
    have hfirst (i : HandleId) (hi : i ∈ List.replicate n first) : i = first :=
      (List.mem_replicate.1 hi).2
    obtain ⟨b, hb, hbv⟩ := Option.bind_eq_some_iff.1 hvalue
    refine Runs.bind (ha₁.duplicateAll fun i hi ↦ ?_) fun js h₂ ⟨ha₂, hg₂, hjs, _⟩ ↦ ?_
    · rw [hfirst i hi]
      exact ha₁.isSome_of_made List.mem_cons_self
    · refine .pure ⟨ha₂.permMade List.perm_middle, hg₁.trans hg₂ fun x hx ⟨i, hi, b', hb', he⟩ ↦ ?_,
        ?_, fun j hj ↦ ?_⟩
      · refine hg₁.unset hx ?_
        rw [hfirst i hi, hb] at hb'
        rw [he, ← Option.some.inj hb']
        exact Heap.content?_block.2 hbv
      · rw [List.length_cons, ← hjs.length_eq, List.length_replicate]
      · rcases List.mem_cons.1 hj with rfl | hj
        · rw [Heap.valueOf?, hg₂.blockOf? hb, Option.bind_some, hg₂.valueAt? hbv]
        · obtain ⟨i, hi, b', hb', hjb⟩ := Heap.exists_of_forall₂ hjs hj
          rw [hfirst i hi, hb] at hb'
          rw [Heap.valueOf?, hjb, ← Option.some.inj hb', Option.bind_some, hg₂.valueAt? hbv]

end

/-! ## Named members -/

/-- A reference that is given back.  If it was in a list before, nobody may look from there. -/
def Returned (c : Scene Obj) (made : List HandleId) (ys : List Hold) (keep : Bool)
    (r : Option HandleId) (h' : Heap Obj) : Prop :=
  (keep = true → ∀ e, r = some e → c.spared e → c.before.uses (.handle e) = 0) →
    c.At made (handleHolds r.toList ++ ys) h'

/-- A new variable with a copy of a value that is to go into a container.  Nothing else has
changed, and the new one does not lead to the container. -/
structure Brought (c : Scene Obj) (made : List HandleId) (ys : List Hold) (h : Heap Obj)
    (i : HandleId) (v w : Value Obj) (fresh : HandleId) (h' : Heap Obj) : Prop where
  here : c.At (fresh :: made) ys h'
  calm : c.Calm h'
  shows : h'.valueOf? i = some w
  steady : h.Steady h'
  matched : c.regular → h'.Matched v
  bears : c.Bears h' fresh v (.handle i)

/-- What comes after a copy of a value that is to go into a container. -/
theorem Target.bringCopy {α : Type} {good : α → Heap Obj → Prop} {f : HandleId → HeapM Obj α}
    (ht : c.Target i) (ha : c.At made ys h) (hcalm : c.Calm h) {v w : Value Obj}
    (hw : h.valueOf? i = some w) (hv : c.Given ys v) (hm : c.regular → h.Matched v)
    (hclear : c.Clears h v.holds (.handle i))
    (hf : ∀ fresh h', c.Brought made ys h i v w fresh h' →
      c.Leads (f fresh) h' good (c.Faults made ys)) :
    c.Leads (do f (← Heap.bindNew (← Heap.copy v))) h good (c.Faults made ys) := by
  have hthere := ha.isSome_of_given hv
  refine Leads.bind (ha.copy hthere).ends fun v' h₁ ⟨hv', ha₁, hg₁⟩ ↦ ?_
  subst hv'
  refine Leads.bind (ha₁.bindNew fun hr ↦ hg₁.matched (hm hr))
    fun fresh h₂ ⟨ha₂, hg₂, hvalue, hnew⟩ ↦ hf fresh h₂ ?_
  have hadds := hg₁.toAdds.trans hg₂.toAdds
  refine ⟨ha₂, hcalm.adds hadds ((hcalm.sole.copied ha hv hg₁).grows_unset ha₁ hg₂),
    hg₂.valueOf? (hg₁.valueOf? hw), (hg₁.quiet.trans hg₂.quiet).steady,
    fun hr ↦ hg₂.matched (hg₁.matched (hm hr)), ?_⟩
  exact hclear.bears ha hthere (ht.isSome ha) hadds hvalue fun hn ↦ hnew (hg₁.quiet.born _ hn)

/-- An element that is in the list already is written, and it is given back for the new one. -/
theorem Target.assignListed {e fresh : HandleId} {b : BlockId} {l : ListId} {is : List HandleId}
    {v w : Value Obj} (ht : c.Target i) (ha : c.At (fresh :: made) ys h)
    (hi : h.blockOf? i = some b) (hb : h.valueAt? b = some w) (hl : w.list? = some l)
    (hlist : c.OwnList h l) (his : h.elements? l = some is) (he : e ∈ is) (hv : c.Given ys v)
    (hm : c.regular → h.Matched v) (hwrites : ¬ c.reads) (hbears : c.Bears h fresh v (.list l)) :
    c.Leads (Heap.assignExisting e fresh v) (h.retainOne (.handle e))
      (fun r h' ↦ c.Returned made ys true (some r) h') (c.Faults made ys) := by
  have hthere := ha.isSome_of_element his e he
  obtain ⟨b', _, heb, -⟩ := ha.exists_value hthere
  obtain ⟨ha₁, hg₁⟩ := ha.retainOne hthere
  have ha₂ := (At.settle ha₁).perm (.swap _ _ _)
  have hfull : c.FullAt h e := fun b hb ↦ hlist.full_of_mem his he hb
  have hclear := (hbears.element ha his he).quiet ha (ha.isSome_of_given hv) hg₁.quiet
  refine (ha₂.assignExisting hv (fun hr ↦ hg₁.matched (hm hr)) (hfull.adds ha heb hg₁.toAdds)
    hwrites hclear (ht.loose_element ha hi hb hl his he)).mono (fun r h' ⟨hr, hset⟩ hspared ↦ ?_)
    fun _ _ hf ↦ hf
  subst hr
  exact hset (ha.free_mono (ha.free_element hlist.free (Heap.handle_mem_holdsOf his he)
    (hspared rfl _ rfl)) hg₁.onward)

/-- A new element is put in the place of one that is in the list, and it is held for the caller. -/
theorem At.shareInto {α : Type} (a : α) {fresh : HandleId} {l : ListId} {is : List HandleId}
    {v : Value Obj} (ha : c.At (fresh :: made) ys h) (hlist : c.OwnList h l)
    (his : h.elements? l = some is) (place : Nat) (hwrites : ¬ c.reads)
    (hbears : c.Bears h fresh v (.list l)) (hyields : c.Yields h place)
    {bad : Fault → Heap Obj → Prop} :
    c.Leads (do Heap.replaceElement l place (← Heap.share fresh); return a) h
      (fun r h' ↦ r = a ∧ c.At made (.handle fresh :: ys) h') bad := by
  obtain ⟨ha₁, hg₁⟩ := ha.retainOne (ha.isSome_of_made List.mem_cons_self)
  refine Leads.after (Heap.share_eq fresh h) ?_
  exact Leads.andThen (ha₁.replaceElement (hg₁.elements? his) (ha.free_mono hlist.free hg₁.onward)
    place hwrites (hbears.grows ha hg₁).clears (hyields.steady ha hg₁.quiet.steady))
    (fun _ _ _ ↦ not_exhausts_of_ok rfl) fun _ _ ha₂ ↦ .pure ⟨rfl, ha₂⟩

/-- **A member that is set.** -/
theorem Target.setMember? (ht : c.Target i) (ha : c.At made ys h) (hcalm : c.Calm h)
    (name : String) {v : Value Obj} (hv : c.Given ys v) (hm : c.regular → h.Matched v) (keep : Bool)
    (hwrites : ¬ c.reads) (hclear : c.Clears h v.holds (.handle i))
    (hyields : keep = false → ∀ w place, h.valueOf? i = some w →
      memberIndex? w.names name = some place → c.Yields h place) :
    c.Leads (Heap.setMember? i name v keep) h (c.Returned made ys keep) (c.Faults made ys) := by
  obtain ⟨w, hw⟩ := ht.exists_value ha
  rw [Heap.setMember?]
  refine Leads.after (Heap.look_eq hw) ?_
  split
  · refine ht.bringCopy ha hcalm hw hv hm hclear fun fresh h₁ hnew ↦ ?_
    refine Leads.bind
      (ht.ownHolding hnew.here hnew.calm hnew.shows (fun _ ↦ Heap.ne_uninit_of_list? rfl)
        hnew.bears)
      fun b h₂ ⟨ha₂, hsteady₂, hi₂, hown, hready, hbears₂⟩ ↦ ?_
    split
    · refine Leads.andThen (At.leadsHolding (ha₂.appendNew hown hready name hwrites hbears₂))
        (fun _ _ _ ↦ not_exhausts_of_ok rfl) fun _ h₃ ha₃ ↦ .pure fun _ ↦ ha₃
    · rename_i place hplace
      refine Leads.bind (ha₂.ownListHolding hown hready hbears₂)
        fun r h₃ ⟨ha₃, hsteady₃, hr⟩ ↦ ?_
      cases r with
      | none => exact .of_ends (.pure fun _ ↦ ha₃.settle)
      | some l =>
        obtain ⟨hown₃, hbears₃⟩ := hr l rfl
        obtain ⟨is, his⟩ := hown₃.exists_elements
        dsimp only
        split
        · rename_i hkeep
          refine Leads.after (Heap.look_eq his) ?_
          split
          · rename_i e he
            have hm₃ (hreg : c.regular) : h₃.Matched v :=
              (hsteady₂.trans hsteady₃).matched hnew.here.sound.tidy (hnew.matched hreg)
                (ha₃.isSome_of_given hv)
            refine Leads.after (Heap.share_eq e h₃) ?_
            refine Leads.andThen
              (ht.assignListed ha₃ (hown₃.blocks i b hi₂) hown₃.block.value hown₃.list? hown₃.list
                his (List.mem_of_getElem? he) hv hm₃ hwrites hbears₃)
              (fun _ _ _ ↦ not_exhausts_of_ok rfl) fun r h₄ hset ↦ .pure fun hspared ↦ ?_
            exact hset fun _ ↦ hspared hkeep
          · exact .of_ends (.pure fun _ ↦ ha₃.settle)
        · rename_i hkeep
          have hsteady := (hnew.steady.trans hsteady₂).trans hsteady₃
          have hplace₃ := (hyields (Bool.eq_false_iff.2 hkeep) _ place hw hplace).steady ha hsteady
          refine (ha₃.shareInto (some fresh) hown₃.list his place hwrites hbears₃ hplace₃).mono
            (fun r h₄ ⟨hr, ha₄⟩ _ ↦ ?_) fun _ _ hf ↦ hf
          rw [hr]
          exact ha₄
  · exact .of_ends (.pure fun _ ↦ ha)

theorem Target.getMemberById? (ht : c.Target i) (ha : c.At made ys h) (hcalm : c.Calm h)
    (n : Nat) : Ends (Heap.getMemberById? i n) h (c.Looked made ys h i) (c.Faults made ys) := by
  have hget : (get : HeapM Obj (Heap Obj)) h = .ok h h := rfl
  rw [Heap.getMemberById?]
  refine Ends.after hget ?_
  split
  · exact ht.getMember? ha hcalm _
  · exact .pure ⟨ha, fun _ ↦ .inl rfl⟩

theorem Target.setMemberById? (ht : c.Target i) (ha : c.At made ys h) (hcalm : c.Calm h) (n : Nat)
    {v : Value Obj} (hv : c.Given ys v) (hm : c.regular → h.Matched v) (keep : Bool)
    (hwrites : ¬ c.reads) (hclear : c.Clears h v.holds (.handle i))
    (hyields : keep = false → ∀ name w place, h.memberName? n = some name → h.valueOf? i = some w →
      memberIndex? w.names name = some place → c.Yields h place) :
    c.Leads (Heap.setMemberById? i n v keep) h (c.Returned made ys keep) (c.Faults made ys) := by
  have hget : (get : HeapM Obj (Heap Obj)) h = .ok h h := rfl
  rw [Heap.setMemberById?]
  refine Leads.after hget ?_
  split
  · rename_i name hname
    exact ht.setMember? ha hcalm name hv hm keep hwrites hclear
      fun hkeep w place ↦ hyields hkeep name w place hname
  · exact .of_ends (.pure fun _ ↦ ha)

/-- Interned names stand beside the cells. -/
theorem At.memberNumber (ha : c.At made ys h) (name : String) :
    Runs (Heap.memberNumber name) h fun _ h' ↦ c.At made ys h' := by
  have hs := ha.sound
  refine ⟨_, _, rfl, ?_⟩
  exact ha.quiet_of_uses_le ⟨fun _ hx ↦ hx, fun _ _ _ hk ↦ hk, fun _ hb ↦ hb⟩
    ⟨hs.tidy, hs.counted, hs.single, hs.blank, hs.blank_pool, hs.held⟩ (fun _ ↦ Nat.le_refl _)
    (Heap.not_endless_mono fun _ _ hw ↦ hw) fun _ _ hv ↦ .inl hv

/-- `.+`.  It makes the block of the variable its own even if no member can be added: where
variables without a value are to share a block, the variable must have one. -/
theorem Target.addMember {v : Value Obj} (ht : c.Target i) (ha : c.At made ys h) (hcalm : c.Calm h)
    (name : String) (hwrites : ¬ c.reads) (hv : h.valueOf? i = some v)
    (hset : c.single → v ≠ .uninit) :
    c.Leads (Heap.addMember i name) h (fun e h' ↦ c.At made (.handle e :: ys) h')
      (c.Faults made ys) := by
  rw [Heap.addMember]
  refine Leads.after (Heap.look_eq hv) ?_
  refine Leads.bind (ht.getMember? ha hcalm name) fun r h₁ ⟨ha₁, hready⟩ ↦ ?_
  cases r with
  | some e => exact .of_ends (.pure ha₁)
  | none =>
    refine Leads.bind (At.newUninit ha₁) fun member h₂ ⟨ha₂, hg₂, hvalue, hnew⟩ ↦ ?_
    have hbears : c.Bears h₂ member .uninit (.handle i) :=
      (Clears.of_nil rfl h₁ _).bears (v := .uninit) ha₁ (fun y hy ↦ absurd hy List.not_mem_nil)
        (ht.isSome ha₁) hg₂.toAdds hvalue hnew
    have hown : Ends (Heap.holding [.handle member] (Heap.own i)) h₂
        (fun b h' ↦ c.At (member :: made) ys h' ∧ ∃ w, c.Owned h' b w ∧ c.Ready h' w ∧
          c.Bears h' member .uninit (.block b))
        (c.Faults made ys) := by
      rcases hready rfl with rfl | ⟨w, m, hprepared⟩
      · have hcalm₂ := hcalm.adds hg₂.toAdds (hcalm.sole.grows_unset ha₁ hg₂)
        exact (ht.ownHolding ha₂ hcalm₂ (hg₂.valueOf? hv) hset hbears).mono
          (fun _ _ ⟨ha₃, _, _, hh⟩ ↦ ⟨ha₃, v, hh⟩) fun _ _ hf ↦ hf
      · refine At.holdingNew ((hprepared.grows ha₁ hg₂).own.mono
          (fun b h' ⟨hh, hi, ho, hready⟩ ↦ ?_) fun _ _ hf ↦ hf)
        subst hh
        exact ⟨ha₂, w, ho, hready, hbears.block ha₂ hi ho.sole⟩
    refine Leads.bind hown fun b h₃ ⟨ha₃, w, hown, hready, hbears₃⟩ ↦ ?_
    refine Leads.after (Heap.look_eq hown.value) ?_
    split
    · exact Leads.andThen (At.leadsHolding (ha₃.appendNew hown hready name hwrites hbears₃))
        (fun _ _ _ ↦ not_exhausts_of_ok rfl) fun _ h₄ ha₄ ↦ .pure ha₄
    · refine .of_ends (Ends.bind (At.holdingOne ((At.settle ha₃).bindScalar _))
        fun e h₄ ha₄ ↦ ?_)
      exact Ends.after rfl (.pure (ha₄.perm (.swap _ _ _)).releaseOne)

/-- An element taken out of a list that is its block's own.  The value in the block is written
already: it must match what is left. -/
theorem At.takeOut {b : BlockId} {w : Value Obj} {m : ListId} {js : List HandleId}
    (ha : c.At made ys h (some b)) (ho : c.Owned h b w) (hw : w.list? = some m)
    (hlist : c.OwnList h m) (hjs : h.elements? m = some js) (place : Nat)
    (hnames : c.regular → ∀ names, w = .struct names m →
      (js.eraseIdx place).length = names.length)
    (hseen : ¬ c.unseen) (hyields : c.Yields h place) :
    Ends (do
        let is ← Heap.elements m
        Heap.setElements m (is.eraseIdx place)
        return is[place]?) h
      (fun r h' ↦ c.At made (handleHolds r.toList ++ ys) h') (c.Faults made ys) := by
  have hperm : (js.eraseIdx place ++ (js[place]?).toList).Perm (js ++ []) := by
    rw [List.append_nil]
    exact perm_eraseIdx js place
  refine Ends.after (Heap.look_eq hjs) (Ends.after rfl (.pure ?_))
  have ha₁ := At.withElements [] ha hjs hperm hlist.free (fun hu ↦ absurd hu hseen)
    (ha.fits_of_sole ho.value hw hlist.sole fun _ hb ↦ absurd rfl hb) (.of_nil rfl h _)
    fun i ht e he ↦ hyields i m ht js e hjs (Option.mem_toList.1 he)
  refine ha₁.finish fun hr v hv names l he ↦ ?_
  obtain rfl := Option.some.inj (ho.value.symm.trans hv)
  subst he
  obtain rfl : l = m := Option.some.inj hw
  exact ⟨_, Heap.elements?_withElements hjs _, hnames hr names rfl⟩

omit [HostObject Obj] in
theorem not_exhausts_takeOut (m : ListId) (place : Nat) (h : Heap Obj) :
    ¬ Exhausts (do
        let is ← Heap.elements m
        Heap.setElements m (is.eraseIdx place)
        return is[place]?) h :=
  fun he ↦ not_exhausts_look h (he.first fun _ _ _ ↦ not_exhausts_of_ok rfl)

/-- An element taken out.  In a struct there must be a name for it. -/
theorem At.removeAt {b : BlockId} {v : Value Obj} (ha : c.At made ys h) (ho : c.Owned h b v)
    (hready : c.Ready h v) (place : Nat)
    (hplace : c.named → v.names ≠ [] → place < v.names.length) (hwrites : ¬ c.reads)
    (hyields : c.Yields h place) :
    c.Leads (Heap.removeAt b place) h (fun r h' ↦ c.At made (handleHolds r.toList ++ ys) h')
      (c.Faults made ys) := by
  rw [Heap.removeAt]
  refine Leads.after (Heap.look_eq ho.value) ?_
  dsimp only
  split
  · rename_i hunnamed
    exact .of_ends (.throw ⟨ha, fun hr ↦ absurd (hplace hr hunnamed.1) (Nat.not_lt.2 hunnamed.2)⟩)
  · refine Leads.bind (ha.ownListIn ho hready) fun r h₁ ⟨ha₁, hsteady, hr, _⟩ ↦ ?_
    cases r with
    | none => exact .of_ends (.pure ha₁)
    | some m =>
      obtain ⟨hown, hlist, ⟨l, hl, is, js, his, hjs, hall⟩, -⟩ := hr m rfl
      have hyields₁ := hyields.steady ha hsteady
      refine Leads.after (Heap.look_eq hown.value) ?_
      cases v with
      | scalar s => cases hl
      | array l' =>
        refine .of_not_exhausts (not_exhausts_takeOut _ _ _) fun hreads ↦ ?_
        refine (ha₁.write (some b)).takeOut hown rfl hlist hjs place ?_
          (fun hu ↦ hwrites (hreads hu)) hyields₁
        exact fun _ names he ↦ by cases he
      | struct names l' =>
        cases hl
        refine Leads.after rfl (.of_not_exhausts (not_exhausts_takeOut _ _ _) fun hreads ↦ ?_)
        have hseen : ¬ c.unseen := fun hu ↦ hwrites (hreads hu)
        obtain ⟨ha₂, hown₂, hsteady₂⟩ := (ha₁.write (some b)).withSame hown
          (w := .struct (names.eraseIdx place) m) rfl (fun hu ↦ absurd hu hseen)
          (fun _ hb ↦ absurd rfl hb) fun _ he ↦ absurd he (Heap.ne_uninit_of_list? rfl)
        refine ha₂.takeOut hown₂ rfl (hlist.withValue ha₁ hown) hjs place ?_ hseen
          (hyields₁.steady ha₁ hsteady₂)
        intro hreg names' he
        cases he
        obtain ⟨is', his', hlength⟩ :=
          ha.regular hreg b _ (Option.some_ne_none b).symm ho.value names _ rfl
        obtain rfl := Option.some.inj (his.symm.trans his')
        rw [List.length_eraseIdx, List.length_eraseIdx, ← hall.length_eq, hlength]

/-- `.-`. -/
theorem Target.removeMember (ht : c.Target i) (ha : c.At made ys h) (hcalm : c.Calm h)
    (name : String) (hwrites : ¬ c.reads)
    (hyields : ∀ w place, h.valueOf? i = some w → memberIndex? w.names name = some place →
      c.Yields h place) :
    c.Leads (Heap.removeMember i name) h (fun v h' ↦ v.holds = [] ∧ c.At made ys h')
      (c.Faults made ys) := by
  obtain ⟨v, hv⟩ := ht.exists_value ha
  rw [Heap.removeMember]
  refine Leads.after (Heap.look_eq hv) ?_
  split
  · refine Leads.bind (ht.own ha hcalm hv fun _ ↦ Heap.ne_uninit_of_list? rfl)
      fun b h₁ ⟨ha₁, hsteady, hown, hready⟩ ↦ ?_
    split
    · rename_i place hplace
      have hlt := (List.findIdx?_eq_some_iff_getElem.1 hplace).1
      refine Leads.andThen (ha₁.removeAt hown hready place (fun _ _ ↦ hlt) hwrites
        ((hyields _ place hv hplace).steady ha hsteady))
        (fun _ _ _ ↦ not_exhausts_of_ok rfl) fun r h₂ ha₂ ↦ ?_
      exact ha₂.letGo.bind fun _ h₃ hh ↦ .pure ⟨rfl, hh.1⟩
    · exact .of_ends (.pure ⟨rfl, ha₁⟩)
  · exact .of_ends (.pure ⟨rfl, ha⟩)

/-! ## Elements by position -/

theorem Heap.putElement_kept {h : Heap Obj} {l : ListId} {is : List HandleId} {place : Nat}
    {e : HandleId} (hl : h.elements? l = some is) (he : is[place]? = some e) (fresh : HandleId) :
    Heap.putElement l place fresh true h = .ok (some e) (h.retainOne (.handle e)) := by
  rw [Heap.putElement]
  refine (bind_of_ok (Heap.look_eq hl)).trans ?_
  rw [he]
  rfl

theorem Heap.eq_none_of_putElement {h t : Heap Obj} {l : ListId} {is : List HandleId} {place : Nat}
    {keep : Bool} {fresh : HandleId} {r : Option HandleId} (hl : h.elements? l = some is)
    (hkeep : keep = true → is[place]? = none)
    (hrun : Heap.putElement l place fresh keep h = .ok r t) : r = none := by
  rw [Heap.putElement] at hrun
  replace hrun := (bind_of_ok (Heap.look_eq hl)).symm.trans hrun
  cases he : is[place]? with
  | some e =>
    cases keep with
    | true => exact absurd (he.symm.trans (hkeep rfl)) (Option.some_ne_none e)
    | false =>
      rw [he] at hrun
      obtain ⟨_, _, -, hrun⟩ := bind_eq_ok_iff.1 hrun
      obtain ⟨_, _, -, hrun⟩ := bind_eq_ok_iff.1 hrun
      cases hrun
      rfl
  | none =>
    rw [he] at hrun
    obtain ⟨_, _, -, hrun⟩ := bind_eq_ok_iff.1 hrun
    obtain ⟨_, _, -, hrun⟩ := bind_eq_ok_iff.1 hrun
    obtain ⟨_, _, -, hrun⟩ := bind_eq_ok_iff.1 hrun
    cases hrun
    rfl

/-- A new handle at a place of a list, where no element is to be kept. -/
theorem At.putElement {fresh : HandleId} {b : BlockId} {l : ListId} {is : List HandleId}
    {place : Nat} {keep : Bool} (ha : c.At (fresh :: made) ys h) (ho : c.Owned h b (.array l))
    (hlist : c.OwnList h l) (hl : h.elements? l = some is) (hkeep : keep = true → is[place]? = none)
    (hwrites : ¬ c.reads) {w : Value Obj} (hbears : c.Bears h fresh w (.list l))
    (hyields : keep = false → c.Yields h place) :
    c.Leads (Heap.putElement l place fresh keep) h
      (fun r h' ↦ r = none ∧ c.At made (.handle fresh :: ys) h') (c.Faults (fresh :: made) ys) := by
  rw [Heap.putElement]
  refine Leads.after (Heap.look_eq hl) ?_
  split
  · rename_i e he
    have hreplaced : keep = false :=
      Bool.eq_false_iff.2 fun hk ↦ absurd (he.symm.trans (hkeep hk)) (Option.some_ne_none e)
    rw [hreplaced]
    exact ha.shareInto none hlist hl place hwrites hbears (hyields hreplaced)
  · refine Leads.bind (ha.newUninits _) fun gap h₁ ⟨ha₁, hg₁, _, hgap⟩ ↦ ?_
    have hthere := ha₁.isSome_of_made (List.mem_append_right gap List.mem_cons_self)
    obtain ⟨ha₂, hg₂⟩ := ha₁.retainOne hthere
    refine Leads.after (Heap.share_eq fresh h₁)
      (Leads.after rfl (.of_ok rfl fun hreads ↦ ⟨rfl, ?_⟩))
    have ha₃ : c.At ((gap ++ [fresh]) ++ made) (.handle fresh :: ys)
        (h₁.retainOne (.handle fresh)) := by
      rw [List.append_assoc]
      exact ha₂
    have hperm : (is ++ gap ++ [fresh]).Perm (is ++ (gap ++ [fresh])) := by
      rw [List.append_assoc]
    have hlist₁ := hlist.grows ha hg₁ (h.not_unset_list l)
    have hlist₂ := hlist₁.grows ha₁ hg₂ (by simp)
    -- what fills the gap has no elements
    have hclear₂ : c.Clears (h₁.retainOne (.handle fresh)) (handleHolds (gap ++ [fresh]))
        (.list l) := by
      intro hac y hy
      obtain ⟨j, hj, rfl⟩ := List.mem_map.1 hy
      rcases List.mem_append.1 hj with hj | hj
      · exact Clears.of_scalar (hg₂.valueOf? (hgap j hj)) rfl hac _ (List.mem_singleton_self _)
      · obtain rfl := List.mem_singleton.1 hj
        have hthere (z : Hold) (hz : z ∈ handleHolds [j]) : (h.content? z).isSome := by
          obtain rfl := List.mem_singleton.1 hz
          exact ha.isSome_of_made List.mem_cons_self
        exact hbears.clears.quiet ha hthere (hg₁.toAdds.trans hg₂.toAdds).quiet hac _
          (List.mem_singleton_self _)
    exact ha₃.withMore (gap ++ [fresh]) (hg₂.elements? (hg₁.elements? hl)) hperm
      hlist₂.free (fun hu ↦ absurd (hreads hu) hwrites)
      (ha₃.fits_of_sole (hg₂.valueAt? (hg₁.valueAt? ho.value)) rfl hlist₂.sole
        fun _ _ ↦ Heap.matched_array l) hclear₂

/-- The element at a place is set, when the array can hold it. -/
theorem Target.assignAt (ht : c.Target i) (ha : c.At made ys h) (hcalm : c.Calm h) (place : Nat)
    {v w : Value Obj} (hw : h.valueOf? i = some w) (hset : c.single → w ≠ .uninit)
    (hv : c.Given ys v) (hm : c.regular → h.Matched v) (keep : Bool)
    (hwrites : ¬ c.reads) (hclear : c.Clears h v.holds (.handle i))
    (hyields : keep = false → c.Yields h place) :
    c.Leads (do
      let fresh ← Heap.bindNew (← Heap.copy v)
      let b ← Heap.holding [.handle fresh] (Heap.own i)
      match ← Heap.readBlock b with
      | .array _ =>
        match ← Heap.holding [.handle fresh] (Heap.ownListIn b) with
        | none => return fresh
        | some l =>
          match ← Heap.holding [.handle fresh] (Heap.putElement l place fresh keep) with
          | some e => Heap.assignExisting e fresh v
          | none => return fresh
      | _ => return fresh) h
    (fun e h' ↦ c.Returned made ys keep (some e) h') (c.Faults made ys) := by
  refine ht.bringCopy ha hcalm hw hv hm hclear fun fresh h₁ hnew ↦ ?_
  refine Leads.bind (ht.ownHolding hnew.here hnew.calm hnew.shows hset hnew.bears)
    fun b h₂ ⟨ha₂, hsteady₂, hi₂, hown, hready, hbears₂⟩ ↦ ?_
  refine Leads.after (Heap.look_eq hown.value) ?_
  split
  · refine Leads.bind (ha₂.ownListHolding hown hready hbears₂)
      fun r h₃ ⟨ha₃, hsteady₃, hr⟩ ↦ ?_
    cases r with
    | none => exact .of_ends (.pure fun _ ↦ ha₃.settle)
    | some l =>
      obtain ⟨hown₃, hbears₃⟩ := hr l rfl
      obtain ⟨is, his⟩ := hown₃.exists_elements
      by_cases hkept : keep = true ∧ ∃ e, is[place]? = some e
      · -- the element that is there is written
        obtain ⟨rfl, e, he⟩ := hkept
        have hm₃ (hreg : c.regular) : h₃.Matched v :=
          (hsteady₂.trans hsteady₃).matched hnew.here.sound.tidy (hnew.matched hreg)
            (ha₃.isSome_of_given hv)
        refine Leads.after (tryCatch_of_ok (Heap.putElement_kept his he fresh)) ?_
        exact ht.assignListed ha₃ (hown₃.blocks i b hi₂) hown₃.block.value rfl hown₃.list his
          (List.mem_of_getElem? he) hv hm₃ hwrites hbears₃
      · have hkeep (hk : keep = true) : is[place]? = none :=
          Option.eq_none_iff_forall_ne_some.2 fun e he ↦ hkept ⟨hk, e, he⟩
        have hsteady := (hnew.steady.trans hsteady₂).trans hsteady₃
        refine Leads.andThen (At.leadsHoldingNew (ha₃.putElement hown₃.block hown₃.list his hkeep
          hwrites hbears₃ fun hk ↦ (hyields hk).steady ha hsteady)) (fun r h₄ hrun ↦ ?_)
          fun r h₄ ⟨hr, ha₄⟩ ↦ ?_
        · rw [Heap.eq_none_of_putElement his hkeep (Heap.ok_of_holding hrun)]
          exact not_exhausts_of_ok rfl
        · rw [hr]
          exact .pure fun _ ↦ ha₄
  · exact .of_ends (.pure fun _ ↦ ha₂.settle)

/-- **An element that is set.** -/
theorem Target.assignElement (ht : c.Target i) (ha : c.At made ys h) (hcalm : c.Calm h)
    (index : Int32) {v : Value Obj} (hv : c.Given ys v) (hm : c.regular → h.Matched v) (keep : Bool)
    (hwrites : ¬ c.reads) (hclear : c.Clears h v.holds (.handle i))
    (hyields : keep = false → ∀ place, fromOne? index = some place → c.Yields h place) :
    c.Leads (Heap.assignElement i index v keep) h (fun e h' ↦ c.Returned made ys keep (some e) h')
      (c.Faults made ys) := by
  obtain ⟨w, hw⟩ := ht.exists_value ha
  have herror (text : String) :
      c.Leads (Heap.bindNew (.error text)) h (fun e h' ↦ c.Returned made ys keep (some e) h')
        (c.Faults made ys) :=
    .of_ends ((ha.bindScalar _).mono (fun _ _ ha₁ _ ↦ ha₁) fun _ _ hf ↦ hf)
  rw [Heap.assignElement]
  refine Leads.after (Heap.look_eq hw) ?_
  dsimp only
  split
  · exact herror _
  rename_i hkind
  have hset (_ : c.single) : w ≠ .uninit := by
    rintro rfl
    exact hkind rfl
  split
  · exact herror _
  rename_i place hplace
  refine Leads.after (Heap.look_eq hw) ?_
  split
  · rename_i l hl
    obtain ⟨_, w', -, hwb, hw'⟩ := ha.exists_value (ha.isSome_of_mem (ht.mem ys))
    obtain rfl := Option.some.inj (hw.symm.trans hw')
    obtain ⟨is, his, -⟩ := ha.exists_elements_of_list? (ha.isSome_of_value hwb) hl
    refine Leads.after (Heap.look_eq his) (Leads.after rfl ?_)
    split
    · exact herror _
    · exact ht.assignAt ha hcalm place hw hset hv hm keep hwrites hclear fun hk ↦
        hyields hk place hplace
  · refine Leads.after rfl ?_
    split
    · exact herror _
    · exact ht.assignAt ha hcalm place hw hset hv hm keep hwrites hclear fun hk ↦
        hyields hk place hplace

end Scene
end ScriptHeap
