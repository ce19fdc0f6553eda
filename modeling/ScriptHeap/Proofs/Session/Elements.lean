import ScriptHeap.Proofs.Session.Target

/-!
# Steps on elements

What can be done with the elements of a container besides what operators and methods do.  Looking at
an element does not touch the container; asking for one that is to be written through, or for new
handles, makes block and list the variable's own, which nobody sees.

## What is here

* `Scene.Target.renewElements`, `Scene.Target.extendElements`, … — the operations on the heap.
* `Scene.Begins.applyElements` — a step on elements leads to its end.
-/

set_option autoImplicit false
namespace ScriptHeap

variable {Obj : Type} [HostObject Obj]

namespace Scene

variable {c : Scene Obj} {made : List HandleId} {xs ys : List Hold} {h : Heap Obj} {i : HandleId}
  {s : Session Obj}

/-! ## Operations on the heap -/

/-- New handles for all elements. -/
theorem Target.renewElements (ht : c.Target i) (ha : c.At made ys h) (hcalm : c.Calm h)
    {v : Value Obj} (hv : h.valueOf? i = some v) (hset : c.single → v ≠ .uninit)
    (hloose : ∀ l, ¬ c.tied i l) :
    Ends (Session.renewElements i) h (fun _ h' ↦ c.At made ys h') (c.Faults made ys) := by
  rw [Session.renewElements]
  refine (ht.own ha hcalm hv hset).bind fun b h₁ ⟨ha₁, _, hown, hready⟩ ↦ ?_
  refine Ends.after (Heap.look_eq hown.value) ?_
  split
  · rename_i l hl
    obtain ⟨is, his, -⟩ := ha₁.exists_elements_of_list? (ha₁.isSome_of_value hown.value) hl
    refine Ends.after (Heap.look_eq his) ?_
    refine (ha₁.ensureApart fun hac ↦ ha₁.blockOf?_ne_of_element hac hown.value hl his).bind
      fun _ h₂ ⟨hh₂, hapart⟩ ↦ ?_
    rw [hh₂]
    obtain ⟨m, h₃, hrun, -, -, ⟨_, js, his', hm, hjs⟩, -, hput⟩ :=
      ha₁.freshList hown hready hl his hapart fun j htied ↦ by
        obtain rfl := ht.only j l htied
        exact hloose l htied
    obtain ⟨_, _, hrun₁, hrun₂⟩ := bind_eq_ok_iff.1 hrun
    obtain ⟨ha₃, -, ho₃, -⟩ := hput _ (Heap.list?_withList hl m) fun _ ↦ rfl
    have ha₄ : c.At made ([.list l] ++ ys) (h₃.withValue b (v.withList m)) := by
      refine ha₃.finish fun hr w hw ↦ ?_
      obtain rfl := Option.some.inj (ho₃.value.symm.trans hw)
      have hshared : h₁.Shared (h₃.withValue b (v.withList m)) l m := ⟨_, js, his', hm, hjs⟩
      exact hshared.matched hl (ha₁.regular hr b v (Option.some_ne_none b).symm hown.value)
    refine Ends.after hrun₁ (Ends.after hrun₂ (Ends.after rfl ?_))
    exact Runs.ends (ha₄.letGo.mono fun _ _ hh ↦ hh.1)
  · exact .pure ha₁

/-- Copies of the elements of another container put last.  In a struct they would have no names. -/
theorem Target.extendElements (ht : c.Target i) (ha : c.At made ys h) (hcalm : c.Calm h)
    {v w : Value Obj} (hw : h.valueOf? i = some w) (hset : c.single → w ≠ .uninit)
    (hv : c.Given ys v) (harray : c.regular → ∀ names l, h.valueOf? i ≠ some (.struct names l))
    (hwrites : ¬ c.reads) (hclear : c.Clears h v.holds (.handle i)) :
    c.Leads (Session.extendElements i v) h (fun _ h' ↦ c.At made ys h') (c.Faults made ys) := by
  rw [Session.extendElements]
  refine Leads.bind (ha.ownClearing hcalm (ht.mem ys) (ht.free h) hw hset
    (hclear.seenPast_of_given ha hv)) ?_
  rintro b h₁ ⟨⟨ha₁, -, hi, hown, hready⟩, hclear₁, -⟩
  refine Leads.after (Heap.look_eq hown.value) ?_
  split
  · rename_i other hcontainer hother
    obtain ⟨is, his, hthere⟩ := ha₁.exists_elements_of_list? (ha₁.isSome_of_given hv) hother
    refine Leads.after (Heap.look_eq his) ?_
    have hends (hac : c.acyclic) (e : HandleId) (he : e ∈ is) : h₁.blockOf? e ≠ some b := by
      intro heb
      rw [Heap.holds_of_list? hother] at hclear₁
      have helement : Hold.handle e ∈ h₁.holdsOf (.list other) :=
        Heap.handle_mem_holdsOf his he
      exact hclear₁ hac _ (List.mem_singleton_self _)
        (((Heap.Reaches.refl _ _).next helement).next (Heap.mem_holdsOf_of_blockOf? heb))
    refine Leads.bind (ha₁.ensureApart hends) ?_
    rintro _ h₂ ⟨rfl, hapart⟩
    refine Leads.bind (ha₁.duplicateAll hthere).ends ?_
    rintro added h₃ ⟨ha₃, hg₃, hadded, hnew, -⟩
    have hown₃ : c.Owned h₃ b w := by
      refine hown.grows ha₁ hg₃ ?_
      rintro ⟨j, hj, b', hb', he⟩
      cases he
      exact hapart j hj hb'
    have hready₃ := hready.grows ha₁ hown.value hg₃ (by simp)
    have hclear₃ : c.Clears h₃ (handleHolds added) (.block b) := by
      rw [Heap.holds_of_list? hother] at hclear₁
      refine ((hclear₁.holder hi).duplicates ha₁ (ht.isSome ha₁) his hg₃ hnew hadded).block ha₃
        (hg₃.blockOf? hi) hown₃.sole (Heap.not_block_mem_handleHolds _ b)
    have hheld (z : Hold) (hz : z ∈ handleHolds added) :
        z ∈ handleHolds (added ++ made) ++ (ys ++ c.outside) := by
      refine List.mem_append_left _ ?_
      rw [handleHolds, List.map_append]
      exact List.mem_append_left _ hz
    refine Leads.bind (At.holdingMade (ha₃.ownListInClearing hown₃ hready₃ hheld hclear₃)) ?_
    rintro r h₄ ⟨⟨ha₄, -, hr, -⟩, hclear₄, -⟩
    cases r with
    | some m =>
      have hlist := hr m rfl
      obtain ⟨js, hjs⟩ := hlist.exists_elements
      refine Leads.after (Heap.look_eq hjs) (.of_ok rfl fun hreads ↦ ?_)
      refine ha₄.withMore added hjs (.refl _) hlist.list.free
        (fun hu ↦ absurd (hreads hu) hwrites) ?_ (hclear₄ m rfl)
      refine ha₄.fits_of_sole hlist.block.value hlist.list? hlist.list.sole fun hreg _ ↦ ?_
      cases w with
      | scalar s => exact Heap.matched_scalar s
      | array l => exact Heap.matched_array m
      | struct names l => exact absurd hw (harray hreg names l)
    | none => exact .of_ends (Runs.ends (ha₄.settleAll.letGo.mono fun _ _ hh ↦ hh.1))
  · exact .of_ends (.pure ha₁)

/-- The first element put last. -/
theorem Target.rotateElements (ht : c.Target i) (ha : c.At made ys h) (hcalm : c.Calm h)
    {v : Value Obj} (hv : h.valueOf? i = some v) (hset : c.single → v ≠ .uninit)
    (hwrites : ¬ c.reads) :
    c.Leads (Session.rotateElements i) h (fun _ h' ↦ c.At made ys h') (c.Faults made ys) := by
  rw [Session.rotateElements]
  refine Leads.bind (ha.ownContainer hcalm (ht.mem ys) (ht.free h) hv hset)
    fun r h₁ ⟨ha₁, hr, _⟩ ↦ ?_
  cases r with
  | none => exact .of_ends (.pure ha₁)
  | some l =>
    obtain ⟨⟨v, hprepared⟩, is, his⟩ := hr l rfl
    refine Leads.after (Heap.look_eq his) ?_
    split
    · rename_i first rest
      refine .of_ok rfl fun hreads ↦ ?_
      have hperm : (rest ++ [first]).Perm ((first :: rest) ++ []) := by
        rw [List.append_nil]
        exact List.perm_append_singleton first rest
      have ha₁' : c.At ([] ++ made) ys h₁ := ha₁
      refine ha₁'.withMore [] his hperm hprepared.list.free
        (fun hu ↦ absurd (hreads hu) hwrites) ?_ (.of_nil rfl _ _)
      exact ha₁.fits_of_length his (List.perm_append_singleton first rest).length_eq
    · exact .of_ends (.pure ha₁)

/-- The element at a place taken out. -/
theorem Target.removeElement (ht : c.Target i) (ha : c.At made ys h) (hcalm : c.Calm h)
    {v : Value Obj} (hv : h.valueOf? i = some v) (hset : c.single → v ≠ .uninit) (place : Nat)
    (hnamed : c.named → c.regular) (hwrites : ¬ c.reads) (hyields : c.Yields h place) :
    c.Leads (Session.removeElement i place) h
      (fun r h' ↦ c.At made (handleHolds r.toList ++ ys) h') (c.Faults made ys) := by
  rw [Session.removeElement]
  refine Leads.bind (ht.own ha hcalm hv hset) fun b h₁ ⟨ha₁, hsteady, hown, hready⟩ ↦ ?_
  refine Leads.after (Heap.look_eq hown.value) ?_
  split
  · rename_i l hl
    obtain ⟨is, his, -⟩ := ha₁.exists_elements_of_list? (ha₁.isSome_of_value hown.value) hl
    refine Leads.after (Heap.look_eq his) ?_
    split
    · rename_i hlt
      refine ha₁.removeAt hown hready place (fun hn hnames ↦ ?_) hwrites
        (hyields.steady ha hsteady)
      cases v with
      | scalar s => cases hl
      | array l' => exact absurd rfl hnames
      | struct names l' =>
        cases hl
        obtain ⟨is', his', hlength⟩ :=
          ha₁.regular (hnamed hn) b _ (Option.some_ne_none b).symm hown.value names _ rfl
        obtain rfl := Option.some.inj (his.symm.trans his')
        exact hlt.trans_eq hlength
    · exact .of_ends (.pure ha₁)
  · exact .of_ends (.pure ha₁)

/-! ## Elements as they are -/

/-- The elements of a container, which are there. -/
theorem Stands.elementsOf (hs : c.Stands xs ys s) (ht : c.Target i) :
    Ends (Session.elementsOf i) s
      (fun is t ↦ t = s ∧ ∀ e ∈ is, (s.heap.content? (.handle e)).isSome) (c.Fails xs) := by
  obtain ⟨_, v, -, hb, hv⟩ := hs.here.exists_value (hs.here.isSome_of_mem (ht.mem ys))
  have hread : Session.listOf? i s = .ok v.list? s :=
    bind_of_ok (Session.onHeap_of_ok (Heap.look_eq hv))
  refine Ends.after hread ?_
  cases hl : v.list? with
  | none => exact .pure ⟨rfl, fun e he ↦ absurd he List.not_mem_nil⟩
  | some l =>
    obtain ⟨is, his, hthere⟩ :=
      hs.here.exists_elements_of_list? (hs.here.isSome_of_value hb) hl
    exact Ends.of_ok (Session.onHeap_of_ok (Heap.look_eq his)) ⟨rfl, hthere⟩

/-- An element of a list, for the caller to hold. -/
theorem Stands.holdElement (hs : c.Stands xs [] s) {is : List HandleId}
    (hthere : ∀ e ∈ is, (s.heap.content? (.handle e)).isSome) (place : Option Nat) :
    Ends (do
        Session.onHeap (Heap.hold (referenceHolds (place.bind (is[·]?))))
        return place.bind (is[·]?)) s
      (fun r t ↦ c.Stands xs (referenceHolds r ++ []) t) (c.Fails xs) := by
  have hpresent : ∀ x ∈ referenceHolds (place.bind (is[·]?)), (s.heap.content? x).isSome := by
    intro x hx
    obtain ⟨e, he, rfl⟩ := List.mem_map.1 hx
    obtain ⟨n, -, hn⟩ := Option.bind_eq_some_iff.1 (Option.mem_toList.1 he)
    exact hthere e (List.mem_of_getElem? hn)
  refine (hs.runs_onHeap (hs.here.hold hpresent)).bind ?_
  rintro _ _ ⟨h, rfl, ha, -⟩
  exact .pure (hs.withHeap ha)

/-- The element at a place. -/
theorem Stands.elementAt (hs : c.Stands xs [] s) (ht : c.Target i) (place : Option Nat) :
    Ends (Session.elementAt i place) s (fun r t ↦ c.Stands xs (referenceHolds r ++ []) t)
      (c.Fails xs) := by
  refine (hs.elementsOf ht).bind ?_
  rintro is t ⟨rfl, hthere⟩
  exact hs.holdElement hthere place

/-- The element at a place, to be written through. -/
theorem Stands.ownElementAt (hs : c.Stands xs [] s) (hcalm : c.Calm s.heap) (ht : c.Target i)
    {v : Value Obj} (hv : s.heap.valueOf? i = some v) (hset : c.single → v ≠ .uninit)
    (place : Option Nat) :
    Ends (Session.ownElementAt i place) s (fun r t ↦ c.Stands xs (referenceHolds r ++ []) t)
      (c.Fails xs) := by
  rw [Session.ownElementAt]
  refine (hs.ends_onHeap (ht.own hs.here hcalm hv hset)).bind ?_
  rintro b _ ⟨h, rfl, ha, -, hown, hready⟩
  have hs₁ := hs.withHeap ha
  split
  · rename_i place
    refine (hs₁.elementsOf ht).bind ?_
    rintro is t ⟨rfl, -⟩
    split
    · refine (hs₁.ends_onHeap (ha.ownListIn hown hready)).bind ?_
      rintro r _ ⟨h₂, rfl, ha₂, -, hr, -⟩
      cases r with
      | none => exact .pure (hs.withHeap ha₂)
      | some l =>
        obtain ⟨js, hjs⟩ := (hr l rfl).exists_elements
        have hs₂ := hs₁.withHeap ha₂
        refine Ends.after (Session.onHeap_of_ok (Heap.look_eq hjs)) ?_
        exact hs₂.holdElement (ha₂.isSome_of_element hjs) (some place)
    · exact .pure hs₁
  · exact .pure hs₁

/-! ## Steps -/

/-- What a register refers to is there. -/
theorem Begins.isSome_of_reference (hs : c.Begins xs ys s) {r : String} {i : HandleId}
    (hr : s.references.get? r = some (some i)) : (s.heap.content? (.handle i)).isSome :=
  hs.isSome (Session.mem_holds_of_reference hr)

/-- A step that only looks at a variable. -/
theorem Begins.lookOn (hs : c.Begins xs [] s) {r : String} {α : Type}
    {act : HandleId → SessionM Obj α} (haims : c.Aims (s.references.get? r).join)
    (hact : ∀ i, (s.heap.content? (.handle i)).isSome → Looking (act i) s) :
    c.Performs xs (Session.deref r >>= act) s :=
  hs.onTarget haims fun i hr _ ↦ ((hact i (hs.isSome_of_reference hr)).plays hs.stands).performs

/-- A step that delivers an element of a variable. -/
theorem Begins.deliverFrom (hs : c.Begins xs [] s) {r : String} {into : Option String}
    {act : HandleId → SessionM Obj (Option HandleId)} (haims : c.Aims (s.references.get? r).join)
    (hact : ∀ i v, c.Target i → s.references.get? r = some (some i) → s.heap.valueOf? i = some v →
      Ends (act i) s (fun e t ↦ c.Stands xs (referenceHolds e ++ []) t) (c.Fails xs)) :
    c.Performs xs (do Session.deliver into (← act (← Session.deref r))) s := by
  refine hs.onTarget haims fun i hr ht ↦ ?_
  obtain ⟨v, hv⟩ := ht.exists_value hs.stands.here
  exact .of_ends ((hact i v ht hr hv).bind fun _ _ ht ↦ ht.deliver into)

/-- A step that changes the elements of a variable. -/
theorem Begins.changeOn (hs : c.Begins xs [] s) {r : String} {into : Option String}
    {act : HandleId → HeapM Obj Unit} (haims : c.Aims (s.references.get? r).join)
    (hact : ∀ i v, c.Target i → s.references.get? r = some (some i) → s.heap.valueOf? i = some v →
      c.Leads (act i) s.heap (fun _ h ↦ c.At [] [] h) (c.Faults [] [])) :
    c.Performs xs (do
      Session.onHeap (act (← Session.deref r))
      Session.deliver into none) s := by
  refine hs.onTarget haims fun i hr ht ↦ ?_
  obtain ⟨v, hv⟩ := ht.exists_value hs.stands.here
  exact hs.stands.onHeapThen (hact i v ht hr hv) (fun _ ↦ Session.frugal_deliver into none)
    fun _ h ha ↦ Stands.deliver (r := none) (hs.stands.withHeap ha) into

section
variable {r : String} {into : Option String}

theorem Fits.writes {x : ElementStep Obj} (hf : c.Fits s (.elements r x into))
    (hread : x.reads = false) : ¬ c.reads := by
  intro hr
  have hreads : x.reads = true := hf.reads hr
  rw [hread] at hreads
  cases hreads

/-- The place of an operand in a container, found by looking. -/
theorem Begins.applyPositionOf (hs : c.Begins xs [] s) {x : Operand Obj}
    (hf : c.Fits s (.elements r (.positionOf x) into)) :
    c.Performs xs (Session.applyElements r into (.positionOf x)) s := by
  rw [Session.applyElements]
  refine hs.withOperandOn (hf.suits (List.mem_singleton_self x)) (hf.aims rfl)
    fun v zs h i _ _ hr hs₁ _ _ _ _ _ ↦ ?_
  refine (Looking.plays (Looking.listOf? hs₁.stands.here.sound (hs₁.isSome_of_reference hr)
    fun l _ ↦ ?_) hs₁.stands).performs
  split
  · exact Looking.get.bind fun _ ↦ .pure _
  · exact .pure _

/-- Copies of the elements of an operand, put last. -/
theorem Begins.applyExtend (hs : c.Begins xs [] s) {x : Operand Obj}
    (hf : c.Fits s (.elements r (.extend x) into)) :
    c.Performs xs (Session.applyElements r into (.extend x)) s := by
  rw [Session.applyElements]
  refine hs.withOperandOn (hf.suits (List.mem_singleton_self x)) (hf.aims rfl)
    fun v zs h i _ _ hr hs₁ hv _ ht _ hfollows ↦ ?_
  have hearlier {w : Value Obj} (hw : h.valueOf? i = some w) : s.heap.valueOf? i = some w :=
    hs.valueOf?_earlier hs₁ (Session.mem_holds_of_reference hr) hw
  obtain ⟨w, hw⟩ := ht.exists_value hs₁.stands.here
  have hset := hf.ne_uninit rfl rfl hr (hearlier hw)
  refine hs₁.stands.onHeapThen (ht.extendElements hs₁.stands.here hs₁.calm hw hset hv
    (fun hreg names l hvalue ↦ ?_) (hf.writes rfl) (hf.clears _ rfl hr hfollows))
    (fun _ ↦ Session.frugal_deliver into none) fun _ h₁ ha₁ ↦
      Stands.deliver (r := none) (hs₁.stands.withHeap ha₁) into
  exact (hf.orderly hreg).extends_array r _ into rfl i hr names l (hearlier hvalue)

/-- **A step on elements** leads to its end. -/
theorem Begins.applyElements (hs : c.Begins xs [] s) {x : ElementStep Obj}
    (hf : c.Fits s (.elements r x into)) :
    c.Performs xs (Session.applyElements r into x) s := by
  have haims : c.Aims (s.references.get? r).join := hf.aims rfl
  have hsound := hs.stands.here.sound
  cases x with
  | position n => exact hs.deliverFrom haims fun i _ ht _ _ ↦ hs.stands.elementAt ht _
  | member name =>
    refine hs.onTarget haims fun i hr ht ↦ .of_ends
      ((Looking.placeOf? hsound (hs.isSome_of_reference hr) name).andThen hs.stands fun place ↦ ?_)
    exact (hs.stands.elementAt ht place).bind fun _ _ ht ↦ ht.deliver into
  | values =>
    refine hs.lookOn haims fun i hi ↦ Looking.elementsOf hsound hi fun is his ↦ ?_
    exact (Looking.mapM fun e he ↦ .contents hsound (his e he)).bind fun ds ↦ .pure _
  | names =>
    refine hs.lookOn haims fun i hi ↦ Looking.read hsound hi fun v _ ↦ ?_
    split
    · exact .pure _
    · exact .pure _
  | positionOf v => exact hs.applyPositionOf hf
  | isShared =>
    refine hs.lookOn haims fun i hi ↦ Looking.listOf? hsound hi fun r hlist ↦ ?_
    split
    · rename_i l
      obtain ⟨k, hk⟩ := Option.isSome_iff_exists.1 (hlist l rfl)
      obtain ⟨n, hn⟩ := Heap.exists_cell?_of_content? hk
      obtain ⟨cell, hcell, -⟩ := Option.map_eq_some_iff.1 hn
      exact .found hcell (.pure _)
    · exact .pure _
  | ownPosition n =>
    exact hs.deliverFrom haims fun i v ht hr hv ↦
      hs.stands.ownElementAt hs.calm ht hv (hf.ne_uninit rfl rfl hr hv) _
  | ownMember name =>
    refine hs.onTarget haims fun i hr ht ↦ .of_ends
      ((Looking.placeOf? hsound (hs.isSome_of_reference hr) name).andThen hs.stands fun place ↦ ?_)
    obtain ⟨v, hv⟩ := ht.exists_value hs.stands.here
    exact (hs.stands.ownElementAt hs.calm ht hv (hf.ne_uninit rfl rfl hr hv) place).bind
      fun _ _ ht ↦ ht.deliver into
  | renew =>
    exact hs.changeOn haims fun i v ht hr hv ↦ .of_ends (ht.renewElements hs.stands.here hs.calm hv
      (hf.ne_uninit rfl rfl hr hv) fun l htied ↦ (hf.retains i l htied).stays)
  | extend v => exact hs.applyExtend hf
  | rotate =>
    exact hs.changeOn haims fun i v ht hr hv ↦ ht.rotateElements hs.stands.here hs.calm hv
      (hf.ne_uninit rfl rfl hr hv) (hf.writes rfl)
  | remove place =>
    refine hs.onTarget haims fun i hr ht ↦ ?_
    obtain ⟨v, hv⟩ := ht.exists_value hs.stands.here
    refine hs.stands.onHeapThen (ht.removeElement hs.stands.here hs.calm hv
        (hf.ne_uninit rfl rfl hr hv) place hf.named (hf.writes rfl) (hf.yields place rfl))
      (fun e ↦ Session.frugal_deliver into e) fun e h ha ↦ (hs.stands.withHeap ha).deliver into

end

end Scene
end ScriptHeap
