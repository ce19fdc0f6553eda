import ScriptHeap.Proofs.Heap.Assigning
import ScriptHeap.Proofs.MemberMap

/-!
# Structs that are edited

A struct has its names in its block and what they stand for in its list.  A member is put or taken
out in both, one after the other, after block and list were made the struct's own.

## What is here

* `Heap.Appended`, `Heap.Shortened` — a struct with a new last member, and one without one of its
  members.
* `Heap.Operands.setMember?_old`, `Heap.Operands.setMember?_new` — a member that is set; the same
  for members that are added and removed.
* `Heap.KnownStruct` — a struct with one name for each element, and what they show.
* `Heap.Leaves` — an operation that has a result and leaves a struct with certain members;
  `Heap.KnownStruct.setMember?`, `Heap.KnownStruct.addMember` and `Heap.KnownStruct.removeMember`
  say with which.
-/

set_option autoImplicit false
namespace ScriptHeap

variable {Obj : Type} [HostObject Obj]

namespace Heap

/-- A struct with a new last member.  If it shared nothing before, it has its list and all elements
still. -/
structure Appended (h : Heap Obj) (i : HandleId) (names : List String) (name : String)
    (v : Value Obj) (is : List HandleId) (e : HandleId) (b : BlockId) (m : ListId)
    (js : List HandleId) (g : Heap Obj) : Prop where
  alone : g.Alone i b (.struct (names ++ [name]) m) m (js ++ [e])
  length : js.length = is.length
  seen : ¬ g.Endless → ∀ depth,
    Heap.seen depth g (js ++ [e]) = Heap.seen depth h is ++ [outline depth h v]

end Heap

namespace Scene

variable {h g : Heap Obj} {xs ys : List Hold} {hs : h.Sound xs} {i fresh old : HandleId}
  {b : BlockId} {a v : Value Obj} {l m : ListId} {is js made : List HandleId} {place : Nat}
  {names : List String} {name : String} {keep : Bool}

/-- The list of a container is exchanged for one of its own while a new handle is held; the block is
still to be written. -/
theorem Opened.ownListFor (ho : Opened hs i a [fresh] ys b g) (hends : ¬ h.Endless)
    (hl : a.list? = some l) (hbears : (ofEditor hs i).Bears g fresh v (.block b)) :
    Ends (Heap.ownListFor b l) g
      (fun m g' ↦ ∃ js, Listed hs i a [fresh] ys b m js (g'.withValue b (a.withList m)) ∧
        (g'.withValue b (a.withList m)).valueOf? fresh = some v)
      fun _ _ ↦ True := by
  have hmem : ∀ z ∈ [Hold.handle fresh],
      z ∈ handleHolds [fresh] ++ (ys ++ (ofEditor hs i).outside) :=
    fun z hz ↦ List.mem_append_left _ hz
  have hclear : ∀ z ∈ [Hold.handle fresh], ¬ g.Reaches z (.block b) := by
    intro z hz
    rw [List.mem_singleton.1 hz]
    exact (hbears hends).2
  have hkept : g.count (.list l) = 1 →
      Ends (Heap.ownListFor b l) g (fun m g' ↦ m = l ∧ g' = g) fun _ _ ↦ True :=
    fun hone ↦ .of_ok (Heap.ownListFor_eq hone) ⟨rfl, rfl⟩
  have hclears :=
    ownListFor_clears ho.here.sound ho.block ho.owned.value ho.owned.sole hl hmem hclear
  have hown := (ho.here.ownListFor ho.owned ho.ready hl).mono (fun _ _ hh ↦ hh)
    (fun _ _ _ ↦ trivial)
  refine ((hown.and hclears).andIf hkept).mono ?_ fun _ _ _ ↦ trivial
  rintro m g' ⟨⟨hex, hcells⟩, hsame⟩
  have hm := Heap.list?_withList hl m
  obtain ⟨ha', -, hblock, hlist, hshared, hblocks⟩ := hex _ hm fun _ ↦ rfl
  obtain ⟨js, hlisted⟩ := ho.listed hl (ha'.finish False.elim)
    ⟨hblock, hlist, ⟨l, hl, hshared⟩, hblocks⟩ fun hone ↦ by
      obtain ⟨rfl, rfl⟩ := hsame hone
      exact ⟨rfl, Heap.withValue_withList ho.owned.value hl⟩
  exact ⟨js, hlisted, (hcells _ hm).2.valueOf? (List.mem_singleton_self _) (hbears hends).1⟩

/-- **A new last member.** -/
theorem Opened.appendMember (ho : h.Operands xs i (.struct names l) v)
    (hopened : Opened ho.sound i (.struct names l) [fresh] [] b g)
    (his : h.elements? l = some is)
    (hbears : (ofEditor ho.sound i).Bears g fresh v (.block b)) (name : String) :
    Ends (do Heap.appendMember b name (← Heap.share fresh)) g
      (fun _ g' ↦ ∃ m js, h.Appended i names name v is fresh b m js g') fun _ _ ↦ True := by
  have hthere := hopened.here.isSome_of_made List.mem_cons_self
  have ho₁ := hopened.share hthere
  have hbears₁ := hbears.grows hopened.here (hopened.here.retainOne hthere).2
  refine Ends.after (Heap.share_eq fresh g) ?_
  rw [Heap.appendMember]
  refine Ends.after (Heap.look_eq ho₁.owned.value) ?_
  refine Ends.bind (Heap.ends_holding (ho₁.ownListFor ho.grounded rfl hbears₁)) ?_
  rintro m g₁ ⟨js, hl, hvalue⟩
  have helements : (g₁.withValue b (.struct (names ++ [name]) m)).elements? m = some js :=
    hl.alone.elements
  refine Ends.after rfl (Ends.after (Heap.look_eq helements) (.of_ok rfl ?_))
  have hperm : ((js ++ [fresh]) ++ []).Perm (js ++ [fresh]) := by
    rw [List.append_nil]
  obtain ⟨hal, hseen⟩ := hl.edit (w := .struct (names ++ [name]) m) ho.held rfl hperm rfl
  rw [Heap.withValue_withValue] at hal hseen
  refine ⟨m, js, hal, hl.length_eq ho.held ho.left rfl his, fun hends depth ↦ ?_⟩
  refine (hseen hends depth).trans ?_
  rw [Heap.seen_append, hl.seen ho.held ho.left rfl his, Heap.seen_singleton hvalue,
    hl.outline_value ho hvalue]

end Scene

/-! ## Members that are set -/

section
variable {h : Heap Obj} {xs : List Hold} {i : HandleId} {v : Value Obj} {l : ListId}
  {is : List HandleId} {place : Nat} {names : List String} {name : String}

/-- **A member that is there is set.** -/
theorem Heap.Operands.setMember?_old (ho : h.Operands xs i (.struct names l) v)
    (his : h.elements? l = some is) (hplace : memberIndex? names name = some place)
    (hlt : place < is.length) (keep : Bool) :
    Ends (Heap.setMember? i name v keep) h
      (fun r g ↦ ∃ e b m js, r = some e ∧ h.Placed i (.struct names l) v is place keep e b m js g)
      fun _ _ ↦ True := by
  refine Ends.after (Heap.look_eq ho.left) ?_
  refine Scene.openedWith ho fun fresh b g hopened hbears ↦ ?_
  simp only [hplace]
  refine Ends.bind (hopened.ownListHolding rfl hbears) ?_
  rintro _ g₁ ⟨m, js, rfl, hl, hbears₁⟩
  have hvalue := (hbears₁ ho.grounded).1
  obtain ⟨old, hold⟩ : ∃ old, js[place]? = some old :=
    ⟨_, List.getElem?_eq_getElem (by rwa [hl.length_eq ho.held ho.left rfl his])⟩
  cases keep with
  | true =>
    refine Ends.after (Heap.look_eq hl.alone.elements) ?_
    simp only [hold]
    refine Ends.after (Heap.share_eq old g₁) (Ends.bind (hl.setKept ho rfl his hbears₁ hold) ?_)
    exact fun r t hplaced ↦ .pure ⟨r, b, m, js, rfl, hplaced⟩
  | false =>
    refine Ends.after (Heap.share_eq fresh g₁) (Ends.bind (hl.setNew ho rfl his hvalue hold) ?_)
    exact fun _ t hplaced ↦ .pure ⟨fresh, b, m, _, rfl, hplaced⟩

/-- **A new member is set.** -/
theorem Heap.Operands.setMember?_new (ho : h.Operands xs i (.struct names l) v)
    (his : h.elements? l = some is) (hnone : memberIndex? names name = none) (keep : Bool) :
    Ends (Heap.setMember? i name v keep) h
      (fun r g ↦ ∃ e b m js, r = some e ∧ h.Appended i names name v is e b m js g)
      fun _ _ ↦ True := by
  refine Ends.after (Heap.look_eq ho.left) ?_
  refine Scene.openedWith ho fun fresh b g hopened hbears ↦ ?_
  simp only [hnone]
  refine Ends.bind (Heap.ends_holding (hopened.appendMember ho his hbears name)) ?_
  exact fun _ t ⟨m, js, happended⟩ ↦ .pure ⟨fresh, b, m, js, rfl, happended⟩

/-! ## Members that are added -/

/-- The reference to a member that is there; nobody sees that the struct was made its own. -/
theorem Scene.At.getMember?_listed (hs : h.Sound xs) (hi : .handle i ∈ xs)
    (hv : h.valueOf? i = some (.struct names l)) (his : h.elements? l = some is)
    (hplace : memberIndex? names name = some place) (hlt : place < is.length) :
    Ends (Heap.getMember? i name) h
      (fun r g ↦ ∃ e b m js, r = some e ∧ js[place]? = some e ∧
        Scene.Listed hs i (.struct names l) [] [.handle e] b m js g) fun _ _ ↦ True := by
  refine Ends.after (Heap.look_eq hv) ?_
  simp only [hplace]
  rw [Heap.element?]
  refine Ends.bind (Scene.At.listed hs hi hv rfl) ?_
  rintro _ g ⟨b, m, js, rfl, hl⟩
  obtain ⟨e, he⟩ : ∃ e, js[place]? = some e :=
    ⟨_, List.getElem?_eq_getElem (by rwa [hl.length_eq hi hv rfl his])⟩
  refine Ends.after (Heap.look_eq hl.alone.elements) ?_
  rw [he]
  have hthere := hl.here.isSome_of_element hl.alone.elements e (List.mem_of_getElem? he)
  exact Ends.after (Heap.share_eq e g) (.pure ⟨e, b, m, js, rfl, he, hl.share hthere⟩)

/-- **A member that is there is added**: nobody sees a change. -/
theorem Heap.Operands.addMember_old (ho : h.Operands xs i (.struct names l) v)
    (his : h.elements? l = some is) (hplace : memberIndex? names name = some place)
    (hlt : place < is.length) :
    Ends (Heap.addMember i name) h
      (fun e g ↦ ∃ b m js, js[place]? = some e ∧
        Scene.Listed ho.sound i (.struct names l) [] [.handle e] b m js g) fun _ _ ↦ True := by
  refine Ends.after (Heap.look_eq ho.left) ?_
  refine Ends.bind (Scene.At.getMember?_listed ho.sound ho.held ho.left his hplace hlt) ?_
  rintro _ g ⟨e, b, m, js, rfl, he, hl⟩
  exact .pure ⟨b, m, js, he, hl⟩

/-- **A new member is added**: it has no value. -/
theorem Heap.Operands.addMember_new (ho : h.Operands xs i (.struct names l) .uninit)
    (his : h.elements? l = some is) (hnone : memberIndex? names name = none) :
    Ends (Heap.addMember i name) h
      (fun e g ↦ ∃ b m js, h.Appended i names name .uninit is e b m js g) fun _ _ ↦ True := by
  have hmissing : Heap.getMember? i name h = .ok none h := by
    refine (bind_of_ok (Heap.look_eq ho.left)).trans ?_
    simp only [hnone]
    rfl
  refine Ends.after (Heap.look_eq ho.left) (Ends.after hmissing ?_)
  refine Scene.openedUninit ho fun fresh b g hopened hbears ↦ ?_
  refine Ends.after (Heap.look_eq hopened.owned.value) ?_
  refine Ends.bind (Heap.ends_holding (hopened.appendMember ho his hbears name)) ?_
  exact fun _ t ⟨m, js, happended⟩ ↦ .pure ⟨b, m, js, happended⟩

/-! ## Members that are removed -/

/-- A struct without one of its members. -/
structure Heap.Shortened (h : Heap Obj) (i : HandleId) (names : List String) (is : List HandleId)
    (place : Nat) (b : BlockId) (m : ListId) (js : List HandleId) (g : Heap Obj) : Prop where
  alone : g.Alone i b (.struct (names.eraseIdx place) m) m (js.eraseIdx place)
  length : js.length = is.length
  seen : ¬ g.Endless → ∀ depth,
    Heap.seen depth g (js.eraseIdx place) = (Heap.seen depth h is).eraseIdx place

/-- The element at a place, and the name for it, are taken out. -/
theorem Scene.Opened.removeAt {b : BlockId} {g : Heap Obj}
    (ho : h.Operands xs i (.struct names l) v)
    (hopened : Scene.Opened ho.sound i (.struct names l) [] [] b g) (his : h.elements? l = some is)
    (hlt : place < names.length) :
    Ends (Heap.removeAt b place) g
      (fun r g' ↦ ∃ m js,
        h.Shortened i names is place b m js (g'.release (handleHolds r.toList)))
      fun _ _ ↦ True := by
  rw [Heap.removeAt]
  refine Ends.after (Heap.look_eq hopened.owned.value) ?_
  dsimp only [Value.names]
  rw [if_neg fun hunnamed ↦ absurd hlt (Nat.not_lt.2 hunnamed.2)]
  refine Ends.bind (hopened.ownListIn rfl) ?_
  rintro _ g₁ ⟨m, js, rfl, hl⟩
  have helements : (g₁.withValue b (.struct (names.eraseIdx place) m)).elements? m = some js :=
    hl.alone.elements
  refine Ends.after (Heap.look_eq hl.alone.value) (Ends.after rfl ?_)
  refine Ends.after (Heap.look_eq helements) (Ends.after rfl (.pure ⟨m, js, ?_⟩))
  have hperm : (js.eraseIdx place ++ (js[place]?).toList).Perm (js ++ []) := by
    rw [List.append_nil]
    exact perm_eraseIdx js place
  obtain ⟨hal, hseen⟩ :=
    hl.edit (w := .struct (names.eraseIdx place) m) ho.held rfl hperm rfl
  refine ⟨hal, hl.length_eq ho.held ho.left rfl his, fun hends depth ↦ ?_⟩
  refine (hseen hends depth).trans ?_
  rw [← hl.seen ho.held ho.left rfl his, Heap.seen, Heap.seen, List.eraseIdx_map]

/-- **A member that is there is removed.** -/
theorem Heap.Operands.removeMember_old (ho : h.Operands xs i (.struct names l) v)
    (his : h.elements? l = some is) (hplace : memberIndex? names name = some place) :
    Ends (Heap.removeMember i name) h
      (fun r g ↦ r = .ofBool true ∧ ∃ b m js, h.Shortened i names is place b m js g)
      fun _ _ ↦ True := by
  have hlt : place < names.length := (List.findIdx?_eq_some_iff_getElem.1 hplace).1
  refine Ends.after (Heap.look_eq ho.left) ?_
  refine Ends.bind (Scene.At.opened ho.sound ho.held ho.left) fun b g hopened ↦ ?_
  rw [Value.names, hplace]
  refine Ends.bind (hopened.removeAt ho his hlt) fun r g' ⟨m, js, hshort⟩ ↦ ?_
  exact Ends.after rfl (.pure ⟨rfl, b, m, js, hshort⟩)

/-- A member that is not there: the struct is made its own, which nobody sees. -/
theorem Heap.Operands.removeMember_new (ho : h.Operands xs i (.struct names l) v)
    (hnone : memberIndex? names name = none) :
    Ends (Heap.removeMember i name) h
      (fun r g ↦ r = .ofBool false ∧ h.Alike g ∧ (g.content? (.handle i)).isSome)
      fun _ _ ↦ True := by
  refine Ends.after (Heap.look_eq ho.left) ?_
  refine Ends.bind (Scene.At.opened ho.sound ho.held ho.left) fun b g hopened ↦ ?_
  rw [Value.names, hnone]
  exact .pure ⟨rfl, hopened.here.shown trivial, hopened.here.isSome_of_mem ho.held⟩

end

/-! ## What a struct shows then -/

namespace Heap

variable {h g : Heap Obj} {xs ys : List Hold} {i e : HandleId} {b : BlockId} {v : Value Obj}
  {l m : ListId} {is js : List HandleId} {names : List String} {name : String}
  {ds : List (Datum Obj)} {d : Datum Obj}

section
omit [HostObject Obj]

/-- A struct that has a name for each element is written out as its members. -/
theorem Alone.contents_struct (ha : g.Alone i b (.struct names m) m js) (hs : g.Sound ys)
    (hends : ¬ g.Endless) (hlength : names.length = js.length) (bound : Nat)
    (hseen : ∀ depth, bound ≤ depth → Heap.seen depth g js = ds) :
    g.contents? i = some (.struct (names.zip ds) []) := by
  have hdrop : ds.drop names.length = [] := by
    refine List.drop_eq_nil_of_le (Nat.le_of_eq ?_)
    rw [hlength, ← hseen bound (Nat.le_refl _), length_seen]
  rw [Heap.contents?, ha.valueOf?, Option.bind_some, (ha.written hs hends bound hseen).2, hdrop]

/-- What is known of the members of a struct before an operation: what its elements show from a
certain depth on, and what the value shows that is to be stored. -/
structure KnownStruct (h : Heap Obj) (xs : List Hold) (i : HandleId) (names : List String)
    (l : ListId) (is : List HandleId) (v : Value Obj) (ds : List (Datum Obj)) (d : Datum Obj) :
    Prop where
  operands : h.Operands xs i (.struct names l) v
  elements : h.elements? l = some is
  named : names.length = is.length
  seen : ∀ depth, h.depth ≤ depth → Heap.seen depth h is = ds
  value : ∀ depth, h.depth ≤ depth → outline depth h v = d

theorem KnownStruct.length_eq (hm : h.KnownStruct xs i names l is v ds d) :
    names.length = ds.length := by
  rw [hm.named, ← hm.seen _ (Nat.le_refl _), length_seen]

/-- The struct is written out as its members. -/
theorem KnownStruct.contents (hm : h.KnownStruct xs i names l is v ds d) :
    h.contents? i = some (.struct (names.zip ds) []) := by
  obtain ⟨ds', hds', -, hwritten⟩ :=
    hm.operands.sound.exists_seen hm.operands.grounded hm.elements
  obtain rfl : ds' = ds := (hds' _ (Nat.le_refl _)).symm.trans (hm.seen _ (Nat.le_refl _))
  rw [Heap.contents?, hm.operands.left, Option.bind_some, hwritten names,
    List.drop_eq_nil_of_le (Nat.le_of_eq hm.length_eq.symm)]

/-- A struct with a new last member is written out with it. -/
theorem Appended.contents (hp : h.Appended i names name v is e b m js g)
    (hm : h.KnownStruct xs i names l is v ds d) (hs : g.Sound ys) (hends : ¬ g.Endless)
    (hnone : memberIndex? names name = none) :
    g.contents? i = some (.struct (Members.put (names.zip ds) name d) []) := by
  have hlength : names.length = js.length := hm.named.trans hp.length.symm
  rw [Members.put_zip_of_none hm.length_eq hnone]
  refine hp.alone.contents_struct hs hends (by simp [hlength]) h.depth fun depth hle ↦ ?_
  rw [hp.seen hends, hm.seen depth hle, hm.value depth hle]

end

/-- An operation has a result unless a pool has no block left, and the struct in a variable has
certain members then. -/
def Leaves {α : Type} (h : Heap Obj) (i : HandleId) (act : HeapM Obj α)
    (ms : List (String × Datum Obj)) (good : α → Heap Obj → Prop) : Prop :=
  ¬ Exhausts act h → ∃ r h', act h = .ok r h' ∧ h'.contents? i = some (.struct ms []) ∧ good r h'

theorem KnownStruct.leaves {α : Type} {act : HeapM Obj α} {good good' : α → Heap Obj → Prop}
    {ms : List (String × Datum Obj)} {holds : α → List Hold}
    (hm : h.KnownStruct xs i names l is v ds d)
    (hsafe : (Scene.ofWriter hm.operands.sound i).Leads act h
      (fun r g ↦ (Scene.ofWriter hm.operands.sound i).At [] (holds r) g)
      ((Scene.ofWriter hm.operands.sound i).Faults [] []))
    (hgood : Ends act h good fun _ _ ↦ True)
    (hcontents : ∀ r g, g.Sound (holds r ++ xs) → ¬ g.Endless → good r g →
      g.contents? i = some (.struct ms []) ∧ good' r g) : h.Leaves i act ms good' := by
  intro hplenty
  obtain ⟨r, g, hrun, hs, hends, hdone⟩ :=
    Scene.exists_outcome hm.operands.sound hm.operands.grounded hsafe hgood hplenty
  exact ⟨r, g, hrun, hcontents r g hs hends hdone⟩

/-- A new last member is found. -/
theorem Appended.found (hp : h.Appended i names name v is e b m js g)
    (hm : h.KnownStruct xs i names l is v ds d) (hnone : memberIndex? names name = none) :
    Runs (Heap.getMember? i name) g fun r _ ↦ r = some e := by
  have hlength : names.length = js.length := hm.named.trans hp.length.symm
  exact hp.alone.owns.getMember? hp.alone.valueOf? hp.alone.elements
    (Members.memberIndex?_concat hnone) (by rw [hlength, List.getElem?_concat_length])

/-- **A member that is set.** -/
theorem KnownStruct.setMember? (hm : h.KnownStruct xs i names l is v ds d) (name : String)
    (keep : Bool) :
    h.Leaves i (Heap.setMember? i name v keep) (Members.put (names.zip ds) name d)
      fun r g ↦ ∃ e, r = some e ∧ Runs (Heap.getMember? i name) g fun r' _ ↦ r' = some e := by
  have ho := hm.operands
  have hset := (Scene.target_ofWriter ho.sound ho.held).setMember? (Scene.at_ofWriter ho.sound i)
    (Scene.calm_ofWriter ho.sound i) name ho.right False.elim keep id (fun _ ↦ ho.apart)
    fun _ _ _ _ _ _ _ ↦ False.elim
  have hsafe : (Scene.ofWriter ho.sound i).Leads (Heap.setMember? i name v keep) h
      (fun r g ↦ (Scene.ofWriter ho.sound i).At [] (handleHolds r.toList ++ []) g)
      ((Scene.ofWriter ho.sound i).Faults [] []) :=
    hset.mono (fun r g hret ↦ hret fun _ _ _ ↦ False.elim) fun _ _ hf ↦ hf
  cases hplace : memberIndex? names name with
  | some place =>
    have hlt : place < is.length := by
      rw [← hm.named]
      exact (List.findIdx?_eq_some_iff_getElem.1 hplace).1
    refine hm.leaves hsafe (ho.setMember?_old hm.elements hplace hlt keep) ?_
    rintro r g hs hends ⟨e, b, m, js, rfl, hp⟩
    have hlength : js.length = is.length := by
      have hseen := congrArg List.length (hp.seen hends 0)
      rw [length_seen, Datum.length_placed, length_seen] at hseen
      omega
    refine ⟨?_, e, rfl, hp.alone.owns.getMember? hp.alone.valueOf? hp.alone.elements hplace hp.here⟩
    rw [Members.put_zip_of_some hm.length_eq hplace]
    have hnamed := hm.named.trans hlength.symm
    refine hp.alone.contents_struct hs hends hnamed h.depth fun depth hle ↦ ?_
    rw [hp.seen hends, hm.seen depth hle, hm.value depth hle, Datum.placed_of_lt]
    rwa [← hm.length_eq, hm.named]
  | none =>
    refine hm.leaves hsafe (ho.setMember?_new hm.elements hplace keep) ?_
    rintro r g hs hends ⟨e, b, m, js, rfl, hp⟩
    exact ⟨hp.contents hm hs hends hplace, e, rfl, hp.found hm hplace⟩

/-- **A member that is added.** -/
theorem KnownStruct.addMember (hm : h.KnownStruct xs i names l is .uninit ds (.scalar .uninit))
    (name : String) :
    h.Leaves i (Heap.addMember i name)
      (if (memberIndex? names name).isSome then names.zip ds
        else Members.put (names.zip ds) name (.scalar .uninit))
      fun e g ↦ Runs (Heap.getMember? i name) g (fun r _ ↦ r = some e) ∧
        ((memberIndex? names name).isSome → h.Alike g) := by
  have ho := hm.operands
  have hsafe := (Scene.target_ofWriter ho.sound ho.held).addMember (Scene.at_ofWriter ho.sound i)
    (Scene.calm_ofWriter ho.sound i) name id ho.left fun hf ↦ hf.elim
  cases hplace : memberIndex? names name with
  | some place =>
    have hlt : place < is.length := by
      rw [← hm.named]
      exact (List.findIdx?_eq_some_iff_getElem.1 hplace).1
    refine hm.leaves hsafe (ho.addMember_old hm.elements hplace hlt) ?_
    rintro e g hs hends ⟨b, m, js, he, hl⟩
    refine ⟨?_, hl.alone.owns.getMember? hl.alone.valueOf? hl.alone.elements hplace he,
      fun _ ↦ hl.here.shown trivial⟩
    have hlength := hl.length_eq ho.held ho.left rfl hm.elements
    have hnamed := hm.named.trans hlength.symm
    refine hl.alone.contents_struct hs hends hnamed h.depth fun depth hle ↦ ?_
    rw [hl.seen ho.held ho.left rfl hm.elements, hm.seen depth hle]
  | none =>
    refine hm.leaves hsafe (ho.addMember_new hm.elements hplace) ?_
    rintro e g hs hends ⟨b, m, js, hp⟩
    exact ⟨hp.contents hm hs hends hplace, hp.found hm hplace, fun hf ↦ by cases hf⟩

/-- **A member that is removed.** -/
theorem KnownStruct.removeMember (hm : h.KnownStruct xs i names l is v ds d)
    (hd : Distinct names) (name : String) :
    h.Leaves i (Heap.removeMember i name) (Members.without (names.zip ds) name)
      fun r _ ↦ r = .ofBool (memberIndex? names name).isSome := by
  have ho := hm.operands
  have hremove := (Scene.target_ofWriter ho.sound ho.held).removeMember
    (Scene.at_ofWriter ho.sound i) (Scene.calm_ofWriter ho.sound i) name id
    fun _ _ _ _ _ _ ↦ False.elim
  have hsafe : (Scene.ofWriter ho.sound i).Leads (Heap.removeMember i name) h
      (fun _ g ↦ (Scene.ofWriter ho.sound i).At [] [] g)
      ((Scene.ofWriter ho.sound i).Faults [] []) :=
    hremove.mono (fun _ _ hh ↦ hh.2) fun _ _ hf ↦ hf
  cases hplace : memberIndex? names name with
  | some place =>
    refine hm.leaves hsafe (ho.removeMember_old hm.elements hplace) ?_
    rintro r g hs hends ⟨rfl, b, m, js, hp⟩
    refine ⟨?_, rfl⟩
    have hlength : names.length = js.length := hm.named.trans hp.length.symm
    rw [Members.without_zip hd hm.length_eq hplace]
    refine hp.alone.contents_struct hs hends ?_ h.depth fun depth hle ↦ ?_
    · rw [List.length_eraseIdx, List.length_eraseIdx, hlength]
    · rw [hp.seen hends, hm.seen depth hle]
  | none =>
    refine hm.leaves hsafe (ho.removeMember_new hplace) ?_
    rintro r g hs hends ⟨rfl, halike, hthere⟩
    refine ⟨?_, rfl⟩
    have hfind := Members.isSome_find?_zip hm.length_eq name
    rw [hplace, Option.isSome_none, Option.isSome_eq_false_iff, Option.isNone_iff_eq_none] at hfind
    rw [Members.without_of_none hfind, ← hm.contents]
    exact halike.contents? ho.sound hs ho.grounded hends (ho.sound.born_of_mem ho.held) hthere

end Heap
end ScriptHeap
