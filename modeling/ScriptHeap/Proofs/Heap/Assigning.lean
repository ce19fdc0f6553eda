import ScriptHeap.Proofs.Heap.Editing

/-!
# Elements that are set

An element of a container is set in one of two ways: the value is written to the handle that is
there, or a new handle takes its place.  Past the end of an array the list grows, and what lies
between has no value.  What the container shows then is what it showed, padded as far as it takes,
with the value in its place.

## What is here

* `Datum.placed` — data with one of them set.
* `Heap.Placed` — a container in which an element was set, with what it is written out as.
* `Scene.openedWith`, `Scene.openedUninit` — the container is made its own around a new handle.
* `Scene.Listed.setKept`, `Scene.Listed.setNew`, `Scene.Listed.putElement_new` — the ways to set an
  element.
* `Heap.Operands.assignElement`, `Heap.Operands.assignElement_refused` — an array in which an
  element was set, and one that refused the index.
-/

set_option autoImplicit false
namespace ScriptHeap

variable {Obj : Type}

/-! ## Data with one of them set -/

namespace Datum

/-- Data with one of them set; what is missing before its place has no value. -/
def placed (ds : List (Datum Obj)) (place : Nat) (d : Datum Obj) : List (Datum Obj) :=
  (ds ++ List.replicate (place + 1 - ds.length) (Datum.scalar .uninit)).set place d

variable {ds : List (Datum Obj)} {d : Datum Obj} {place k : Nat}

@[simp] theorem length_placed (ds : List (Datum Obj)) (place : Nat) (d : Datum Obj) :
    (placed ds place d).length = max ds.length (place + 1) := by
  simp only [placed, List.length_set, List.length_append, List.length_replicate]
  omega

theorem placed_self (ds : List (Datum Obj)) (place : Nat) (d : Datum Obj) :
    (placed ds place d)[place]? = some d := by
  refine List.getElem?_set_self ?_
  rw [List.length_append, List.length_replicate]
  omega

theorem placed_ne (hne : k ≠ place) (hk : k < ds.length) : (placed ds place d)[k]? = ds[k]? := by
  rw [placed, List.getElem?_set_ne hne.symm, List.getElem?_append_left hk]

theorem placed_gap (hk : ds.length ≤ k) (hlt : k < place) :
    (placed ds place d)[k]? = some (Datum.scalar .uninit) := by
  rw [placed, List.getElem?_set_ne (Nat.ne_of_gt hlt), List.getElem?_append_right hk,
    List.getElem?_replicate, if_pos (by omega)]

theorem placed_of_lt (hlt : place < ds.length) : placed ds place d = ds.set place d := by
  rw [placed, Nat.sub_eq_zero_of_le hlt, List.replicate_zero, List.append_nil]

theorem placed_of_le (hle : ds.length ≤ place) :
    placed ds place d = ds ++ List.replicate (place - ds.length) (Datum.scalar .uninit) ++ [d] := by
  rw [placed, Nat.succ_sub hle, List.replicate_succ', ← List.append_assoc,
    List.set_append_right _ _ (by simp; omega)]
  simp [Nat.add_sub_cancel' hle]

end Datum

/-! ## Containers in which an element was set -/

namespace Heap

variable {h g : Heap Obj} {xs : List Hold} {i e : HandleId} {b : BlockId} {a v : Value Obj}
  {m : ListId} {is js : List HandleId} {place : Nat} {keep : Bool}

/-- A container in which the element at a place was set to a value.  If it shared nothing before,
it has its list and all other elements still; a handle that was in the place is kept or is not. -/
structure Placed (h : Heap Obj) (i : HandleId) (a v : Value Obj) (is : List HandleId) (place : Nat)
    (keep : Bool) (e : HandleId) (b : BlockId) (m : ListId) (js : List HandleId) (g : Heap Obj) :
    Prop where
  alone : g.Alone i b (a.withList m) m js
  here : js[place]? = some e
  seen : ¬ g.Endless → ∀ depth,
    Heap.seen depth g js = Datum.placed (Heap.seen depth h is) place (outline depth h v)
  kept : ∀ l, h.Owns i l → m = l ∧ (∀ k, k ≠ place → k < is.length → js[k]? = is[k]?) ∧
    ∀ old, is[place]? = some old → (e = old ↔ keep = true)

theorem seen_uninit (his : ∀ j ∈ is, h.valueOf? j = some .uninit) (depth : Nat) :
    seen depth h is = List.replicate is.length (Datum.scalar .uninit) := by
  refine List.eq_replicate_iff.2 ⟨List.length_map _, fun d hd ↦ ?_⟩
  obtain ⟨j, hj, rfl⟩ := List.mem_map.1 hd
  rw [shown_eq (his j hj)]
  exact outline_scalar depth h _

theorem seen_singleton (he : h.valueOf? e = some v) (depth : Nat) :
    seen depth h [e] = [outline depth h v] := by
  rw [seen, List.map_singleton, shown_eq he]

end Heap

namespace Scene

variable [HostObject Obj] {h g : Heap Obj} {xs ys : List Hold} {i fresh old : HandleId}
  {b : BlockId} {a v : Value Obj} {l m : ListId} {is js made : List HandleId} {place : Nat}
  {keep : Bool}

/-- A new handle with the value is held while the container is made its own. -/
theorem openedWith {α : Type} {f : HandleId → BlockId → HeapM Obj α} {good : α → Heap Obj → Prop}
    (ho : h.Operands xs i a v)
    (hf : ∀ fresh b g, Opened ho.sound i a [fresh] [] b g →
      (ofEditor ho.sound i).Bears g fresh v (.block b) → Ends (f fresh b) g good fun _ _ ↦ True) :
    Ends (do
      let fresh ← Heap.bindNew (← Heap.copy v)
      let b ← Heap.holding [.handle fresh] (Heap.own i)
      f fresh b) h good fun _ _ ↦ True := by
  have hstart := at_ofEditor ho.sound i
  have hgiven : (ofEditor ho.sound i).Given [] v := ho.right
  refine Ends.bind (hstart.copy ho.isSome.2).ends fun w h₁ ⟨hw, ha₁, hg₁⟩ ↦ ?_
  subst hw
  refine Ends.bind ((ha₁.bindNew False.elim).mono (fun _ _ hh ↦ hh) fun _ _ _ ↦ trivial)
    fun fresh h₂ ⟨ha₂, hg₂, hvalue, hnew⟩ ↦ ?_
  have hclear : (ofEditor ho.sound i).Clears h w.holds (.handle i) := fun _ ↦ ho.apart
  have hbears := hclear.bears hstart ho.isSome.2 (ho.sound.isSome_of_mem ho.held)
    (hg₁.toAdds.trans hg₂.toAdds) hvalue fun hn ↦ hnew (hg₁.quiet.born _ hn)
  have hsole := ((sole_ofEditor ho.sound i).copied hstart hgiven hg₁).grows_unset ha₁ hg₂
  exact Ends.bind (At.openedWith ho.held ho.left ha₂ (hg₁.toAdds.trans hg₂.toAdds) hsole hbears)
    fun b g ⟨hopened, hbears'⟩ ↦ hf fresh b g hopened hbears'

/-- The same with a new handle without a value. -/
theorem openedUninit {α : Type} {f : HandleId → BlockId → HeapM Obj α} {good : α → Heap Obj → Prop}
    (ho : h.Operands xs i a .uninit)
    (hf : ∀ fresh b g, Opened ho.sound i a [fresh] [] b g →
      (ofEditor ho.sound i).Bears g fresh .uninit (.block b) →
      Ends (f fresh b) g good fun _ _ ↦ True) :
    Ends (do
      let fresh ← Heap.newUninit
      let b ← Heap.holding [.handle fresh] (Heap.own i)
      f fresh b) h good fun _ _ ↦ True := by
  have hstart := at_ofEditor ho.sound i
  refine Ends.bind (hstart.newUninit.mono (fun _ _ hh ↦ hh) fun _ _ _ ↦ trivial)
    fun fresh h₁ ⟨ha₁, hg₁, hvalue, hnew⟩ ↦ ?_
  have hclear : (ofEditor ho.sound i).Clears h (Value.uninit : Value Obj).holds (.handle i) :=
    fun _ ↦ ho.apart
  have hbears := hclear.bears hstart ho.isSome.2 (ho.sound.isSome_of_mem ho.held) hg₁.toAdds hvalue
    hnew
  have hsole := (sole_ofEditor ho.sound i).grows_unset hstart hg₁
  exact Ends.bind (At.openedWith ho.held ho.left ha₁ hg₁.toAdds hsole hbears)
    fun b g ⟨hopened, hbears'⟩ ↦ hf fresh b g hopened hbears'

/-- The value shows what it showed. -/
theorem Listed.outline_value (ho : h.Operands xs i a v) (hl : Listed ho.sound i a made ys b m js g)
    (hvalue : g.valueOf? fresh = some v) (depth : Nat) :
    Heap.outline depth g v = Heap.outline depth h v := by
  obtain ⟨b', -, hb'⟩ := Option.bind_eq_some_iff.1 hvalue
  exact hl.here.outline_given ho.isSome.2 (hl.here.sound.isSome_of_value hb') depth

/-- **An element that is there is set**: its handle is written. -/
theorem Listed.setKept (ho : h.Operands xs i a v)
    (hl : Listed ho.sound i a [fresh] [] b m js g) (hal : a.list? = some l)
    (his : h.elements? l = some is) (hbears : (ofEditor ho.sound i).Bears g fresh v (.list m))
    (hold : js[place]? = some old) :
    Ends (Heap.assignExisting old fresh v) (g.retainOne (.handle old))
      (fun r g' ↦ h.Placed i a v is place true r b m js g') fun _ _ ↦ True := by
  have hlt : place < is.length := by
    rw [← hl.length_eq ho.held ho.left hal his]
    exact (List.getElem?_eq_some_iff.1 hold).1
  refine (hl.assignExisting ho.held ho.grounded ho.right hbears hold).mono ?_ fun _ _ _ ↦ trivial
  rintro _ g' ⟨rfl, hal', hseen⟩
  refine ⟨hal', hold, fun _ depth ↦ ?_, fun l' howns ↦ ?_⟩
  · rw [hseen depth, hl.seen ho.held ho.left hal his, hl.outline_value ho (hbears ho.grounded).1,
      Datum.placed_of_lt (by rwa [Heap.length_seen])]
  · obtain ⟨rfl, rfl⟩ := hl.same ho.left hal his ho.grounded howns
    refine ⟨rfl, fun _ _ _ ↦ rfl, fun e he ↦ ?_⟩
    simp [Option.some.inj (hold.symm.trans he)]

/-- **An element that is there is set**: the new handle takes its place. -/
theorem Listed.setNew (ho : h.Operands xs i a v)
    (hl : Listed ho.sound i a [fresh] [] b m js g) (hal : a.list? = some l)
    (his : h.elements? l = some is) (hvalue : g.valueOf? fresh = some v)
    (hold : js[place]? = some old) :
    Ends (Heap.replaceElement m place fresh) (g.retainOne (.handle fresh))
      (fun _ g' ↦ h.Placed i a v is place false fresh b m (js.set place fresh) g')
      fun _ _ ↦ True := by
  have hlt := (List.getElem?_eq_some_iff.1 hold).1
  have hthere := hl.here.isSome_of_made List.mem_cons_self
  have hl₁ := hl.share hthere
  have hvalue₁ := (hl.here.retainOne hthere).2.valueOf? hvalue
  refine (hl₁.replaceElement ho.held hold).mono ?_ fun _ _ _ ↦ trivial
  rintro _ g' ⟨hal', hseen⟩
  refine ⟨hal', List.getElem?_set_self hlt, fun hends depth ↦ ?_, fun l' howns ↦ ?_⟩
  · rw [hl.length_eq ho.held ho.left hal his, ← Heap.length_seen depth h] at hlt
    rw [hseen hends depth, Datum.placed_of_lt hlt, ← hl₁.seen ho.held ho.left hal his,
      ← hl₁.outline_value ho hvalue₁, Heap.seen, List.map_set, Heap.shown_eq hvalue₁]
    rfl
  · obtain ⟨rfl, rfl⟩ := hl.same ho.left hal his ho.grounded howns
    refine ⟨rfl, fun k hne _ ↦ List.getElem?_set_ne hne.symm, fun e he ↦ ?_⟩
    -- the new handle was in no list
    have hne : fresh ≠ e := by
      rintro rfl
      have huse := g.count_holdsOf_le_uses (.handle fresh) (.list m)
      have hpos := List.count_pos_iff.2 (hl.alone.list_holds (List.mem_of_getElem? he))
      have hloose := hl.here.loose fresh List.mem_cons_self
      omega
    simp [hne]

/-- The same as a step of an assignment. -/
theorem Listed.putElement_old (ho : h.Operands xs i a v)
    (hl : Listed ho.sound i a [fresh] [] b m js g)
    (hal : a.list? = some l) (his : h.elements? l = some is) (hvalue : g.valueOf? fresh = some v)
    (hold : js[place]? = some old) :
    Ends (Heap.putElement m place fresh false) g
      (fun r g' ↦ r = none ∧ ∃ js', h.Placed i a v is place false fresh b m js' g')
      fun _ _ ↦ True := by
  rw [Heap.putElement]
  refine Ends.after (Heap.look_eq hl.alone.elements) ?_
  rw [hold]
  refine Ends.after (Heap.share_eq fresh g) (Ends.bind (hl.setNew ho hal his hvalue hold) ?_)
  exact fun _ _ hplaced ↦ .pure ⟨rfl, _, hplaced⟩

/-- **An array grows** up to the new element. -/
theorem Listed.putElement_new (ho : h.Operands xs i a v)
    (hl : Listed ho.sound i a [fresh] [] b m js g)
    (hal : a.list? = some l) (his : h.elements? l = some is) (hvalue : g.valueOf? fresh = some v)
    (hnone : js[place]? = none) :
    Ends (Heap.putElement m place fresh keep) g
      (fun r g' ↦ r = none ∧ ∃ js', h.Placed i a v is place keep fresh b m js' g')
      fun _ _ ↦ True := by
  have hle := List.getElem?_eq_none_iff.1 hnone
  have hlength := hl.length_eq ho.held ho.left hal his
  rw [Heap.putElement]
  refine Ends.after (Heap.look_eq hl.alone.elements) ?_
  rw [hnone]
  refine Ends.bind ((hl.here.newUninits _).mono (fun _ _ hh ↦ hh) fun _ _ _ ↦ trivial) ?_
  rintro gap g₁ ⟨ha₁, hg₁, hgap, huninit⟩
  have hl₁ : Listed ho.sound i a (gap ++ [fresh]) [] b m js g₁ :=
    hl.grows ha₁ hg₁ (hl.alone.not_unset (.inl rfl)) (hl.alone.not_unset (.inr rfl))
  have hthere := ha₁.isSome_of_made (List.mem_append_right gap List.mem_cons_self)
  have hl₂ := hl₁.share hthere
  have hg₂ := (ha₁.retainOne hthere).2
  refine Ends.after (Heap.share_eq fresh g₁)
    (Ends.after rfl (.pure ⟨rfl, js ++ gap ++ [fresh], ?_⟩))
  have hperm : ((js ++ gap ++ [fresh]) ++ []).Perm (js ++ (gap ++ [fresh])) := by
    rw [List.append_nil, List.append_assoc]
  obtain ⟨hal', hseen⟩ := hl₂.editElements ho.held hperm rfl
  refine ⟨hal', ?_, fun hends depth ↦ ?_, fun l' howns ↦ ?_⟩
  · have hplace : (js ++ gap).length = place := by
      rw [List.length_append, hgap, Nat.add_sub_cancel' hle]
    rw [← hplace, List.getElem?_concat_length]
  · have hvalue₂ := hg₂.valueOf? (hg₁.valueOf? hvalue)
    have huninit₂ (j : HandleId) (hj : j ∈ gap) := hg₂.valueOf? (huninit j hj)
    refine (hseen hends depth).trans ?_
    rw [Heap.seen_append, Heap.seen_append, hl₂.seen ho.held ho.left hal his,
      Heap.seen_uninit huninit₂, Heap.seen_singleton hvalue₂, hl₂.outline_value ho hvalue₂, hgap,
      Datum.placed_of_le (by rwa [Heap.length_seen, ← hlength]), Heap.length_seen, hlength]
  · obtain ⟨rfl, rfl⟩ := hl.same ho.left hal his ho.grounded howns
    refine ⟨rfl, fun k _ hk ↦ ?_, fun e he ↦ ?_⟩
    · rw [List.append_assoc, List.getElem?_append_left hk]
    · cases hnone.symm.trans he

end Scene

/-! ## Arrays -/

section
variable [HostObject Obj] {h : Heap Obj} {xs : List Hold} {i : HandleId} {v : Value Obj}
  {l : ListId} {is : List HandleId} {place : Nat} {n : Int32}

/-- **An element of an array is set.** -/
theorem Heap.Operands.assignElement (ho : h.Operands xs i (.array l) v)
    (his : h.elements? l = some is) (hplace : fromOne? n = some place)
    (hlimit : place - is.length ≤ fillLimit) (keep : Bool) :
    Ends (Heap.assignElement i n v keep) h
      (fun r g ↦ ∃ b m js, h.Placed i (.array l) v is place keep r b m js g) fun _ _ ↦ True := by
  refine Ends.after (Heap.look_eq ho.left) ?_
  simp only [hplace]
  refine Ends.after (Heap.look_eq ho.left) (Ends.after (Heap.look_eq his) (Ends.after rfl ?_))
  rw [if_neg (Nat.not_lt.2 hlimit)]
  refine Scene.openedWith ho fun fresh b g hopened hbears ↦ ?_
  refine Ends.after (Heap.look_eq hopened.owned.value) ?_
  refine Ends.bind (hopened.ownListHolding rfl hbears) ?_
  rintro _ g₁ ⟨m, js, rfl, hl, hbears₁⟩
  have hvalue := (hbears₁ ho.grounded).1
  have hdone {r : HandleId} {t : Heap Obj} :
      (∃ js', h.Placed i (.array l) v is place keep r b m js' t) →
        ∃ b m js, h.Placed i (.array l) v is place keep r b m js t :=
    fun ⟨js', hplaced⟩ ↦ ⟨b, m, js', hplaced⟩
  cases hold : js[place]? with
  | none =>
    refine Ends.bind (Heap.ends_holding (hl.putElement_new ho rfl his hvalue hold)) ?_
    rintro _ g₂ ⟨rfl, hplaced⟩
    exact .pure (hdone hplaced)
  | some old =>
    cases keep with
    | true =>
      have hkept := Scene.Heap.putElement_kept hl.alone.elements hold fresh
      refine Ends.after (tryCatch_of_ok hkept) ?_
      exact (hl.setKept ho rfl his hbears₁ hold).mono (fun _ _ hplaced ↦ hdone ⟨js, hplaced⟩)
        fun _ _ _ ↦ trivial
    | false =>
      refine Ends.bind (Heap.ends_holding (hl.putElement_old ho rfl his hvalue hold)) ?_
      rintro _ g₂ ⟨rfl, hplaced⟩
      exact .pure (hdone hplaced)

/-- A refused index: there is an error more, and nothing else happens. -/
theorem Heap.Operands.assignElement_refused (ho : h.Operands xs i (.array l) v)
    (his : h.elements? l = some is)
    (hrefused : ∀ place, fromOne? n = some place → fillLimit < place - is.length) (keep : Bool) :
    Ends (Heap.assignElement i n v keep) h
      (fun r g ↦ h.Adds g ∧ ∃ text, g.valueOf? r = some (.error text)) fun _ _ ↦ True := by
  have hbind (text : String) : Ends (Heap.bindNew (.error text)) h
      (fun r g ↦ h.Adds g ∧ ∃ text, g.valueOf? r = some (.error text)) fun _ _ ↦ True := by
    have hnew := Scene.At.bindNew (v := .error text) (Scene.at_ofEditor ho.sound i) False.elim
    refine hnew.mono ?_ fun _ _ _ ↦ trivial
    exact fun r g ⟨_, hg, hvalue, _⟩ ↦ ⟨hg.toAdds, text, hvalue⟩
  refine Ends.after (Heap.look_eq ho.left) ?_
  cases hplace : fromOne? n with
  | none =>
    simp only
    exact hbind _
  | some place =>
    simp only
    refine Ends.after (Heap.look_eq ho.left) (Ends.after (Heap.look_eq his) (Ends.after rfl ?_))
    rw [if_pos (hrefused place hplace)]
    exact hbind _

/-- An operation that sets elements is one that may write. -/
theorem Heap.Operands.exists_outcome {good : HandleId → Heap Obj → Prop} {keep : Bool}
    (ho : h.Operands xs i (.array l) v)
    (hgood : Ends (Heap.assignElement i n v keep) h good fun _ _ ↦ True)
    (hplenty : ¬ Exhausts (Heap.assignElement i n v keep) h) :
    ∃ r g, Heap.assignElement i n v keep h = .ok r g ∧ g.Sound (.handle r :: xs) ∧ ¬ g.Endless ∧
      good r g := by
  have hset := (Scene.target_ofWriter ho.sound ho.held).assignElement
    (Scene.at_ofWriter ho.sound i) (Scene.calm_ofWriter ho.sound i) n ho.right False.elim keep id
    (fun _ ↦ ho.apart) fun _ _ _ _ _ ↦ False.elim
  have hsafe : (Scene.ofWriter ho.sound i).Leads (Heap.assignElement i n v keep) h
      (fun r g ↦ (Scene.ofWriter ho.sound i).At [] [.handle r] g)
      ((Scene.ofWriter ho.sound i).Faults [] []) :=
    hset.mono (fun r g hret ↦ hret fun _ _ _ ↦ False.elim) fun _ _ hf ↦ hf
  exact Scene.exists_outcome ho.sound ho.grounded hsafe hgood hplenty

end

namespace Heap.Placed

variable {h g : Heap Obj} {xs ys : List Hold} {i e : HandleId} {b : BlockId} {v : Value Obj}
  {l m : ListId} {is js : List HandleId} {place : Nat} {keep : Bool} {ds : List (Datum Obj)}
  {d : Datum Obj}

/-- The array is written out as before, with the datum in its place. -/
theorem contents? (hp : h.Placed i (.array l) v is place keep e b m js g) (hs : g.Sound ys)
    (hends : ¬ g.Endless) (hds : ∀ depth, h.depth ≤ depth → Heap.seen depth h is = ds)
    (hd : ∀ depth, h.depth ≤ depth → outline depth h v = d) :
    g.contents? i = some (.array (Datum.placed ds place d)) := by
  rw [Heap.contents?, hp.alone.valueOf?, Option.bind_some]
  refine (hp.alone.written hs hends h.depth fun depth hle ↦ ?_).1
  rw [hp.seen hends, hds depth hle, hd depth hle]

end Heap.Placed
end ScriptHeap
