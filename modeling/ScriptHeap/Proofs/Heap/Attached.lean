import ScriptHeap.Proofs.Datum
import ScriptHeap.Proofs.Heap.Members

/-!
# Containers that share nothing

A container whose block and list nobody else holds stays as it is when an element is looked up: the
handle that is found is the one in the list.  So is the handle that a write goes to which is asked
to keep it.

## What is here

* `Heap.ElementAt` — the handle that a container stores at a place.
* `Heap.Owns.subscript`, `Heap.Owns.getMember?` — what lookups find.
* `Scene.Sole.assignElement`, `Scene.Sole.setMember?` — what is written when an element is kept.
* `Heap.Attached` — all of this about one element.
-/

set_option autoImplicit false
namespace ScriptHeap

variable {Obj : Type}

/-! ## Looking elements up -/

namespace Heap

variable {h : Heap Obj} {i e : HandleId} {l : ListId} {is : List HandleId} {place : Nat}

/-- The container in a variable stores a handle at a place. -/
def ElementAt (h : Heap Obj) (i : HandleId) (place : Nat) (e : HandleId) : Prop :=
  ∃ l is, h.Stores i l ∧ h.elements? l = some is ∧ is[place]? = some e

theorem fromOne?_eq_some {n : Int32} (hn : n.toInt = place + 1) : fromOne? n = some place := by
  rw [fromOne?, if_pos (by omega), hn]
  simp

theorem Stores.unique {m : ListId} (hl : h.Stores i l) (hm : h.Stores i m) : l = m := by
  obtain ⟨b, v, hi, hb, hv⟩ := hl
  obtain ⟨b', v', hi', hb', hv'⟩ := hm
  obtain rfl := Option.some.inj (hi.symm.trans hi')
  obtain rfl := Option.some.inj (hb.symm.trans hb')
  exact Option.some.inj (hv.symm.trans hv')

theorem not_elementAt (is : List HandleId) (hl : h.Stores i l) (his : h.elements? l = some is)
    (he : e ∉ is) : ¬ h.ElementAt i place e := by
  rintro ⟨m, js, hm, hjs, hplace⟩
  obtain rfl := hl.unique hm
  obtain rfl := Option.some.inj (his.symm.trans hjs)
  exact he (List.mem_of_getElem? hplace)

/-- **What a container shows** at the place of an element is what the element shows. -/
theorem ElementAt.shown (he : h.ElementAt i place e) (depth : Nat) :
    (outline (depth + 1) h (h.shown i)).elements[place]? = some (outline depth h (h.shown e)) := by
  obtain ⟨l, is, ⟨b, v, hi, hb, hl⟩, his, hplace⟩ := he
  have hv : h.valueOf? i = some v := by
    rw [valueOf?, hi, Option.bind_some, hb]
  rw [shown_eq hv, elements_outline hl, shape, items_eq his, List.getElem?_map, hplace]
  rfl

variable [HostObject Obj]

/-- A block that is not shared is owned as it is. -/
theorem own_eq {b : BlockId} {v : Value Obj} (hi : h.blockOf? i = some b)
    (hb : h.valueAt? b = some v) (hone : h.count (.block b) = 1) : own i h = .ok b h := by
  have hthere : (h.content? (.block b)).isSome :=
    isSome_of_valueAt? hb
  refine (bind_of_ok (look_eq hi)).trans ((bind_of_ok (isSole_eq b h)).trans ?_)
  rw [(holders?_eq_some_iff hthere).2 hone]
  rfl

/-- A list that is not shared is owned as it is. -/
theorem ownListFor_eq {b : BlockId} (hone : h.count (.list l) = 1) :
    ownListFor b l h = .ok l h := by
  obtain ⟨k, hcell⟩ := exists_cell?_of_count (by rw [hone]; exact Nat.one_pos)
  obtain ⟨cell, hlist, he⟩ := Option.map_eq_some_iff.1 hcell
  have hholders : cell.holders = 1 := by
    rw [hone] at he
    exact (Prod.mk.inj he).1
  refine (bind_of_ok (look_eq hlist)).trans ?_
  rw [if_neg (not_not.2 hholders)]
  refine (bind_of_ok (look_eq hlist)).trans ?_
  rw [if_pos hholders]
  rfl

omit [HostObject Obj] in
/-- The value in a block is written with the list that it has. -/
theorem withValue_withList {b : BlockId} {v : Value Obj} (hb : h.valueAt? b = some v)
    (hl : v.list? = some l) : h.withValue b (v.withList l) = h := by
  obtain ⟨m, hv, hm⟩ := withList_self v
  rw [hm l hl, ← hv]
  exact withValue_self hb

@[inherit_doc ownListFor_eq]
theorem ownListIn_eq {b : BlockId} {v : Value Obj} (hb : h.valueAt? b = some v)
    (hl : v.list? = some l) (hone : h.count (.list l) = 1) : ownListIn b h = .ok (some l) h := by
  refine (bind_of_ok (look_eq hb)).trans ?_
  simp only [hl]
  exact (bind_of_ok (ownListFor_eq hone)).trans
    (congrArg (EStateM.Result.ok (some l)) (withValue_withList hb hl))

/-- An element of a container that shares nothing, looked up by its place. -/
theorem Owns.element? (ho : h.Owns i l) (his : h.elements? l = some is) (he : is[place]? = some e) :
    Runs (Heap.element? i place) h fun r _ ↦ r = some e := by
  obtain ⟨b, v, hi, hblock, hb, hl, hlist⟩ := ho
  have hown : ownContainer i h = .ok (some l) h :=
    (bind_of_ok (own_eq hi hb hblock)).trans (ownListIn_eq hb hl hlist)
  refine Runs.after hown (Runs.after (look_eq his) ?_)
  rw [he]
  exact Runs.after (share_eq e _) (.pure rfl)

/-- The same by the name of a member. -/
theorem Owns.getMember? {names : List String} {name : String} (ho : h.Owns i l)
    (hv : h.valueOf? i = some (.struct names l)) (his : h.elements? l = some is)
    (hplace : memberIndex? names name = some place) (he : is[place]? = some e) :
    Runs (Heap.getMember? i name) h fun r _ ↦ r = some e := by
  refine Runs.after (look_eq hv) ?_
  simp only [hplace]
  exact ho.element? his he

/-- The same by a subscript. -/
theorem Owns.subscript {n : Int32} (ho : h.Owns i l) (hv : h.valueOf? i = some (.array l))
    (his : h.elements? l = some is) (hplace : fromOne? n = some place) (he : is[place]? = some e) :
    Runs (Heap.subscript i (.integer n)) h fun r _ ↦ r = e := by
  obtain ⟨b, v, hi, hblock, hb, hl, hlist⟩ := ho
  obtain rfl : v = .array l := by
    rw [valueOf?, hi, Option.bind_some, hb] at hv
    exact Option.some.inj hv
  have hlt : place < is.length := (List.getElem?_eq_some_iff.1 he).1
  refine Runs.after (look_eq hv) (Runs.after (own_eq hi hb hblock) (Runs.after (look_eq hb) ?_))
  simp only [hplace]
  refine Runs.after (look_eq his) ?_
  rw [if_pos hlt]
  refine Runs.after (ownListIn_eq hb rfl hlist) (Runs.after (look_eq his) ?_)
  rw [he]
  exact ⟨e, _, share_eq e _, rfl⟩

end Heap

/-! ## Writing to an element that is kept -/

namespace Scene

variable [HostObject Obj] {c : Scene Obj} {made : List HandleId} {ys : List Hold} {h : Heap Obj}
  {i e : HandleId}
  {l : ListId} {is : List HandleId} {place : Nat} {w : Value Obj}

theorem Sole.owns (hs : c.Sole h) (ha : c.At made ys h) (ht : c.tied i l) : h.Owns i l := by
  obtain ⟨b, v, hi, hblock, hb, hl, hlist⟩ := hs.exists_value ha ht
  exact ⟨b, v, hi, hblock, hb, hl, hlist⟩

/-- An element that is written gives back itself, with the value in it.  No block that has a value
is held more, and no list but that of the value. -/
theorem At.assignExisting_shows {fresh : HandleId} (ha : c.At (fresh :: made) ys h)
    (he : (h.content? (.handle e)).isSome) (hw : ∀ y ∈ w.holds, (h.content? y).isSome)
    (hm : c.regular → h.Matched w) :
    Ends (Heap.assignExisting e fresh w) (h.retainOne (.handle e))
      (fun r h' ↦ (r = e ∧ h'.valueOf? e = some w) ∧
        ∀ x, (h.content? x).isSome → ¬ h.Unset x → x ∉ w.holds → x ≠ .handle e →
          h'.count x ≤ h.count x)
      fun _ _ ↦ True := by
  obtain ⟨ha₁, hg₁⟩ := ha.retainOne he
  have ha₂ := (At.settle ha₁).perm (.swap _ _ _)
  have hassign := ha₂.assign_shows (i := e) (fun y hy ↦ hg₁.isSome (hw y hy))
    (fun hr ↦ hg₁.matched (hm hr)) List.mem_cons_self
  refine Ends.bind (hassign.tryCatch fun _ t _ ↦ Ends.after (t := t.release _) rfl (.throw trivial))
    fun _ h₃ ⟨hshows, hs, hle⟩ ↦ ?_
  have hs' : h₃.Sound ([.handle fresh] ++ (handleHolds made ++ (.handle e :: ys ++ c.outside))) :=
    hs.perm ((List.Perm.append_left _ (.swap _ _ _)).trans List.perm_middle)
  have hr := Heap.released_release hs'
  have hthere := hr.sound.isSome_of_mem (List.mem_append_right _ List.mem_cons_self)
  refine Ends.after rfl (.pure ⟨⟨rfl, hr.quiet.valueOf? hs hr.sound hshows hthere⟩,
    fun x hx hset hnot hne ↦ (hs'.count_release_le x).trans ?_⟩)
  rw [← hg₁.count x hx hne]
  exact hle x (hg₁.isSome hx) (fun hunset ↦ hset (hg₁.unset hx hunset)) hnot

/-- A new handle for a copy of a value leaves a container that shares nothing as it is. -/
theorem Sole.bindCopy {α : Type} {f : HandleId → HeapM Obj α} {good : α → Heap Obj → Prop}
    (hs : c.Sole h) (ha : c.At made ys h) (ht : c.tied i l) (hw : c.Given ys w)
    (hm : c.regular → h.Matched w)
    (hf : ∀ fresh h', c.At (fresh :: made) ys h' → h.Grows h' (fun _ ↦ True) → h'.Owns i l →
      Ends (f fresh) h' good fun _ _ ↦ True) :
    Ends (do f (← Heap.bindNew (← Heap.copy w))) h good fun _ _ ↦ True := by
  refine Ends.bind (ha.copy (ha.isSome_of_given hw)).ends fun w' h₁ ⟨hw', ha₁, hg₁⟩ ↦ ?_
  subst hw'
  have hs₁ : c.Sole h₁ := hs.copied ha hw hg₁
  have hnew := (ha₁.bindNew fun hr ↦ hg₁.matched (hm hr)).mono (fun _ _ hh ↦ hh)
    fun _ _ _ ↦ trivial
  refine hnew.bind fun fresh h₂ ⟨ha₂, hg₂, _⟩ ↦ ?_
  exact hf fresh h₂ ha₂ ((hg₁.mono fun _ _ _ ↦ trivial).trans hg₂ fun _ _ _ ↦ trivial)
    ((hs₁.grows_unset ha₁ hg₂).owns ha₂ ht)

/-- **An element that is set and kept** is the handle that is in the list. -/
theorem Sole.assignElement {n : Int32} (hs : c.Sole h) (ha : c.At made ys h) (ht : c.tied i l)
    (hw : c.Given ys w) (hm : c.regular → h.Matched w) (hv : h.valueOf? i = some (.array l))
    (his : h.elements? l = some is) (hplace : fromOne? n = some place) (he : is[place]? = some e) :
    Ends (Heap.assignElement i n w true) h (fun r h' ↦ r = e ∧ h'.valueOf? e = some w)
      fun _ _ ↦ True := by
  have hlt : place < is.length := (List.getElem?_eq_some_iff.1 he).1
  refine Ends.after (Heap.look_eq hv) ?_
  simp only [hplace]
  refine Ends.after (Heap.look_eq hv) (Ends.after (Heap.look_eq his) (Ends.after rfl ?_))
  rw [if_neg (by omega)]
  refine hs.bindCopy ha ht hw hm fun fresh h₁ ha₁ hg ⟨b, v, hi, hblock, hb, hl, hlist⟩ ↦ ?_
  obtain rfl : v = .array l := by
    have hv₁ := hg.valueOf? hv
    rw [Heap.valueOf?, hi, Option.bind_some, hb] at hv₁
    exact Option.some.inj hv₁
  have his₁ := hg.elements? his
  refine Ends.after (tryCatch_of_ok (Heap.own_eq hi hb hblock)) (Ends.after (Heap.look_eq hb) ?_)
  refine Ends.after (tryCatch_of_ok (Heap.ownListIn_eq hb rfl hlist)) ?_
  refine Ends.after (tryCatch_of_ok (Heap.putElement_kept his₁ he fresh)) ?_
  exact (ha₁.assignExisting_shows (ha₁.isSome_of_element his₁ e (List.mem_of_getElem? he))
    (fun y hy ↦ hg.isSome (ha.isSome_of_given hw y hy)) fun hr ↦ hg.matched (hm hr)).mono
    (fun _ _ hh ↦ hh.1) fun _ _ _ ↦ trivial

/-- The same for a member. -/
theorem Sole.setMember? {names : List String} {name : String} (hs : c.Sole h) (ha : c.At made ys h)
    (ht : c.tied i l) (hw : c.Given ys w) (hm : c.regular → h.Matched w)
    (hv : h.valueOf? i = some (.struct names l)) (his : h.elements? l = some is)
    (hplace : memberIndex? names name = some place) (he : is[place]? = some e) :
    Ends (Heap.setMember? i name w true) h (fun r h' ↦ r = some e ∧ h'.valueOf? e = some w)
      fun _ _ ↦ True := by
  refine Ends.after (Heap.look_eq hv) ?_
  refine hs.bindCopy ha ht hw hm fun fresh h₁ ha₁ hg ⟨b, v, hi, hblock, hb, hl, hlist⟩ ↦ ?_
  have his₁ := hg.elements? his
  refine Ends.after (tryCatch_of_ok (Heap.own_eq hi hb hblock)) ?_
  simp only [hplace]
  refine Ends.after (tryCatch_of_ok (Heap.ownListIn_eq hb hl hlist)) ?_
  refine Ends.after (Heap.look_eq his₁) ?_
  simp only [he]
  refine Ends.after (Heap.share_eq e h₁) (Ends.bind (ha₁.assignExisting_shows
    (ha₁.isSome_of_element his₁ e (List.mem_of_getElem? he))
    (fun y hy ↦ hg.isSome (ha.isSome_of_given hw y hy)) fun hr ↦ hg.matched (hm hr)) ?_)
  exact fun r h₂ ⟨⟨hr, hshows⟩, _⟩ ↦ .pure ⟨congrArg some hr, hshows⟩

/-- The scene of an operation on a container that shares nothing. -/
def ofOwner {h : Heap Obj} {xs : List Hold} (hs : h.Sound xs) : Scene Obj :=
  { ofHeap hs (fun _ ↦ True) with
    tied := fun i l ↦ ¬ h.Endless ∧ h.Owns i l
    tied_before := fun _ _ ht ↦ ⟨ht.1, ht.2.stores⟩ }

theorem at_ofOwner {xs : List Hold} (hs : h.Sound xs) : (ofOwner hs).At [] [] h :=
  At.start (.refl _)

theorem sole_ofOwner {xs : List Hold} (hs : h.Sound xs) : (ofOwner hs).Sole h := by
  rintro i l ⟨-, b, v, hi, hblock, -, -, hlist⟩
  exact ⟨b, hi, hblock, hlist⟩

end Scene

/-! ## Elements that are attached -/

namespace Heap

variable {h : Heap Obj} {xs : List Hold} {i e : HandleId} {place : Nat} [HostObject Obj]

/-- **An element is attached** to its container: what the container shows there is what the element
shows.  A container that shares nothing gives the element back when it is looked up, and a value
that somebody has, written to the place with the handle kept, is then in the element. -/
structure Attached (h : Heap Obj) (xs : List Hold) (i : HandleId) (place : Nat) (e : HandleId) :
    Prop where
  stored : h.ElementAt i place e
  shown : ∀ depth, (outline (depth + 1) h (h.shown i)).elements[place]? =
    some (outline depth h (h.shown e))
  subscript : ∀ l n, h.Owns i l → h.valueOf? i = some (.array l) → fromOne? n = some place →
    Runs (Heap.subscript i (.integer n)) h fun r _ ↦ r = e
  getMember? : ∀ names l name, h.Owns i l → h.valueOf? i = some (.struct names l) →
    memberIndex? names name = some place → Runs (Heap.getMember? i name) h fun r _ ↦ r = some e
  assignElement : ∀ l n w, h.Owns i l → h.valueOf? i = some (.array l) → fromOne? n = some place →
    (∀ y ∈ w.holds, y ∈ xs) →
    Ends (Heap.assignElement i n w true) h (fun r h' ↦ r = e ∧ h'.valueOf? e = some w)
      fun _ _ ↦ True
  setMember? : ∀ names l name w, h.Owns i l → h.valueOf? i = some (.struct names l) →
    memberIndex? names name = some place → (∀ y ∈ w.holds, y ∈ xs) →
    Ends (Heap.setMember? i name w true) h (fun r h' ↦ r = some e ∧ h'.valueOf? e = some w)
      fun _ _ ↦ True

theorem Sound.attached (hs : h.Sound xs) (hends : ¬ h.Endless) (he : h.ElementAt i place e) :
    h.Attached xs i place e := by
  obtain ⟨m, is, hm, his, hplace⟩ := id he
  have hlist {l : ListId} (ho : h.Owns i l) : h.elements? l = some is := by
    rwa [ho.stores.unique hm]
  refine ⟨he, he.shown, fun l n ho hv hn ↦ ho.subscript hv (hlist ho) hn hplace,
    fun names l name ho hv hn ↦ ho.getMember? hv (hlist ho) hn hplace,
    fun l n w ho hv hn hw ↦ ?_, fun names l name w ho hv hn hw ↦ ?_⟩
  · exact (Scene.sole_ofOwner hs).assignElement (Scene.at_ofOwner hs) ⟨hends, ho⟩
      (fun y hy ↦ .inl (hw y hy)) False.elim hv (hlist ho) hn hplace
  · exact (Scene.sole_ofOwner hs).setMember? (Scene.at_ofOwner hs) ⟨hends, ho⟩
      (fun y hy ↦ .inl (hw y hy)) False.elim hv (hlist ho) hn hplace

end Heap
end ScriptHeap
