import ScriptHeap.Proofs.Heap.Attached

/-!
# Containers that are edited

A container that shares neither its block nor its list is edited in place: another value is put in
the block, other elements are put in the list, and what left the list is given up.  If no cells hold
each other in a circle then, no element leads back to block and list, so each of them shows what it
showed before.

## What is here

* `Heap.Alone` — a container that shares nothing, with its parts.
* `Heap.Alone.edit` — the container after an edit, and what its elements show.
* `Scene.Opened`, `Scene.Listed` — a container whose block is its own, and one whose list is, too;
  nobody sees that they were made so (`Scene.Listed.seen`).
* `Scene.Listed.edit`, `Scene.Listed.assignExisting` — such a container is edited, or one of its
  elements is written.
* `Scene.exists_outcome` — without circles an operation that writes has a result.
-/

set_option autoImplicit false
namespace ScriptHeap

variable {Obj : Type}

theorem Pool.write_write {α : Type} (p : Pool α) (x : Pool.Pointer) (a b : α) :
    (p.write x a).write x b = p.write x b := by
  by_cases hsole : p.isSole x = true
  · obtain ⟨c, hc⟩ : ∃ c, p.find? x = some (1, c) := by
      rw [Pool.isSole, Pool.holders?] at hsole
      obtain ⟨⟨n, c⟩, hnc, rfl⟩ := Option.map_eq_some_iff.1 (beq_iff_eq.1 hsole)
      exact ⟨c, hnc⟩
    have hagain : (p.write x a).isSole x = true := by
      rw [Pool.isSole, Pool.holders?, Pool.find?_write hc, if_pos rfl]
      rfl
    rw [Pool.write, if_pos hagain, Pool.write, if_pos hsole, Pool.write, if_pos hsole]
    simp
  · have hfirst : p.write x a = p := if_neg hsole
    rw [hfirst]

namespace Heap

variable {h h' : Heap Obj} {xs ys zs : List Hold} {i : HandleId} {b : BlockId} {v w : Value Obj}
  {l m : ListId} {is js added removed : List HandleId}

theorem withValue_withValue (h : Heap Obj) (b : BlockId) (v w : Value Obj) :
    (h.withValue b v).withValue b w = h.withValue b w := by
  obtain ⟨pool, x⟩ := b
  have hpool (p : Pool (Value Obj)) := Pool.write_write p x v w
  cases pool <;> simp only [withValue, Pools.update, hpool]

/-! ## Containers that share nothing -/

/-- A container that shares neither its block nor its list, with the value in the block and the
elements in the list. -/
structure Alone (h : Heap Obj) (i : HandleId) (b : BlockId) (w : Value Obj) (m : ListId)
    (js : List HandleId) : Prop where
  block : h.blockOf? i = some b
  value : h.valueAt? b = some w
  sole : h.count (.block b) = 1
  list : w.list? = some m
  listSole : h.count (.list m) = 1
  elements : h.elements? m = some js

theorem Alone.owns (ha : h.Alone i b w m js) : h.Owns i m :=
  ⟨b, w, ha.block, ha.sole, ha.value, ha.list, ha.listSole⟩

theorem Alone.valueOf? (ha : h.Alone i b w m js) : h.valueOf? i = some w := by
  rw [Heap.valueOf?, ha.block, Option.bind_some, ha.value]

/-- Nothing happens to it when its block is to be made its own. -/
theorem Owns.own [HostObject Obj] (ho : h.Owns i l) : ∃ b, Heap.own i h = .ok b h := by
  obtain ⟨b, v, hi, hblock, hb, -⟩ := ho
  exact ⟨b, own_eq hi hb hblock⟩

theorem Alone.block_holds (ha : h.Alone i b w m js) : .list m ∈ h.holdsOf (.block b) :=
  list_mem_holdsOf ha.value ha.list

theorem Alone.list_holds (ha : h.Alone i b w m js) {e : HandleId} (he : e ∈ js) :
    .handle e ∈ h.holdsOf (.list m) :=
  handle_mem_holdsOf ha.elements he

/-- What is not endless has no container among its own elements. -/
theorem Alone.ne_of_mem (ha : h.Alone i b w m js) (hends : ¬ h.Endless) {e : HandleId}
    (he : e ∈ js) : i ≠ e := by
  rintro rfl
  exact hends ⟨_, _, ha.list_holds he,
    ((Reaches.refl h _).next (mem_holdsOf_of_blockOf? ha.block)).next ha.block_holds⟩

theorem Alone.isSome (ha : h.Alone i b w m js) {x : Hold} (hx : x = .block b ∨ x = .list m) :
    (h.content? x).isSome := by
  rcases hx with rfl | rfl
  · exact isSome_of_valueAt? ha.value
  · exact isSome_of_elements? ha.elements

/-- Its block is no block without a value. -/
theorem Alone.not_unset (ha : h.Alone i b w m js) {x : Hold} (hx : x = .block b ∨ x = .list m) :
    ¬ h.Unset x := by
  intro hunset
  rcases hx with rfl | rfl
  · cases (content?_block.2 ha.value).symm.trans hunset
    cases ha.list
  · exact h.not_unset_list m hunset

/-- It stays like that when its cells are as they were and none is held more. -/
theorem Alone.of_same (ha : h.Alone i b w m js) (hs : h'.Sound xs)
    (hsame : ∀ x, x = .handle i ∨ x = .block b ∨ x = .list m → h'.content? x = h.content? x)
    (hle : ∀ x, x = .block b ∨ x = .list m → h'.count x ≤ h.count x) : h'.Alone i b w m js := by
  have hblock := content?_handle.1 ((hsame _ (.inl rfl)).trans (content?_handle.2 ha.block))
  have hvalue := content?_block.1 ((hsame _ (.inr (.inl rfl))).trans (content?_block.2 ha.value))
  have hlist := content?_list.1 ((hsame _ (.inr (.inr rfl))).trans (content?_list.2 ha.elements))
  have hone {x : Hold} (hx : x = .block b ∨ x = .list m) (hthere : (h'.content? x).isSome)
      (hold : h.count x = 1) : h'.count x = 1 :=
    Nat.le_antisymm (hold ▸ hle x hx) (hs.held x hthere)
  refine ⟨hblock, hvalue, hone (.inl rfl) ?_ ha.sole, ha.list, hone (.inr rfl) ?_ ha.listSole,
    hlist⟩
  · exact isSome_of_valueAt? hvalue
  · exact isSome_of_elements? hlist

/-- New cells leave it as it is. -/
theorem Alone.grows {touched : Hold → Prop} (ha : h.Alone i b w m js) (hg : h.Grows h' touched)
    (hb : ¬ touched (.block b)) (hm : ¬ touched (.list m)) : h'.Alone i b w m js where
  block := hg.blockOf? ha.block
  value := hg.valueAt? ha.value
  sole := by
    rw [hg.count _ (isSome_of_valueAt? ha.value) hb, ha.sole]
  list := ha.list
  listSole := by
    rw [hg.count _ (isSome_of_elements? ha.elements) hm, ha.listSole]
  elements := hg.elements? ha.elements

/-- What somebody holds is not harmed when other things are given up. -/
theorem Alone.release (ha : h.Alone i b w m js) (hs : h.Sound (zs ++ xs)) (hi : .handle i ∈ xs) :
    (h.release zs).Alone i b w m js := by
  have hr := released_release hs
  have hthere {x : Hold} (hx : ((h.release zs).content? x).isSome) :
      (h.release zs).content? x = h.content? x := by
    obtain ⟨k, hk⟩ := Option.isSome_iff_exists.1 hx
    rw [hk, hr.sub x k hk]
  have hhandle := hthere (hr.sound.isSome_of_mem hi)
  have hblock := hthere (hr.sound.isSome_of_mem_holdsOf (y := .handle i) (x := .block b) (by
    rw [holdsOf_eq (hhandle.trans (content?_handle.2 ha.block))]
    exact List.mem_singleton_self _))
  have hlist := hthere (hr.sound.isSome_of_mem_holdsOf (y := .block b) (x := .list m) (by
    rw [holdsOf, hblock, ← holdsOf]
    exact ha.block_holds))
  refine ha.of_same hr.sound (fun x hx ↦ ?_) fun x _ ↦ hs.count_release_le x
  rcases hx with rfl | rfl | rfl
  · exact hhandle
  · exact hblock
  · exact hlist

/-! ## Edits -/

section
variable (ha : h.Alone i b v m is) (hw : w.list? = some m)
include ha

theorem Alone.changes_withValue (w : Value Obj) :
    h.Changes (h.withValue b w) (.block b) (some (1, .value w)) := by
  refine Heap.changes_withValue (k := .value v) ?_ w
  obtain ⟨n, hn⟩ := exists_cell?_of_content? (content?_block.2 ha.value)
  rwa [← count_eq hn, ha.sole] at hn

theorem Alone.changes_withElements (w : Value Obj) (js : List HandleId) :
    (h.withValue b w).Changes ((h.withValue b w).withElements m js) (.list m)
      (some (1, .elements js)) := by
  refine Heap.changes_withElements (k := .elements is) ?_ js
  obtain ⟨n, hn⟩ := exists_cell?_of_content? (content?_list.2 ha.elements)
  rw [(ha.changes_withValue w).cell, if_neg (by simp), hn, ← count_eq hn, ha.listSole]

/-- An edit changes nothing but block and list. -/
theorem Alone.content?_edited (w : Value Obj) (js : List HandleId) {x : Hold} (hb : x ≠ .block b)
    (hm : x ≠ .list m) :
    ((h.withValue b w).withElements m js).content? x = h.content? x := by
  rw [(ha.changes_withElements w js).content?_of_ne hm, (ha.changes_withValue w).content?_of_ne hb]

include hw

/-- **The container after an edit.** -/
theorem Alone.edited (js : List HandleId) :
    ((h.withValue b w).withElements m js).Alone i b w m js := by
  have hv := ha.changes_withValue w
  have hl := ha.changes_withElements w js
  refine ⟨?_, ?_, ?_, hw, ?_, ?_⟩
  · rw [← content?_handle, ha.content?_edited w js (by simp) (by simp)]
    exact content?_handle.2 ha.block
  · rw [← content?_block, hl.content?_of_ne (by simp), hv.content?_self]
  · rw [hl.count, if_neg (by simp), hv.count, if_pos rfl]
  · rw [hl.count, if_pos rfl]
  · rw [← content?_list, hl.content?_self]

/-- Elements that come in were in no list, and those that leave go to the caller. -/
theorem Alone.sound_edited (hs : h.Sound (handleHolds added ++ xs))
    (hperm : (js ++ removed).Perm (is ++ added)) (hnodup : added.Nodup)
    (hloose : ∀ e ∈ added, h.uses (.handle e) = 0) :
    ((h.withValue b w).withElements m js).Sound (handleHolds removed ++ xs) := by
  have hc := ha.changes_withValue w
  have hcell : h.cell? (.block b) = some (1, .value v) := by
    obtain ⟨n, hn⟩ := exists_cell?_of_content? (content?_block.2 ha.value)
    rwa [← count_eq hn, ha.sole] at hn
  have hholds : w.holds = v.holds := by
    rw [holds_of_list? hw, holds_of_list? ha.list]
  have hblank (c : BlockId) (hc : h.blank = some c) (he : Hold.block b = .block c) : False := by
    cases he
    cases ha.value.symm.trans (hs.blank b hc)
    cases ha.list
  have hs₁ : (h.withValue b w).Sound (handleHolds added ++ xs) := by
    refine Sound.of_replaced [] [] hs hcell hc (fun y ↦ ?_) (fun e ↦ .inl ?_) hblank
    · rw [Content.holds, Content.holds, hholds]
    · rw [Content.holds, Content.holds, hholds]
  have huses (e : HandleId) : (h.withValue b w).uses (.handle e) = h.uses (.handle e) := by
    have hu := hc.uses (.handle e)
    rw [holdsOf_eq (content?_eq hcell), Content.holds, newHolds, Option.map_some,
      Option.getD_some, Content.holds, hholds] at hu
    omega
  refine hs₁.withElements (n := 1) ?_ hperm hnodup fun e he ↦ (huses e).trans (hloose e he)
  obtain ⟨n, hn⟩ := exists_cell?_of_content? (content?_list.2 ha.elements)
  rw [hc.cell, if_neg (by simp), hn, ← count_eq hn, ha.listSole]

end

/-- What is reached from something that is there is there. -/
theorem Sound.isSome_of_reaches (hs : h.Sound xs) {x y : Hold} (hx : (h.content? x).isSome)
    (hreach : h.Reaches x y) : (h.content? y).isSome := by
  cases hreach with
  | here _ => exact hx
  | next _ hz _ => exact hs.isSome_of_mem_holdsOf hz

@[simp] theorem length_seen (depth : Nat) (h : Heap Obj) (is : List HandleId) :
    (seen depth h is).length = is.length :=
  List.length_map _

/-- **Elements show what they showed** before block and list were edited: without circles they do
not lead back there. -/
theorem Alone.seen_eq (ha : h'.Alone i b w m js) (hs : h'.Sound xs) (hends : ¬ h'.Endless)
    (hsame : ∀ x k, x ≠ .block b → x ≠ .list m → h'.content? x = some k → h.content? x = some k)
    (depth : Nat) : seen depth h' js = seen depth h js := by
  have hkeeps : h'.Keeps h (handleHolds js) := by
    intro z hz y hreach
    obtain ⟨e, he, rfl⟩ := List.mem_map.1 hz
    have hlist : y ≠ .list m := fun hy ↦ hends ⟨_, _, ha.list_holds he, hy ▸ hreach⟩
    have hblock : y ≠ .block b := fun hy ↦
      hends ⟨_, _, ha.list_holds he, (hy ▸ hreach).next ha.block_holds⟩
    have hthere := hs.isSome_of_element ha.elements e he
    obtain ⟨k, hk⟩ := Option.isSome_iff_exists.1 (hs.isSome_of_reaches hthere hreach)
    rw [hk, hsame y k hblock hlist hk]
  exact (hkeeps.seen depth).symm

/-- The container is written out with what its elements show from some depth on. -/
theorem Alone.written (ha : h.Alone i b w m js) (hs : h.Sound xs) (hends : ¬ h.Endless)
    {ds : List (Datum Obj)} (bound : Nat) (hseen : ∀ depth, bound ≤ depth → seen depth h js = ds) :
    h.datum? (.array m) = some (.array ds) ∧
      ∀ names, h.datum? (.struct names m) =
        some (.struct (names.zip ds) (ds.drop names.length)) := by
  obtain ⟨ds', hds', hwritten⟩ := hs.exists_seen hends ha.elements
  obtain rfl : ds' = ds :=
    (hds' _ (Nat.le_max_left h.depth bound)).symm.trans (hseen _ (Nat.le_max_right _ _))
  exact hwritten

/-- Elements show what they showed but for one of them. -/
theorem seen_eq_set {place depth : Nat} {e : HandleId} {d : Datum Obj} (hnodup : js.Nodup)
    (he : js[place]? = some e) (hnew : outline depth h' (h'.shown e) = d)
    (hold : ∀ j ∈ js, j ≠ e → seen depth h' [j] = seen depth h [j]) :
    seen depth h' js = (seen depth h js).set place d := by
  obtain ⟨hlt, rfl⟩ := List.getElem?_eq_some_iff.1 he
  refine List.ext_getElem (by simp [seen]) fun k hk _ ↦ ?_
  simp only [seen, List.length_map] at hk
  rw [List.getElem_set]
  split
  · rename_i hplace
    subst hplace
    simpa [seen] using hnew
  · rename_i hplace
    have hne : js[k] ≠ js[place] := fun he ↦ hplace ((hnodup.getElem_inj_iff.1 he).symm)
    simpa [seen] using hold js[k] (List.getElem_mem hk) hne

/-- **An edit, with what left the list given up.** -/
theorem Alone.edit (ha : h.Alone i b v m is) (hs : h.Sound (handleHolds added ++ xs))
    (hi : .handle i ∈ xs) (hw : w.list? = some m) (hperm : (js ++ removed).Perm (is ++ added))
    (hnodup : added.Nodup) (hloose : ∀ e ∈ added, h.uses (.handle e) = 0)
    (hh' : h' = ((h.withValue b w).withElements m js).release (handleHolds removed)) :
    h'.Alone i b w m js ∧ (¬ h'.Endless → ∀ depth, seen depth h' js = seen depth h js) := by
  subst hh'
  have hs₁ := ha.sound_edited hw hs hperm hnodup hloose
  have hr := released_release hs₁
  have halone := (ha.edited hw js).release hs₁ hi
  refine ⟨halone, fun hends ↦ halone.seen_eq hr.sound hends fun x k hb hm hk ↦ ?_⟩
  rw [← ha.content?_edited w js hb hm]
  exact hr.sub x k hk

end Heap

/-- What an operation ends with does not depend on what is held meanwhile. -/
theorem Heap.ends_holding {α : Type} {act : HeapM Obj α} {h : Heap Obj} {xs : List Hold}
    {good : α → Heap Obj → Prop} {bad : Fault → Prop} (hact : Ends act h good fun f _ ↦ bad f) :
    Ends (Heap.holding xs act) h good fun f _ ↦ bad f :=
  hact.tryCatch fun _ t hf ↦ Ends.after (t := t.release xs) rfl (.throw hf)

/-! ## Before the edit -/

namespace Scene

variable [HostObject Obj] {h g g' : Heap Obj} {xs ys : List Hold} {hs : h.Sound xs}
  {i fresh : HandleId} {made : List HandleId} {a v : Value Obj} {b : BlockId} {l m : ListId}
  {is js : List HandleId}

/-- The scene of what comes before an edit: block and list are made the container's own, and nobody
sees that.  A container that shares nothing keeps its list. -/
def ofEditor {h : Heap Obj} {xs : List Hold} (hs : h.Sound xs) (i : HandleId) : Scene Obj :=
  { ofHeap hs (· = i) with
    unseen := True
    tied := fun j l ↦ j = i ∧ ¬ h.Endless ∧ h.Owns j l
    tied_before := fun _ _ ht ↦ ⟨ht.2.1, ht.2.2.stores⟩ }

theorem at_ofEditor (hs : h.Sound xs) (i : HandleId) : (ofEditor hs i).At [] [] h :=
  At.start (.refl _)

theorem sole_ofEditor (hs : h.Sound xs) (i : HandleId) : (ofEditor hs i).Sole h := by
  rintro j l ⟨-, -, b, v, hi, hblock, -, -, hlist⟩
  exact ⟨b, hi, hblock, hlist⟩

theorem target_ofEditor (hs : h.Sound xs) (hi : .handle i ∈ xs) : (ofEditor hs i).Target i :=
  ⟨hi, rfl, fun _ _ ht ↦ ht.1⟩

theorem target_ofHeap (hs : h.Sound xs) (hi : .handle i ∈ xs) :
    (ofHeap hs (· = i)).Target i :=
  ⟨hi, rfl, fun _ _ ↦ False.elim⟩

/-- The scene of an operation that may write to all that a variable leads to. -/
def ofWriter {h : Heap Obj} {xs : List Hold} (hs : h.Sound xs) (i : HandleId) : Scene Obj :=
  { ofHeap hs (· = i) with spared := fun _ ↦ False }

theorem at_ofWriter (hs : h.Sound xs) (i : HandleId) : (ofWriter hs i).At [] [] h :=
  At.start (.refl _)

theorem calm_ofWriter (hs : h.Sound xs) (i : HandleId) : (ofWriter hs i).Calm h :=
  calm_before fun _ _ ↦ False.elim

theorem target_ofWriter (hs : h.Sound xs) (hi : .handle i ∈ xs) : (ofWriter hs i).Target i :=
  ⟨hi, rfl, fun _ _ ↦ False.elim⟩

/-- Without circles such an operation has a result unless a pool has no block left, and leaves a
heap that is in order and without circles. -/
theorem exists_outcome {α : Type} {act : HeapM Obj α} {good : α → Heap Obj → Prop}
    {holds : α → List Hold} (hs : h.Sound xs) (hends : ¬ h.Endless)
    (hsafe : (ofWriter hs i).Leads act h (fun r g ↦ (ofWriter hs i).At [] (holds r) g)
      ((ofWriter hs i).Faults [] []))
    (hgood : Ends act h good fun _ _ ↦ True) (hplenty : ¬ Exhausts act h) :
    ∃ r g, act h = .ok r g ∧ g.Sound (holds r ++ xs) ∧ ¬ g.Endless ∧ good r g := by
  obtain ⟨r, g, hrun, ha⟩ := runs_of_faults (hsafe False.elim) hends trivial hplenty
  exact ⟨r, g, hrun, ha.sound, ha.acyclic hends, hgood.get hrun⟩

/-- The block of the container is its own. -/
structure Opened (hs : h.Sound xs) (i : HandleId) (a : Value Obj) (made : List HandleId)
    (ys : List Hold) (b : BlockId) (g : Heap Obj) : Prop where
  here : (ofEditor hs i).At made ys g
  block : g.blockOf? i = some b
  owned : (ofEditor hs i).Owned g b a
  ready : (ofEditor hs i).Ready g a
  steady : h.Steady g
  kept : ∀ l, ¬ h.Endless → h.Owns i l → g.Owns i l

/-- Block and list of the container are its own. -/
structure Listed (hs : h.Sound xs) (i : HandleId) (a : Value Obj) (made : List HandleId)
    (ys : List Hold) (b : BlockId) (m : ListId) (js : List HandleId) (g : Heap Obj) : Prop where
  here : (ofEditor hs i).At made ys g
  alone : g.Alone i b (a.withList m) m js
  kept : ∀ l, ¬ h.Endless → h.Owns i l → m = l ∧ h.elements? l = some js

theorem calm_ofEditor (hs : h.Sound xs) (i : HandleId) : (ofEditor hs i).Calm h :=
  calm_before (sole_ofEditor hs i)

/-- The block of a container is made its own. -/
theorem At.opened (hs : h.Sound xs) (hi : .handle i ∈ xs) (hv : h.valueOf? i = some a) :
    Ends (Heap.own i) h (fun b g ↦ Opened hs i a [] [] b g) fun _ _ ↦ True := by
  have ht := target_ofEditor hs hi
  have hown := (at_ofEditor hs i).own (calm_ofEditor hs i) (ht.mem []) (ht.free h) hv False.elim
  have hsame : (∃ l, h.Owns i l) → Ends (Heap.own i) h (fun _ g ↦ g = h) fun _ _ ↦ True := by
    rintro ⟨l, ho⟩
    obtain ⟨b, hrun⟩ := ho.own
    exact .of_ok hrun rfl
  refine (hown.andIf hsame).mono ?_ fun _ _ _ ↦ trivial
  rintro b g ⟨⟨hg, hsteady, hblock, howned, hready⟩, hsame⟩
  refine ⟨hg, hblock, howned, hready, hsteady, fun l _ ho ↦ ?_⟩
  rwa [hsame ⟨l, ho⟩]

/-- The same with a new handle that was made for a value before. -/
theorem At.openedWith {h₁ : Heap Obj} (hi : .handle i ∈ xs) (hv : h.valueOf? i = some a)
    (ha₁ : (ofEditor hs i).At [fresh] [] h₁) (hadds : h.Adds h₁) (hsole : (ofEditor hs i).Sole h₁)
    (hbears : (ofEditor hs i).Bears h₁ fresh v (.handle i)) :
    Ends (Heap.holding [.handle fresh] (Heap.own i)) h₁
      (fun b g ↦ Opened hs i a [fresh] [] b g ∧ (ofEditor hs i).Bears g fresh v (.block b))
      fun _ _ ↦ True := by
  have ht := target_ofEditor hs hi
  have hkept (l : ListId) (hends : ¬ h.Endless) (ho : h.Owns i l) : h₁.Owns i l :=
    hsole.owns ha₁ ⟨rfl, hends, ho⟩
  have hcalm := (calm_ofEditor hs i).adds hadds hsole
  have hown := ht.ownHolding ha₁ hcalm (hadds.valueOf? hs hv) False.elim hbears
  have hsame : (∃ l, h₁.Owns i l) →
      Ends (Heap.holding [.handle fresh] (Heap.own i)) h₁ (fun _ g ↦ g = h₁) fun _ _ ↦ True := by
    rintro ⟨l, ho⟩
    obtain ⟨b, hrun⟩ := ho.own
    exact .of_ok (tryCatch_of_ok hrun) rfl
  refine (hown.andIf hsame).mono ?_ fun _ _ _ ↦ trivial
  rintro b g ⟨⟨hg, hsteady, hblock, howned, hready, hbears'⟩, hsame⟩
  refine ⟨⟨hg, hblock, howned, hready, hadds.quiet.steady.trans hsteady, fun l hends ho ↦ ?_⟩,
    hbears'⟩
  have ho₁ := hkept l hends ho
  rwa [hsame ⟨l, ho₁⟩]

/-- What is known when the list is made the block's own, too. -/
theorem Opened.listed (ho : Opened hs i a made ys b g) (hl : a.list? = some l)
    (ha' : (ofEditor hs i).At made ys g') (hown : (ofEditor hs i).OwnedList g g' b a m)
    (hsame : g.count (.list l) = 1 → m = l ∧ g' = g) : ∃ js, Listed hs i a made ys b m js g' := by
  obtain ⟨js, hjs⟩ := hown.exists_elements
  refine ⟨js, ha', ⟨hown.blocks i b ho.block, hown.block.value, hown.block.sole,
    Heap.list?_withList hl m, hown.list.sole, hjs⟩, fun l' hends howns ↦ ?_⟩
  obtain ⟨b', v, hi, -, hb, hvl, hone⟩ := ho.kept l' hends howns
  obtain rfl := Option.some.inj (ho.block.symm.trans hi)
  obtain rfl := Option.some.inj (ho.owned.value.symm.trans hb)
  obtain rfl := Option.some.inj (hl.symm.trans hvl)
  obtain ⟨rfl, rfl⟩ := hsame hone
  obtain ⟨b₀, v₀, -, -, hb₀, hvl₀, -⟩ := howns
  exact ⟨rfl, ho.steady.lists m js (hs.born_of_mem_holdsOf (Heap.list_mem_holdsOf hb₀ hvl₀)) hjs⟩

theorem Opened.ownListIn_same (ho : Opened hs i a made ys b g) (hl : a.list? = some l)
    (hone : g.count (.list l) = 1) : Heap.ownListIn b g = .ok (some l) g :=
  Heap.ownListIn_eq ho.owned.value hl hone

/-- The list of a container is made its own. -/
theorem Opened.ownListIn (ho : Opened hs i a made ys b g) (hl : a.list? = some l) :
    Ends (Heap.ownListIn b) g (fun r g' ↦ ∃ m js, r = some m ∧ Listed hs i a made ys b m js g')
      fun _ _ ↦ True := by
  have hown := ho.here.ownListIn ho.owned ho.ready
  have hkept : g.count (.list l) = 1 →
      Ends (Heap.ownListIn b) g (fun r g' ↦ r = some l ∧ g' = g) fun _ _ ↦ True :=
    fun hone ↦ .of_ok (ho.ownListIn_same hl hone) ⟨rfl, rfl⟩
  refine (hown.andIf hkept).mono ?_ fun _ _ _ ↦ trivial
  rintro r g' ⟨⟨ha', -, hr, hnone⟩, hsame⟩
  cases r with
  | none => cases hl.symm.trans (hnone rfl)
  | some m =>
    obtain ⟨js, hlisted⟩ := ho.listed hl ha' (hr m rfl) fun hone ↦
      (hsame hone).imp_left Option.some.inj
    exact ⟨m, js, rfl, hlisted⟩

/-- Block and list of a container are made its own. -/
theorem At.listed (hs : h.Sound xs) (hi : .handle i ∈ xs) (hv : h.valueOf? i = some a)
    (hl : a.list? = some l) :
    Ends (Heap.ownContainer i) h
      (fun r g ↦ ∃ b m js, r = some m ∧ Listed hs i a [] [] b m js g) fun _ _ ↦ True :=
  Ends.bind (At.opened hs hi hv) fun b _ hopened ↦
    (hopened.ownListIn hl).mono (fun _ _ hlisted ↦ ⟨b, hlisted⟩) fun _ _ _ ↦ trivial

/-- The same while a new handle is held. -/
theorem Opened.ownListHolding (ho : Opened hs i a [fresh] [] b g) (hl : a.list? = some l)
    (hbears : (ofEditor hs i).Bears g fresh v (.block b)) :
    Ends (Heap.holding [.handle fresh] (Heap.ownListIn b)) g
      (fun r g' ↦ ∃ m js, r = some m ∧ Listed hs i a [fresh] [] b m js g' ∧
        (ofEditor hs i).Bears g' fresh v (.list m))
      fun _ _ ↦ True := by
  have hown := ho.here.ownListHolding ho.owned ho.ready hbears
  refine (hown.and (Heap.ends_holding (ho.ownListIn hl))).mono ?_ fun _ _ _ ↦ trivial
  rintro r g' ⟨⟨-, -, hr⟩, m, js, rfl, hlisted⟩
  exact ⟨m, js, rfl, hlisted, (hr m rfl).2⟩

theorem Listed.grows {made' : List HandleId} {ys' : List Hold} {touched : Hold → Prop}
    (hl : Listed hs i a made ys b m js g) (ha' : (ofEditor hs i).At made' ys' g')
    (hg : g.Grows g' touched) (hb : ¬ touched (.block b)) (hm : ¬ touched (.list m)) :
    Listed hs i a made' ys' b m js g' :=
  ⟨ha', hl.alone.grows hg hb hm, hl.kept⟩

/-- One more hold of a handle. -/
theorem Listed.share {e : HandleId} (hl : Listed hs i a made ys b m js g)
    (he : (g.content? (.handle e)).isSome) :
    Listed hs i a made (.handle e :: ys) b m js (g.retainOne (.handle e)) := by
  obtain ⟨ha', hg⟩ := hl.here.retainOne he
  exact hl.grows ha' hg (by simp) (by simp)

/-- New cells leave the block of the container its own. -/
theorem Opened.grows {made' : List HandleId} {ys' : List Hold} {touched : Hold → Prop}
    (ho : Opened hs i a made ys b g) (ha' : (ofEditor hs i).At made' ys' g')
    (hg : g.Grows g' touched) (hb : ¬ touched (.block b))
    (hl : ∀ l, ¬ h.Endless → h.Owns i l → ¬ touched (.list l)) :
    Opened hs i a made' ys' b g' := by
  refine ⟨ha', hg.blockOf? ho.block, ho.owned.grows ho.here hg hb, ?_,
    ho.steady.trans hg.quiet.steady, fun l hends howns ↦ ?_⟩
  · refine ho.ready.grows ho.here ho.owned.value hg ?_
    rintro _ l ⟨rfl, hends, howns⟩ -
    exact hl l hends howns
  · have hlist := hl l hends howns
    obtain ⟨b', v, hi, hblock, hv, hvl, hone⟩ := ho.kept l hends howns
    obtain rfl := Option.some.inj (ho.block.symm.trans hi)
    refine ⟨b, v, hg.blockOf? hi, ?_, hg.valueAt? hv, hvl, ?_⟩
    · rw [hg.count _ (Heap.isSome_of_valueAt? hv) hb, hblock]
    · rw [hg.count _ (isSome_of_count (by rw [hone]; exact Nat.one_pos)) hlist, hone]

theorem Opened.share {e : HandleId} (ho : Opened hs i a made ys b g)
    (he : (g.content? (.handle e)).isSome) :
    Opened hs i a made (.handle e :: ys) b (g.retainOne (.handle e)) := by
  obtain ⟨ha', hg⟩ := ho.here.retainOne he
  exact ho.grows ha' hg (by simp) (by simp)

/-- **Nobody sees that a container was made its own**: its elements show what they showed. -/
theorem Listed.seen (hl : Listed hs i a made ys b m js g) (hi : .handle i ∈ xs)
    (hv : h.valueOf? i = some a) (hal : a.list? = some l) (his : h.elements? l = some is)
    (depth : Nat) : Heap.seen depth g js = Heap.seen depth h is := by
  have hthere : (g.content? (.handle i)).isSome :=
    hl.here.isSome_of_mem (List.mem_append_right _ hi)
  have hshape : Heap.shape (depth + 1) g (.handle i) = Heap.shape (depth + 1) h (.handle i) :=
    (hl.here.shown trivial _ (hs.born_of_mem hi) hthere).2 (depth + 1)
  rw [Heap.shape, Heap.shape, hl.alone.valueOf?, hv] at hshape
  have houtline := congrArg Datum.elements (List.cons.inj hshape).1
  rwa [Heap.elements_outline hl.alone.list, Heap.elements_outline hal,
    Heap.shape_list hl.alone.elements, Heap.shape_list his] at houtline

/-- It has as many elements as before. -/
theorem Listed.length_eq (hl : Listed hs i a made ys b m js g) (hi : .handle i ∈ xs)
    (hv : h.valueOf? i = some a) (hal : a.list? = some l) (his : h.elements? l = some is) :
    js.length = is.length := by
  have hseen := congrArg List.length (hl.seen hi hv hal his 0)
  rwa [Heap.length_seen, Heap.length_seen] at hseen

/-- If it shared nothing, it has the list and the elements that it had. -/
theorem Listed.same {l' : ListId} (hl : Listed hs i a made ys b m js g)
    (hv : h.valueOf? i = some a) (hal : a.list? = some l) (his : h.elements? l = some is)
    (hends : ¬ h.Endless) (howns : h.Owns i l') : m = l' ∧ js = is := by
  obtain ⟨rfl, hjs⟩ := hl.kept l' hends howns
  obtain ⟨b', v', hi', -, hb', hl', -⟩ := howns
  rw [Heap.valueOf?, hi', Option.bind_some, hb'] at hv
  cases hv
  obtain rfl := Option.some.inj (hal.symm.trans hl')
  exact ⟨rfl, Option.some.inj (hjs.symm.trans his)⟩

/-- A value that somebody has is seen as before, too. -/
theorem At.outline_given (ha : (ofEditor hs i).At made ys g)
    (hv : ∀ y ∈ v.holds, (h.content? y).isSome) (hthere : ∀ y ∈ v.holds, (g.content? y).isSome)
    (depth : Nat) : Heap.outline depth g v = Heap.outline depth h v := by
  refine Heap.outline_of_list (fun l hl ↦ ?_) depth
  have hmem : Hold.list l ∈ v.holds :=
    Heap.list_mem_holds hl
  obtain ⟨k, hk⟩ := Option.isSome_iff_exists.1 (hv _ hmem)
  exact (ha.shown trivial _ (Heap.born_of_content? hs.tidy hk) (hthere _ hmem)).2

/-! ## Edits -/

/-- **An edit of a container that was made its own.** -/
theorem Listed.edit {w : Value Obj} {js' added removed : List HandleId}
    (hl : Listed hs i a added ys b m js g) (hi : .handle i ∈ xs) (hw : w.list? = some m)
    (hperm : (js' ++ removed).Perm (js ++ added))
    (hg' : g' = ((g.withValue b w).withElements m js').release (handleHolds removed)) :
    g'.Alone i b w m js' ∧
      (¬ g'.Endless → ∀ depth, Heap.seen depth g' js' = Heap.seen depth g js') :=
  hl.alone.edit hl.here.sound (List.mem_append_right _ hi) hw hperm hl.here.nodup hl.here.loose hg'

/-- The same where the value in the block stays. -/
theorem Listed.editElements {js' added removed : List HandleId}
    (hl : Listed hs i a added ys b m js g) (hi : .handle i ∈ xs)
    (hperm : (js' ++ removed).Perm (js ++ added))
    (hg' : g' = (g.withElements m js').release (handleHolds removed)) :
    g'.Alone i b (a.withList m) m js' ∧
      (¬ g'.Endless → ∀ depth, Heap.seen depth g' js' = Heap.seen depth g js') := by
  refine hl.edit hi hl.alone.list hperm ?_
  rw [Heap.withValue_self hl.alone.value, hg']

/-- A new handle in the place of an element. -/
theorem Listed.replaceElement {place : Nat} {old : HandleId}
    (hl : Listed hs i a [fresh] ys b m js g) (hi : .handle i ∈ xs) (hold : js[place]? = some old) :
    Ends (Heap.replaceElement m place fresh) g
      (fun _ g' ↦ g'.Alone i b (a.withList m) m (js.set place fresh) ∧
        (¬ g'.Endless → ∀ depth,
          Heap.seen depth g' (js.set place fresh) = Heap.seen depth g (js.set place fresh)))
      fun _ _ ↦ True := by
  rw [Heap.replaceElement]
  refine Ends.after (Heap.look_eq hl.alone.elements) ?_
  rw [hold]
  exact Ends.after rfl (.of_ok rfl (hl.editElements hi (perm_set fresh hold) rfl))

/-- A value that others have, or a block of theirs, is seen from there. -/
theorem Given.exists_remote {c : Scene Obj} (hv : c.Given [] v) (hspared : ∀ i, c.spared i)
    (houtside : ∀ x ∈ c.outside, c.before.Born x)
    (hclear : ∀ y ∈ v.holds, ∀ i, c.blocked i → ¬ c.before.Reaches y (.handle i)) :
    ∀ y ∈ v.holds, ∃ r, c.Remote r ∧ c.before.Reaches r y := by
  intro y hy
  rcases hv y hy with hmem | ⟨b, hb, hmem⟩
  · exact ⟨y, ⟨fun j _ ↦ hspared j, houtside y hmem, hmem, hclear y hy⟩, .refl _ y⟩
  · refine ⟨.block b, ⟨fun j _ ↦ hspared j, houtside _ hb, hb, fun j hj hreach ↦ ?_⟩,
      (Heap.Reaches.refl _ _).next hmem⟩
    obtain he | ⟨z, hz, hzj⟩ := hreach.cases_head
    · cases he
    · exact hclear y hy j hj (Heap.eq_of_mem_holdsOf_block hmem hz ▸ hzj)

section
variable {zs : List Hold} {w : Value Obj} {e j : HandleId} {hz : h.Sound (zs ++ xs)}

/-- The scene of a write to an element. -/
def ofElement {h : Heap Obj} {zs xs : List Hold} (hs : h.Sound (zs ++ xs)) (e : HandleId) :
    Scene Obj :=
  { ofHeap hs (· = e) with outside := xs }

theorem at_ofElement (hs : h.Sound (zs ++ xs)) (e : HandleId) : (ofElement hs e).At [] zs h :=
  At.start (.refl _)

/-- A container keeps its own cells when one of its elements is written. -/
theorem At.same_of_alone (ha : (ofElement hz e).At made ys g) (hal : h.Alone i b w m js)
    (hi : .handle i ∈ xs) (hne : i ≠ e) (x : Hold)
    (hx : x = .handle i ∨ x = .block b ∨ x = .list m) : g.content? x = h.content? x := by
  have hlooks : (ofElement hz e).Looks g (.handle i) :=
    ⟨fun _ _ ↦ trivial, hz.born_of_mem (List.mem_append_right _ hi), .inl hi⟩
  have hhandle : h.Clear (· = e) (.handle i) (.handle i) :=
    .here fun j hj hje ↦ hne ((Hold.handle.inj hj).trans hje)
  have hblock : h.Clear (· = e) (.handle i) (.block b) :=
    hhandle.next (Heap.mem_holdsOf_of_blockOf? hal.block) (by simp)
  rcases hx with rfl | rfl | rfl
  · exact ha.kept _ hlooks _ hhandle
  · exact ha.kept _ hlooks _ hblock
  · exact ha.kept _ hlooks _ (hblock.next hal.block_holds (by simp))

/-- So do its other elements, with all that they lead to. -/
theorem At.keeps_of_alone (ha : (ofElement hz e).At made ys g) (hal : h.Alone i b w m js)
    (hends : ¬ h.Endless) (he : e ∈ js) (hj : j ∈ js) (hne : j ≠ e)
    (hthere : (g.content? (.handle j)).isSome) : h.Keeps g (handleHolds [j]) := by
  intro z hz' y hreach
  obtain rfl := List.mem_singleton.1 hz'
  refine ha.kept _ ⟨fun _ _ ↦ trivial, ?_, .inr ⟨⟨j, rfl⟩, hthere⟩⟩ y (hreach.clear ?_)
  · exact hz.born_of_mem_holdsOf (hal.list_holds hj)
  · -- a way from one element to another would come from the list
    rintro _ rfl hway
    rcases hway.holder (hal.list_holds he) (hz.single _) with hsame | hlist
    · exact hne (Hold.handle.inj hsame)
    · exact hends ⟨_, _, hal.list_holds hj, hlist⟩

/-- And so does the value that is written, which does not lead to the element. -/
theorem At.keeps_given (ha : (ofElement hz e).At made ys g) (hv : (ofElement hz e).Given [] v)
    (hclear : ∀ y ∈ v.holds, ¬ h.Reaches y (.handle e)) : h.Keeps g v.holds := by
  intro z hz' y hreach
  have hfar : ∀ y ∈ v.holds, ∀ j, j = e → ¬ h.Reaches y (.handle j) := by
    rintro y hy _ rfl
    exact hclear y hy
  have hborn : ∀ x ∈ xs, h.Born x := fun x hx ↦ hz.born_of_mem (List.mem_append_right _ hx)
  obtain ⟨x, hx, hxz⟩ := hv.exists_remote (fun _ ↦ trivial) hborn hfar z hz'
  exact ha.kept x (hx.looks g) y (hx.clear (hxz.trans hreach))

end

/-- **An element that is written in place.**  The container keeps its elements; the one that was
written shows the value, the others and the value show what they showed. -/
theorem Listed.assignExisting {place : Nat} {e : HandleId}
    (hl : Listed hs i a [fresh] [] b m js g) (hi : .handle i ∈ xs) (hends : ¬ h.Endless)
    (hv : (ofEditor hs i).Given [] v) (hbears : (ofEditor hs i).Bears g fresh v (.list m))
    (he : js[place]? = some e) :
    Ends (Heap.assignExisting e fresh v) (g.retainOne (.handle e))
      (fun r g' ↦ r = e ∧ g'.Alone i b (a.withList m) m js ∧
        ∀ depth, Heap.seen depth g' js = (Heap.seen depth g js).set place (Heap.outline depth g v))
      fun _ _ ↦ True := by
  have hal := hl.alone
  have hmem := List.mem_of_getElem? he
  have hthere := hl.here.isSome_of_element hal.elements e hmem
  obtain ⟨n, k, hcell⟩ : ∃ n k, g.cell? (.handle e) = some (n, k) := by
    obtain ⟨k, hk⟩ := Option.isSome_iff_exists.1 hthere
    exact ⟨_, k, At.exists_cell? hk⟩
  have hcontent (y : Hold) : (g.retainOne (.handle e)).content? y = g.content? y :=
    content?_retainOne hcell y
  obtain ⟨hfresh, hnot⟩ := hbears hends
  have hne : i ≠ e := hal.ne_of_mem (hl.here.acyclic hends) hmem
  -- the same moment seen from the element
  have hl₁ := hl.share hthere
  have hs₁ : (g.retainOne (.handle e)).Sound ([.handle e, .handle fresh] ++ xs) :=
    (hl₁.here.settle.perm (.swap _ _ _)).sound
  have hends₁ : ¬ (g.retainOne (.handle e)).Endless := hl₁.here.acyclic hends
  have hapart : (ofElement hs₁ e).Clears (g.retainOne (.handle e)) v.holds (.handle e) :=
    fun _ y hy hreach ↦ hbears.element hl.here hal.elements hmem hends y hy
      (hreach.mono fun z w hw ↦ by rwa [Heap.holdsOf, hcontent, ← Heap.holdsOf] at hw)
  have hgiven : (ofElement hs₁ e).Given [] v := by
    intro y hy
    refine (hv y hy).imp_right ?_
    rintro ⟨b', hb', hy'⟩
    exact ⟨b', hb', by rwa [← hl₁.here.holdsOf_given hb' hy'] at hy'⟩
  have hwrite := (at_ofElement hs₁ e).assignExisting hgiven False.elim (fun b _ ↦ Nat.le_refl _) id
    hapart (fun _ ↦ id)
  have hshows :=
    hl.here.assignExisting_shows hthere (w := v) (hl.here.isSome_of_given hv) False.elim
  refine (((hwrite False.elim).mono (fun _ _ hh ↦ hh) fun _ _ _ ↦ trivial).and hshows).mono ?_
    fun _ _ _ ↦ trivial
  rintro r g' ⟨⟨hr, ha'⟩, ⟨-, hvalue⟩, hcount⟩
  replace ha' := ha' (free_of_blocked rfl _)
  have hal' : g'.Alone i b (a.withList m) m js := by
    refine hal.of_same ha'.sound (fun x hx ↦ ?_) fun x hx ↦ ?_
    · rw [ha'.same_of_alone hl₁.alone hi hne x hx, hcontent]
    · refine hcount _ (hal.isSome hx) (hal.not_unset hx) (fun hy ↦ ?_) ?_
      · rcases hx with rfl | rfl
        · exact Value.not_block_mem_holds v b hy
        · obtain ⟨b', hy', hb'⟩ := Heap.reaches_of_valueOf? hfresh hy
          exact hnot (hb'.next hy')
      · rcases hx with rfl | rfl <;> simp
  have hsame : g.Keeps (g.retainOne (.handle e)) v.holds := fun _ _ y _ ↦ hcontent y
  have hkeeps := ha'.keeps_given hgiven (hapart hends₁)
  refine ⟨hr, hal', fun depth ↦ ?_⟩
  refine Heap.seen_eq_set (hl.here.sound.nodup_elements hal.elements) he ?_ fun j hj hother ↦ ?_
  · rw [Heap.shown_eq hvalue, hkeeps.outline, hsame.outline]
  · have hthere' := ha'.sound.isSome_of_element hal'.elements j hj
    have hcells : g.Keeps (g.retainOne (.handle e)) (handleHolds [j]) := fun _ _ y _ ↦ hcontent y
    rw [(ha'.keeps_of_alone hl₁.alone hends₁ hmem hj hother hthere').seen, hcells.seen]

end Scene
end ScriptHeap
