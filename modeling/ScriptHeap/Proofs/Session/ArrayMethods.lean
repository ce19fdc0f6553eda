import ScriptHeap.Proofs.Heap.Arrays
import ScriptHeap.Proofs.Session.ElementWriting

/-!
# Array methods as list operations

Calls of array methods, one after the other, do to what an array shows what they do to a list, and
answer what they answer for a list.  The value that is put in may be the array itself: it is put in
with the contents that it had before the call.

## What is here

* `Heap.Operands.answersAll` — calls one after the other, on what an array shows and on its handles.
* `Heap.written` — the datum that a value is written out as.
* `Heap.ListLike` — what it means that an array is a list; `Heap.array_is_list` says that it is one.
* `Session.append_parted` — an array that a snapshot was taken of gives up its elements when another
  one is appended.
-/

set_option autoImplicit false
namespace ScriptHeap

variable {Obj : Type} [HostObject Obj]

namespace Heap

variable {h g : Heap Obj} {xs ys : List Hold} {i : HandleId} {a a' v w : Value Obj} {l m : ListId}
  {is js : List HandleId} {call : ListCall Obj} {calls : List (ListCall Obj)}

/-! ## One call -/

/-- A call has an answer unless a pool has no block left.  Nothing else that is seen from outside
changes. -/
theorem Operands.answers (ho : h.Operands xs i (.array l) call.value)
    (his : h.elements? l = some is) (hplenty : ¬ Exhausts (Heap.perform i call) h) :
    ∃ g m js, Heap.perform i call h = .ok (some (call.answer is.length)) g ∧
      (Scene.ofHeap ho.sound (· = i)).At [] [] g ∧
      h.Edited i is (call.edit is.length) call.value m js g := by
  have hstart := Scene.at_ofHeap ho.sound (· = i)
  have hgiven (w : Value Obj) (hw : w ∈ call.args) :
      (Scene.ofHeap ho.sound (· = i)).Given [] w := by
    rcases ListCall.mem_args hw with hnone | rfl
    · intro y hy
      rw [hnone] at hy
      cases hy
    · exact ho.given
  have hclear (w : Value Obj) (hw : w ∈ call.args) :
      (Scene.ofHeap ho.sound (· = i)).Clears h w.holds (.handle i) := by
    rcases ListCall.mem_args hw with hnone | rfl
    · exact .of_nil hnone _ _
    · exact fun _ ↦ ho.apart
  have hsafe := (Scene.target_ofHeap ho.sound ho.held).dispatch hstart
    (Scene.calm_before fun _ _ ↦ False.elim) call.method hgiven False.elim False.elim hclear
    fun _ _ _ _ _ _ _ ↦ False.elim
  obtain ⟨r, g, hrun, ha, -⟩ :=
    Scene.runs_of_faults (hsafe False.elim) ho.grounded trivial hplenty
  obtain ⟨rfl, m, js, hedited⟩ := (ho.perform his).get hrun
  refine ⟨g, m, js, hrun, ?_, hedited⟩
  rwa [Option.map_some, Option.getD_some, ListCall.holds_answer] at ha

/-- Operands are operands still after the variable was changed, and the right one shows what it
showed. -/
theorem Operands.later (ho : h.Operands xs i a v) (ha : (Scene.ofHeap ho.sound (· = i)).At [] [] g)
    (hv : g.valueOf? i = some a') :
    g.Operands xs i a' v ∧ ∀ depth, Heap.outline depth g v = Heap.outline depth h v := by
  refine ⟨⟨ha.sound, ha.acyclic ho.grounded, ho.held, hv, fun y hy ↦ ?_, fun y hy hreach ↦ ?_⟩,
    (ho.keeps ha).outline⟩
  · refine (ho.right y hy).imp_right ?_
    rintro ⟨b, hb, hmem⟩
    exact ⟨b, hb, by rwa [ha.holdsOf_given hb hmem]⟩
  · have hapart : ∀ y ∈ v.holds, ∀ j, j = i → ¬ h.Reaches y (.handle j) := by
      rintro y hy _ rfl
      exact ho.apart y hy
    obtain ⟨r, hr, hry⟩ := ho.given.exists_remote (fun _ ↦ trivial)
      (fun x hx ↦ ho.sound.born_of_mem hx) hapart y hy
    have hway := ((hr.clear hry).congr (ha.kept r (hr.looks g))).reaches
    exact ha.not_reaches hr (Scene.free_of_blocked rfl g) (hway.trans hreach)

/-! ## Calls one after the other -/

omit [HostObject Obj] in
theorem Owns.list_eq (ho : h.Owns i m) (hv : h.valueOf? i = some a) (hl : a.list? = some l) :
    l = m := by
  obtain ⟨b, w, hi, -, hb, hw, -⟩ := ho
  rw [valueOf?, hi, Option.bind_some, hb] at hv
  obtain rfl := Option.some.inj hv
  exact Option.some.inj (hl.symm.trans hw)

/-- **Calls one after the other** do to an array what they do to a list, both to what its elements
show and, if it shared nothing before, to their handles. -/
theorem Operands.answersAll (ho : h.Operands xs i (.array l) .uninit)
    (his : h.elements? l = some is)
    (hops : ∀ call ∈ calls, h.Operands xs i (.array l) call.value)
    (hplenty : ¬ Exhausts (calls.mapM (Heap.perform i)) h) :
    ∃ rs g m js, calls.mapM (Heap.perform i) h = .ok rs g ∧
      g.Operands xs i (.array m) .uninit ∧ g.elements? m = some js ∧
      (∀ depth, ListCall.run calls (calls.map fun call ↦ Heap.outline depth h call.value)
        (Heap.seen depth h is) = (rs, Heap.seen depth g js)) ∧
      ∀ l', h.Owns i l' → g.Owns i l' ∧ m = l' ∧
        ∃ es, es.length = calls.length ∧ ListCall.run calls es is = (rs, js) := by
  induction calls generalizing h l is with
  | nil =>
    refine ⟨[], h, l, is, rfl, ho, his, fun _ ↦ rfl, fun l' howns ↦ ?_⟩
    exact ⟨howns, howns.list_eq ho.left rfl, [], rfl, rfl⟩
  | cons call calls ih =>
    rw [List.mapM_cons] at hplenty ⊢
    have hcall := hops call List.mem_cons_self
    obtain ⟨g₁, m₁, js₁, hrun, ha, hedited⟩ := hcall.answers his fun he ↦ hplenty he.bind
    have hops₁ (c : ListCall Obj) (hc : c ∈ calls) : g₁.Operands xs i (.array m₁) c.value :=
      ((hops c (List.mem_cons_of_mem _ hc)).later ha hedited.value).1
    obtain ⟨rs, g, m, js, hruns, ho', hjs, hseen, hkept⟩ :=
      ih (ho.later ha hedited.value).1 hedited.elements hops₁
        fun he ↦ hplenty (Exhausts.after he.bind hrun)
    refine ⟨_, g, m, js, (bind_of_ok hrun).trans (bind_of_ok hruns), ho', hjs, fun depth ↦ ?_,
      fun l' howns ↦ ?_⟩
    · have hnews : (calls.map fun c ↦ Heap.outline depth h c.value) =
          calls.map fun c ↦ Heap.outline depth g₁ c.value := by
        refine List.map_congr_left fun c hc ↦ ?_
        exact (((hops c (List.mem_cons_of_mem _ hc)).later ha hedited.value).2 depth).symm
      rw [List.map_cons, ListCall.run, hnews, length_seen,
        ← hedited.seen (ha.acyclic ho.grounded) depth, hseen]
    · obtain ⟨howns₁, -, e, rfl⟩ := hedited.kept l' howns
      obtain ⟨howns', hm, es, hlength, hes⟩ := hkept l' howns₁
      exact ⟨howns', hm, e :: es, congrArg Nat.succ hlength, by rw [ListCall.run, hes]⟩

/-! ## What is written out -/

/-- The datum that a value is written out as. -/
def written (h : Heap Obj) (v : Value Obj) : Datum Obj :=
  (h.datum? v).getD (.scalar .uninit)

omit [HostObject Obj] in
theorem Sound.written (hs : h.Sound xs) (hends : ¬ h.Endless)
    (hv : ∀ y ∈ v.holds, (h.content? y).isSome) :
    h.datum? v = some (h.written v) ∧
      ∀ depth, h.depth ≤ depth → Heap.outline depth h v = h.written v := by
  obtain ⟨d, hd, hdv⟩ := hs.exists_datum hends hv
  obtain rfl : h.written v = d := by
    rw [Heap.written, hd, Option.getD_some]
  exact ⟨hd, hdv⟩

omit [HostObject Obj] in
/-- An array is written out as what its elements show from some depth on. -/
theorem Sound.contents_array {ds : List (Datum Obj)} (hs : g.Sound ys) (hends : ¬ g.Endless)
    (hv : g.valueOf? i = some (.array m)) (hjs : g.elements? m = some js) (bound : Nat)
    (hseen : ∀ depth, bound ≤ depth → Heap.seen depth g js = ds) :
    g.contents? i = some (.array ds) := by
  obtain ⟨es, hes, hwritten, -⟩ := hs.exists_seen hends hjs
  obtain rfl : es = ds :=
    (hes _ (Nat.le_max_left g.depth bound)).symm.trans (hseen _ (Nat.le_max_right _ _))
  rw [Heap.contents?, hv, Option.bind_some, hwritten]

omit [HostObject Obj] in
/-- The elements of a list show what their values are written out as. -/
theorem Sound.seen_eq (hs : h.Sound xs) (hends : ¬ h.Endless) (his : h.elements? l = some is)
    {depth : Nat} (hle : h.depth ≤ depth) :
    Heap.seen depth h is = (is.map h.shown).map h.written := by
  rw [List.map_map]
  refine List.map_congr_left fun e he ↦ ?_
  obtain ⟨b, w, -, hb, hw⟩ := hs.exists_value (hs.isSome_of_element his e he)
  rw [Function.comp, shown_eq hw]
  exact (hs.written hends (hs.isSome_of_value hb)).2 depth hle

omit [HostObject Obj] in
/-- An element has the contents that the array has in its place. -/
theorem Sound.contents_element {ds : List (Datum Obj)} {e : HandleId} {place : Nat}
    (hs : g.Sound ys) (hends : ¬ g.Endless) (hjs : g.elements? m = some js)
    (he : js[place]? = some e) (bound : Nat)
    (hseen : ∀ depth, bound ≤ depth → Heap.seen depth g js = ds) :
    g.contents? e = ds[place]? := by
  obtain ⟨b, w, -, hb, hw⟩ :=
    hs.exists_value (hs.isSome_of_element hjs e (List.mem_of_getElem? he))
  have hds := hseen _ (Nat.le_max_right g.depth bound)
  rw [hs.seen_eq hends hjs (Nat.le_max_left _ _)] at hds
  rw [Heap.contents?, hw, Option.bind_some, (hs.written hends (hs.isSome_of_value hb)).1, ← hds,
    List.getElem?_map, List.getElem?_map, he, Option.map_some, Option.map_some, shown_eq hw]

/-! ## Arrays that grow by arrays -/

/-- Elements put last in an array that shares nothing come behind the handles that are there. -/
theorem Operands.append_kept (ho : h.Operands xs i (.array l) v) (howns : h.Owns i l)
    (his : h.elements? l = some is) (herror : v.isError = false) :
    Ends (operateInPlace .add i v) h
      (fun _ g ↦ g.Owns i l ∧ ∃ added, g.elements? l = some (is ++ added)) fun _ _ ↦ True := by
  have hstart := Scene.at_ofEditor ho.sound i
  have hclear : (Scene.ofEditor ho.sound i).Clears h v.holds (.handle i) := fun _ ↦ ho.apart
  refine Ends.after (look_eq ho.left) ?_
  rw [if_pos (by simp [herror, Value.kind])]
  refine Ends.bind ((hstart.addition ho.right False.elim).mono (fun _ _ hh ↦ hh)
    fun _ _ _ ↦ trivial) ?_
  rintro added h₁ ⟨ha₁, hadds, -, hsole, -⟩
  have hsole₁ := hsole (fun j l' ht ↦ ht.1 ▸ hclear) (Scene.sole_ofEditor ho.sound i)
  obtain ⟨b, w, hi, hblock, hb, hl, hlist⟩ := hsole₁.owns ha₁ ⟨rfl, ho.grounded, howns⟩
  obtain rfl : w = .array l := by
    have hv₁ := hadds.valueOf? ho.sound ho.left
    rw [Heap.valueOf?, hi, Option.bind_some, hb] at hv₁
    exact Option.some.inj hv₁
  have his₁ := content?_list.1 (hadds.content ho.sound (content?_list.2 his))
  have halone : h₁.Alone i b (.array l) l is := ⟨hi, hb, hblock, rfl, hlist, his₁⟩
  have hedited := halone.edited (w := .array l) rfl (is ++ added)
  rw [withValue_self hb] at hedited
  refine Ends.after (tryCatch_of_ok (own_eq hi hb hblock)) (Ends.after (look_eq hb) ?_)
  refine Ends.after (tryCatch_of_ok (ownListIn_eq hb rfl hlist)) (Ends.after (look_eq his₁) ?_)
  exact .of_ok rfl ⟨hedited.owns, added, hedited.elements⟩

/-- **An array grows by another one.** -/
theorem Operands.joined {ds : List (Datum Obj)} (ho : h.Operands xs i (.array l) (.array m))
    (his : h.elements? l = some is) (hds : h.contents? i = some (.array ds))
    (hplenty : ¬ Exhausts (operateInPlace .add i (.array m)) h) :
    ∃ g, operateInPlace .add i (.array m) h = .ok () g ∧
      g.contents? i = some (.array (ds ++ ((h.items m).map h.shown).map h.written)) ∧
      (h.Owns i l → g.Owns i l ∧ ∃ added, g.elements? l = some (is ++ added)) := by
  have hstart := Scene.at_ofHeap ho.sound (· = i)
  have hsafe : (Scene.ofHeap ho.sound (· = i)).Leads (operateInPlace .add i (.array m)) h _ _ :=
    hstart.operateInPlace (Scene.calm_before fun _ _ ↦ False.elim) ho.held rfl
      (fun _ _ ↦ False.elim) id ho.given False.elim (fun _ ↦ ho.apart) fun _ _ ↦ id
  obtain ⟨_, g, hrun, ha⟩ :=
    Scene.runs_of_faults (hsafe fun hu ↦ hu.elim) ho.grounded trivial hplenty
  have hends := ha.acyclic ho.grounded
  have hm := ho.isSome.2 _ (List.mem_singleton_self _)
  obtain ⟨r, hr, hjoins⟩ := (ho.append_joins rfl).get hrun
  obtain ⟨b, -, hb⟩ := Option.bind_eq_some_iff.1 hr
  obtain ⟨ds', es, hds', hes, hsum⟩ := hjoins.datum ho.sound ha.sound ho.grounded hends
    (ho.isSome.1 _ (List.mem_singleton_self _)) hm (ha.sound.isSome_of_value hb)
  obtain ⟨ms, hms, -⟩ := ho.sound.exists_elements hm
  obtain ⟨es', hes', hwritten, -⟩ := ho.sound.exists_seen ho.grounded hms
  obtain rfl : ds' = ds := by
    rw [Heap.contents?, ho.left, Option.bind_some, hds'] at hds
    exact Datum.array.inj (Option.some.inj hds)
  obtain rfl : es' = es := Datum.array.inj (Option.some.inj (hwritten.symm.trans hes))
  refine ⟨g, hrun, ?_, fun howns ↦ (ho.append_kept howns his rfl).get hrun⟩
  rw [Heap.contents?, hr, Option.bind_some, hsum, items_eq hms,
    ← ho.sound.seen_eq ho.grounded hms (Nat.le_refl _), hes' _ (Nat.le_refl _)]

/-! ## Arrays are lists -/

/-- **What is done to the array in a variable is done to a list**, where there are blocks enough.  A
subscript gives the element at a position counted from one, or an error that is no element.  Calls
of methods, one after the other, have the answers that they have for a list, and leave the list that
they make of the contents; if the array shared neither its block nor its list before, they make the
same of the handles.  What is put in and taken out again at one place leaves no trace, and neither
does turning the order around twice; to put a value in behind the last element is to append it; and
an array that is added is appended element by element. -/
structure ListLike (h : Heap Obj) (xs : List Hold) (i : HandleId) (l : ListId)
    (is : List HandleId) (ds : List (Datum Obj)) : Prop where
  subscript : ∀ n : Int32, ¬ Exhausts (Heap.subscript i (.integer n)) h →
    ∃ r g, Heap.subscript i (.integer n) h = .ok r g ∧ g.contents? i = some (.array ds) ∧
      (h.Owns i l → g.Owns i l ∧ g.elements? l = some is) ∧
      (∀ place : Nat, n.toInt = place + 1 → place < ds.length →
        g.ElementAt i place r ∧ g.contents? r = ds[place]?) ∧
      (¬ InRange n ds.length →
        g.valueOf? r = some (.error indexOutOfBounds) ∧ ∀ place, ¬ g.ElementAt i place r)
  values : ∀ v, h.Operands xs i (.array l) v → h.datum? v = some (h.written v)
  calls : ∀ calls : List (ListCall Obj),
    (∀ call ∈ calls, h.Operands xs i (.array l) call.value) →
    ¬ Exhausts (calls.mapM (perform i)) h →
    ∃ rs ds' g, calls.mapM (perform i) h = .ok rs g ∧ g.contents? i = some (.array ds') ∧
      ListCall.run calls (calls.map fun call ↦ h.written call.value) ds = (rs, ds') ∧
      (h.Owns i l → g.Owns i l ∧ ∃ es js, es.length = calls.length ∧
        g.elements? l = some js ∧ ListCall.run calls es is = (rs, js))
  restored : ∀ n v, h.Operands xs i (.array l) v → InRange n (ds.length + 1) →
    ¬ Exhausts ([.insert n v, .erase n].mapM (perform i)) h →
    ∃ g, [.insert n v, .erase n].mapM (perform i) h =
        .ok [some (.ofBool true), some (.ofBool true)] g ∧ g.contents? i = some (.array ds)
  turned : ¬ Exhausts ([.reverse, .reverse].mapM (perform i)) h →
    ∃ g, [.reverse, .reverse].mapM (perform i) h =
        .ok [some (.ofBool true), some (.ofBool true)] g ∧ g.contents? i = some (.array ds)
  last : ∀ (n : Int32) v, n.toInt = ds.length + 1 →
    perform i (.insert n v) h = perform i (.append v) h
  joined : ∀ m vs, h.Operands xs i (.array l) (.array m) → vs = (h.items m).map h.shown →
    (¬ Exhausts (operateInPlace .add i (.array m)) h →
      ∃ g, operateInPlace .add i (.array m) h = .ok () g ∧
        g.contents? i = some (.array (ds ++ vs.map h.written)) ∧
        (h.Owns i l → g.Owns i l ∧ ∃ added, g.elements? l = some (is ++ added))) ∧
    ((∀ v ∈ vs, h.Operands xs i (.array l) v) →
      ¬ Exhausts ((vs.map .append).mapM (perform i)) h →
      ∃ rs g, (vs.map .append).mapM (perform i) h = .ok rs g ∧
        g.contents? i = some (.array (ds ++ vs.map h.written)))

/-- What comes out of calls, written out. -/
theorem Operands.writtenAll {ds : List (Datum Obj)} (ho : h.Operands xs i (.array l) .uninit)
    (his : h.elements? l = some is)
    (hds : ∀ depth, h.depth ≤ depth → Heap.seen depth h is = ds)
    (hops : ∀ call ∈ calls, h.Operands xs i (.array l) call.value)
    (hplenty : ¬ Exhausts (calls.mapM (Heap.perform i)) h) :
    ∃ rs ds' g, calls.mapM (Heap.perform i) h = .ok rs g ∧ g.contents? i = some (.array ds') ∧
      ListCall.run calls (calls.map fun call ↦ h.written call.value) ds = (rs, ds') ∧
      (h.Owns i l → g.Owns i l ∧ ∃ es js, es.length = calls.length ∧
        g.elements? l = some js ∧ ListCall.run calls es is = (rs, js)) := by
  obtain ⟨rs, g, m, js, hrun, ho', hjs, hseen, hkept⟩ := ho.answersAll his hops hplenty
  have hnews (depth : Nat) (hle : h.depth ≤ depth) :
      (calls.map fun call ↦ Heap.outline depth h call.value) =
        calls.map fun call ↦ h.written call.value :=
    List.map_congr_left fun call hcall ↦
      (ho.sound.written ho.grounded (hops call hcall).isSome.2).2 depth hle
  have hlist (depth : Nat) (hle : h.depth ≤ depth) :
      ListCall.run calls (calls.map fun call ↦ h.written call.value) ds =
        (rs, Heap.seen depth g js) := by
    rw [← hseen depth, hnews depth hle, hds depth hle]
  refine ⟨rs, _, g, hrun, ?_, hlist _ (Nat.le_refl _), fun howns ↦ ?_⟩
  · refine ho'.sound.contents_array ho'.grounded ho'.left hjs h.depth fun depth hle ↦ ?_
    exact (Prod.mk.inj ((hlist depth hle).symm.trans (hlist _ (Nat.le_refl _)))).2
  · obtain ⟨howns', rfl, es, hlength, hes⟩ := hkept l howns
    exact ⟨howns', es, js, hlength, hjs, hes⟩

/-- What a subscript gives, written out. -/
theorem Operands.writtenAt {ds : List (Datum Obj)} (ho : h.Operands xs i (.array l) v)
    (his : h.elements? l = some is)
    (hds : ∀ depth, h.depth ≤ depth → Heap.seen depth h is = ds) (n : Int32)
    (hplenty : ¬ Exhausts (Heap.subscript i (.integer n)) h) :
    ∃ r g, Heap.subscript i (.integer n) h = .ok r g ∧ g.contents? i = some (.array ds) ∧
      (h.Owns i l → g.Owns i l ∧ g.elements? l = some is) ∧
      (∀ place : Nat, n.toInt = place + 1 → place < ds.length →
        g.ElementAt i place r ∧ g.contents? r = ds[place]?) ∧
      (¬ InRange n ds.length →
        g.valueOf? r = some (.error indexOutOfBounds) ∧ ∀ place, ¬ g.ElementAt i place r) := by
  have hsafe := (Scene.target_ofWriter ho.sound ho.held).subscript (Scene.at_ofWriter ho.sound i)
    (Scene.calm_ofWriter ho.sound i) (.integer n)
  have hleads : (Scene.ofWriter ho.sound i).Leads (Heap.subscript i (.integer n)) h
      (fun e g ↦ (Scene.ofWriter ho.sound i).At [] [.handle e] g)
      ((Scene.ofWriter ho.sound i).Faults [] []) :=
    .of_ends hsafe
  obtain ⟨r, g, hrun, hs, hends, m, js, hedited, hcases⟩ :=
    Scene.exists_outcome ho.sound ho.grounded hleads (ho.subscript his n) hplenty
  have hlength : ds.length = is.length := by
    rw [← hds _ (Nat.le_refl _), length_seen]
  have hseen (depth : Nat) (hle : h.depth ≤ depth) : Heap.seen depth g js = ds :=
    (hedited.seen hends depth).trans (hds depth hle)
  have hstores : g.Stores i m := by
    obtain ⟨b, hi, hb⟩ := Option.bind_eq_some_iff.1 hedited.value
    exact ⟨b, _, hi, hb, rfl⟩
  refine ⟨r, g, hrun, hs.contents_array hends hedited.value hedited.elements h.depth hseen,
    fun howns ↦ ?_, fun place hn hlt ↦ ?_, fun hn ↦ ?_⟩
  · obtain ⟨howns', rfl, _, rfl⟩ := hedited.kept l howns
    exact ⟨howns', hedited.elements⟩
  · rcases hcases with ⟨place', hn', -, he⟩ | ⟨hn', -⟩
    · obtain rfl : place' = place := by
        omega
      exact ⟨⟨m, js, hstores, hedited.elements, he⟩,
        hs.contents_element hends hedited.elements he h.depth hseen⟩
    · exact (hn' (inRange_iff.2 ⟨place, hn, hlength ▸ hlt⟩)).elim
  · rcases hcases with ⟨place, hn', hlt, -⟩ | ⟨-, hnot, herror⟩
    · exact (hn (inRange_iff.2 ⟨place, hn', hlength ▸ hlt⟩)).elim
    · exact ⟨herror, fun place ↦ not_elementAt js hstores hedited.elements hnot⟩

/-- To put a value in behind the last element is to append it. -/
theorem perform_insert_last (hs : h.Sound xs) (hi : .handle i ∈ xs)
    (hv : h.valueOf? i = some (.array l)) (his : h.elements? l = some is) {n : Int32}
    (hn : n.toInt = is.length + 1) (v : Value Obj) :
    perform i (.insert n v) h = perform i (.append v) h := by
  rw [perform, perform, dispatch_array hv, dispatch_array hv]
  cases hown : Heap.own i h with
  | error f t => exact (bind_of_error hown).trans (bind_of_error hown).symm
  | ok b g =>
    have hopened := (Scene.At.opened hs hi hv).get hown
    have hvalue : Heap.readBlock b g = .ok (.array l) g := look_eq hopened.owned.value
    have hlist : Heap.elements l g = .ok is g := look_eq (hopened.elements his)
    have hsame : arrayMethod b is.length .insert [.integer n, v] =
        arrayMethod b is.length .append [v] := by
      have hplace : (n.toInt - 1).toNat = is.length := by
        omega
      rw [arrayMethod_insert, if_pos (inRange_iff.2 ⟨is.length, hn, Nat.lt_succ_self _⟩), hplace]
      rfl
    refine (bind_of_ok hown).trans (Eq.trans ?_ (bind_of_ok hown).symm)
    refine (bind_of_ok hvalue).trans (Eq.trans ?_ (bind_of_ok hvalue).symm)
    refine (bind_of_ok hlist).trans (Eq.trans ?_ (bind_of_ok hlist).symm)
    exact congrFun hsame g

/-- **An array is a list.**  In a heap without circles, its methods, its subscript and what adds
another array to it do to its contents what list operations do.  Positions are counted from one:
those up to the length have an element that may be asked for and taken out, and at these and the one
behind them a value may be put in.  A size is given as the largest number where it is larger. -/
theorem array_is_list (hs : h.Sound xs) (hends : ¬ h.Endless) (hi : .handle i ∈ xs)
    (hv : h.valueOf? i = some (.array l)) (his : h.elements? l = some is) :
    ∃ ds, h.contents? i = some (.array ds) ∧ ds.length = is.length ∧ h.ListLike xs i l is ds := by
  obtain ⟨ds, hds, hwritten, -⟩ := hs.exists_seen hends his
  have hcontents : h.contents? i = some (.array ds) := by
    rw [Heap.contents?, hv, Option.bind_some, hwritten]
  have hlength : ds.length = is.length := by
    rw [← hds _ (Nat.le_refl _), length_seen]
  have ho : h.Operands xs i (.array l) .uninit :=
    ⟨hs, hends, hi, hv, fun _ hy ↦ absurd hy List.not_mem_nil,
      fun _ hy ↦ absurd hy List.not_mem_nil⟩
  refine ⟨ds, hcontents, hlength, ho.writtenAt his hds, fun v hov ↦ ?_, fun calls hops ↦ ?_,
    fun n v hov hn hplenty ↦ ?_, fun hplenty ↦ ?_, fun n v hn ↦ ?_, fun m vs hom hvs ↦ ?_⟩
  · exact (hs.written hends hov.isSome.2).1
  · exact ho.writtenAll his hds hops
  · have hops (call : ListCall Obj) (hcall : call ∈ [.insert n v, .erase n]) :
        h.Operands xs i (.array l) call.value := by
      rcases List.mem_pair.1 hcall with rfl | rfl
      · exact hov
      · exact ho
    obtain ⟨rs, ds', g, hrun, hg, hlist, -⟩ := ho.writtenAll his hds hops hplenty
    cases (ListCall.run_insert_erase hn v _ _).symm.trans hlist
    exact ⟨g, hrun, hg⟩
  · have hops (call : ListCall Obj) (hcall : call ∈ [.reverse, .reverse]) :
        h.Operands xs i (.array l) call.value := by
      rcases List.mem_pair.1 hcall with rfl | rfl
      · exact ho
      · exact ho
    obtain ⟨rs, ds', g, hrun, hg, hlist, -⟩ := ho.writtenAll his hds hops hplenty
    cases (ListCall.run_reverse_reverse _ _ ds).symm.trans hlist
    exact ⟨g, hrun, hg⟩
  · exact perform_insert_last hs hi hv his (hlength ▸ hn) v
  · refine ⟨hvs ▸ hom.joined his hcontents, fun hops hplenty ↦ ?_⟩
    have hops' (call : ListCall Obj) (hcall : call ∈ vs.map .append) :
        h.Operands xs i (.array l) call.value := by
      obtain ⟨v, hv, rfl⟩ := List.mem_map.1 hcall
      exact hops v hv
    obtain ⟨rs, ds', g, hrun, hg, hlist, -⟩ := ho.writtenAll his hds hops' hplenty
    have hnews : (vs.map .append).map (fun call : ListCall Obj ↦ h.written call.value) =
        vs.map h.written :=
      List.map_map
    rw [hnews] at hlist
    have hlength : vs.length = (vs.map h.written).length :=
      (List.length_map _).symm
    have happends := ListCall.run_appends hlength ds
    rw [hlist] at happends
    exact ⟨rs, g, hrun, happends ▸ hg⟩

end Heap

namespace Session

/-- The array is put into itself, in front of its second element, and turned around: it has its
elements in the other order, with what it was between them, and these are three. -/
theorem array_is_list_self :
    ∃ g, [.insert 2 (.array ⟨0⟩), .reverse, .size].mapM (Heap.perform ⟨2⟩) elementAndSnapshot.heap =
        .ok [some (.ofBool true), some (.ofBool true), some (.integer 3)] g ∧
      g.contents? ⟨2⟩ = some (.array [.scalar (.integer 2),
        .array [.scalar (.integer 1), .scalar (.integer 2)], .scalar (.integer 1)]) := by
  have hs : elementAndSnapshot.Books := (books_start _).run _
  have hends : ¬ elementAndSnapshot.heap.Endless := by
    refine Heap.not_endless_of_rank snapshotRank ?_
    decide +kernel
  have ho : elementAndSnapshot.heap.Operands elementAndSnapshot.holds ⟨2⟩ (.array ⟨0⟩)
      (.array ⟨0⟩) :=
    .ofSnapshot (b := ⟨.array, ⟨0, 0⟩⟩) hs hends (by decide +kernel) (by decide +kernel)
      (by cbv) (by cbv)
  have hnone : elementAndSnapshot.heap.Operands elementAndSnapshot.holds ⟨2⟩ (.array ⟨0⟩) .uninit :=
    ⟨ho.sound, ho.grounded, ho.held, ho.left, fun _ hy ↦ absurd hy List.not_mem_nil,
      fun _ hy ↦ absurd hy List.not_mem_nil⟩
  have helements : elementAndSnapshot.heap.elements? ⟨0⟩ = some [⟨0⟩, ⟨1⟩] := by
    cbv
  have hplenty : ¬ Exhausts
      ([.insert 2 (.array ⟨0⟩), .reverse, .size].mapM (Heap.perform ⟨2⟩))
      elementAndSnapshot.heap := by
    decide +kernel
  have hwritten : elementAndSnapshot.heap.written (.array ⟨0⟩) =
      .array [.scalar (.integer 1), .scalar (.integer 2)] := by
    cbv
  obtain ⟨ds, hcontents, -, hlist⟩ :=
    Heap.array_is_list ho.sound ho.grounded ho.held ho.left helements
  cases (show elementAndSnapshot.heap.contents? ⟨2⟩ = _ by cbv).symm.trans hcontents
  have hops (call : ListCall SampleObject)
      (hcall : call ∈ [.insert 2 (.array ⟨0⟩), .reverse, .size]) :
      elementAndSnapshot.heap.Operands elementAndSnapshot.holds ⟨2⟩ (.array ⟨0⟩) call.value := by
    simp only [List.mem_cons, List.not_mem_nil, or_false] at hcall
    rcases hcall with rfl | rfl | rfl
    · exact ho
    · exact hnone
    · exact hnone
  obtain ⟨rs, ds', g, hrun, hg, hcalls, -⟩ := hlist.calls _ hops hplenty
  simp only [List.map_cons, ListCall.value, hwritten] at hcalls
  cases hcalls
  exact ⟨g, hrun, hg⟩

/-- A third element is appended. -/
def appendThree : Step SampleObject :=
  .callBuiltin "x" .append [.operand (.literal (.scalar (.integer 3)))] false none none

/-- **A snapshot of an array parts it from its elements** in calls of methods as well.  Nobody but
the block of the array holds its list, but when a third element is appended, new handles take the
places of the first two: a write to the handle that was there is not seen in the array any more. -/
theorem append_parted :
    elementAndSnapshot.references.get? "e" = some (some ⟨1⟩) ∧
      elementAndSnapshot.heap.ElementAt ⟨2⟩ 1 ⟨1⟩ ∧ elementAndSnapshot.heap.count (.list ⟨0⟩) = 1 ∧
      (∀ place, ¬ (elementAndSnapshot.step appendThree).2.heap.ElementAt ⟨2⟩ place ⟨1⟩) ∧
      (elementAndSnapshot.run [appendThree,
        .assign "e" (.literal (.scalar (.integer 99)))]).2.heap.contents? ⟨2⟩ =
          some (.array [.scalar (.integer 1), .scalar (.integer 2), .scalar (.integer 3)]) := by
  refine ⟨by cbv, ?_, by cbv, fun place ↦ ?_, by cbv⟩
  · exact ⟨⟨0⟩, [⟨0⟩, ⟨1⟩], ⟨⟨.array, ⟨0, 0⟩⟩, .array ⟨0⟩, by cbv, by cbv, rfl⟩, by cbv, rfl⟩
  · exact Heap.not_elementAt [⟨5⟩, ⟨6⟩, ⟨4⟩] ⟨⟨.array, ⟨1, 1⟩⟩, .array ⟨1⟩, by cbv, by cbv, rfl⟩
      (by cbv) (by decide)

end Session
end ScriptHeap
