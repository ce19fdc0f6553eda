import ScriptHeap.Heap.Call
import ScriptHeap.Heap.Cursor
import ScriptHeap.Proofs.Heap.Members

/-!
# Cursors and calls

A cursor shares the elements of a container, and walking on writes to the loop variable.  A built-in
method works on the block that is its variable's own; a method that is not to change its variable
keeps a heap at every scene, and a host object is taken at its word.

## What is here

* `Scene.Target.newCursor?`, `Scene.At.advance` — cursors.
* `Scene.At.arrayMethod`, `Scene.Target.structMethod`, `Scene.At.hostMethod` — methods by kind.
* `Value.UnchangedBy` — what a call that only reads asks of a method.
* `Scene.Target.callBuiltin`, `Scene.Target.callMethod` — calls.
-/

set_option autoImplicit false
namespace ScriptHeap

variable {Obj : Type}

/-- A method of a name does not change a value: a built-in method says that it does not, and a host
object stays as it is. -/
structure Value.UnchangedBy [HostObject Obj] (v : Value Obj) (name : String) : Prop where
  builtin : ∀ m, Method.ofName? name = some m → m.mutates = false
  host : ∀ o, v = .object o → ∀ args, (HostObject.call o.object name args).2 = o.object

/-- The place that the arguments of `erase` name in a container. -/
def Value.erasedPlace? (v : Value Obj) (args : List (Value Obj)) : Option Nat :=
  match v, args with
  | .array _, [.integer n] => fromOne? n
  | .struct names _, [.string name] => memberIndex? names name
  | _, _ => none

/-- A single argument names a place, and it is no container. -/
theorem Value.argument_of_erasedPlace? {v : Value Obj} {args : List (Value Obj)} {place : Nat}
    (hplace : v.erasedPlace? args = some place) : ∃ w, args = [w] ∧ w.list? = none := by
  unfold Value.erasedPlace? at hplace
  split at hplace
  · exact ⟨_, rfl, rfl⟩
  · exact ⟨_, rfl, rfl⟩
  · cases hplace

theorem Value.erasedPlace?_of_member {v : Value Obj} {name : String} {place : Nat}
    (hplace : memberIndex? v.names name = some place) :
    v.erasedPlace? [.string name] = some place := by
  cases v with
  | scalar s => cases hplace
  | array l => cases hplace
  | struct names l => exact hplace

namespace Scene

variable [HostObject Obj] {c : Scene Obj} {made : List HandleId} {ys : List Hold} {h : Heap Obj}
  {i : HandleId}

/-! ## Cursors -/

/-- A cursor over the elements of a container. -/
theorem Target.newCursor? (ht : c.Target i) (ha : c.At made ys h) (hcalm : c.Calm h)
    {bound : Option HandleId}
    (hbound : ∀ j, bound = some j → Hold.handle j ∈ c.outside) :
    Ends (Heap.newCursor? i bound) h
      (fun r h' ↦ c.At made ((r.map Cursor.holds).getD [] ++ ys) h') (c.Faults made ys) := by
  obtain ⟨v, hv⟩ := ht.exists_value ha
  rw [Heap.newCursor?]
  refine Ends.after (Heap.look_eq hv) ?_
  dsimp only
  split
  · rename_i hkind
    have hset (_ : c.single) : v ≠ .uninit := by
      rcases hkind with hk | hk <;> exact Heap.ne_uninit_of_kind hk (by decide)
    refine (ht.own ha hcalm hv hset).bind fun b h₁ ⟨ha₁, _, hown, hready⟩ ↦ ?_
    refine (ha₁.ownListIn hown hready).bind fun r h₂ ⟨ha₂, _, hr, _⟩ ↦ ?_
    cases r with
    | none => exact .pure ha₂
    | some m =>
      obtain ⟨js, hjs⟩ := (hr m rfl).exists_elements
      refine Ends.after (Heap.look_eq hjs) (Ends.after (Heap.look_eq (hr m rfl).block.value) ?_)
      refine (ha₂.hold fun x hx ↦ ?_).bind fun _ h₃ hh ↦ .pure hh.1
      obtain ⟨j, hj, rfl⟩ := List.mem_map.1 hx
      rcases List.mem_append.1 hj with hj | hj
      · exact ha₂.isSome_of_element hjs j hj
      · exact ha₂.isSome_of_mem (List.mem_append_right _ (hbound j (Option.mem_toList.1 hj)))
  · exact .pure ha

/-- A cursor that is moved on.  What it writes is the loop variable. -/
theorem At.advance (ha : c.At made ys h) (hcalm : c.Calm h) {cursor : Cursor}
    (hheld : ∀ x ∈ cursor.holds, x ∈ c.outside)
    (hbound : ∀ j, cursor.bound = some j → c.Target j ∧ ¬ c.reads ∧ ∀ l, ¬ c.tied j l) :
    c.Leads (Heap.advance cursor) h
      (fun r h' ↦ c.At made (handleHolds r.1.toList ++ ys) h' ∧ r.2.holds = cursor.holds)
      (c.Faults made ys) := by
  rw [Heap.advance]
  split
  · exact .of_ends (.pure ⟨ha, rfl⟩)
  · rename_i e he
    have hmem : Hold.handle e ∈ c.outside := by
      refine hheld _ (List.mem_map.2 ⟨e, List.mem_append_left _ ?_, rfl⟩)
      exact List.mem_of_getElem? he
    obtain ⟨ha₁, hg₁⟩ := ha.retainOne (ha.isSome_of_mem (List.mem_append_right _ hmem))
    refine Leads.after (Heap.share_eq e h) ?_
    cases hb : cursor.bound with
    | none =>
      exact .of_ends (Ends.after rfl (.pure ⟨ha₁, by rw [Cursor.holds, Cursor.holds, hb]⟩))
    | some j =>
      obtain ⟨ht, hwrites, hloose⟩ := hbound j hb
      have hkey : (cursor.key cursor.passed : Value Obj).holds = [] := by
        rw [Cursor.key]
        split <;> rfl
      have ha₁' : c.At made ((cursor.key cursor.passed : Value Obj).holds ++ .handle e :: ys)
          (h.retainOne (.handle e)) := by
        rw [hkey]
        exact ha₁
      have hset := ha₁'.setValue (fun _ ↦ Heap.matched_of_holds hkey) (ht.mem _)
        (fun b _ ↦ (hcalm.full (.block b)).adds hg₁.toAdds) hwrites (.of_nil hkey _ _) hloose
      have hset' : c.Leads (Heap.setValue j (cursor.key cursor.passed)) (h.retainOne (.handle e))
          (fun _ h' ↦ c.Free (h.retainOne (.handle e)) (.handle j) → c.At made (.handle e :: ys) h')
          (c.Faults made ([.handle e] ++ ys)) := hset
      refine Leads.andThen (At.leadsHolding hset') (fun _ _ _ ↦ not_exhausts_of_ok rfl)
        fun _ h₂ hset ↦ ?_
      exact .pure ⟨hset (ht.free _), by rw [Cursor.holds, Cursor.holds, hb]⟩

/-! ## Built-in methods -/

/-- A result without holds. -/
def Plain (c : Scene Obj) (made : List HandleId) (ys : List Hold) (v : Value Obj) (h' : Heap Obj) :
    Prop :=
  v.holds = [] ∧ c.At made ys h'

/-- A result for the caller to hold, if there is one. -/
def Results (c : Scene Obj) (made : List HandleId) (ys : List Hold) (r : Option (Value Obj))
    (h' : Heap Obj) : Prop :=
  c.At made ((r.map Value.holds).getD [] ++ ys) h' ∧ (c.regular → ∀ v, r = some v → h'.Matched v)

section
variable {b : BlockId} {v : Value Obj}

theorem Plain.results (hv : c.Plain made ys v h) : c.Results made ys (some v) h := by
  refine ⟨?_, fun _ w hw ↦ ?_⟩
  · rw [Option.map_some, Option.getD_some, hv.1]
    exact hv.2
  · cases hw
    exact Heap.matched_of_holds hv.1

/-- No result. -/
theorem At.noResult (ha : c.At made ys h) : c.Results made ys none h :=
  ⟨ha, by simp⟩

theorem At.reorder (ha : c.At made ys h) (ho : c.Owned h b v) (hready : c.Ready h v)
    (compares : Bool)
    {f : Heap Obj → List HandleId → List HandleId} (hf : ∀ h is, (f h is).Perm is)
    (hwrites : ¬ c.reads) :
    c.Leads (Heap.reorder b compares f) h (c.Plain made ys) (c.Faults made ys) := by
  rw [Heap.reorder]
  refine Leads.bind (ha.ownListIn ho hready) fun r h₁ ⟨ha₁, _, hr, _⟩ ↦ ?_
  cases r with
  | none => exact .of_ends (.pure ⟨rfl, ha₁⟩)
  | some m =>
    obtain ⟨js, hjs⟩ := (hr m rfl).exists_elements
    have hperm : (f h₁ js).Perm (js ++ []) := by
      rw [List.append_nil]
      exact hf h₁ js
    have hset : c.Leads (do
          Heap.setElements m (f (← get) js)
          return .ofBool true) h₁ (c.Plain made ys) (c.Faults made ys) := by
      refine .of_ok rfl fun hreads ↦ ⟨rfl, ?_⟩
      exact At.withMore [] ha₁ hjs hperm (hr m rfl).list.free
        (fun hu ↦ absurd (hreads hu) hwrites) (ha₁.fits_of_length hjs (hf h₁ js).length_eq)
        (.of_nil rfl _ _)
    refine Leads.after (Heap.look_eq hjs) ?_
    dsimp only
    split
    · refine Leads.bind (ha₁.ensureApart fun hac ↦ ha₁.blockOf?_ne_of_element hac
        (hr m rfl).block.value (hr m rfl).list? hjs) fun _ h₂ ⟨hh₂, _⟩ ↦ ?_
      rw [hh₂]
      exact hset
    · exact hset

omit [HostObject Obj] in
theorem sorted_perm (h : Heap Obj) (is : List HandleId) : (h.sorted is).Perm is := by
  refine ((List.mergeSort_perm _ _).map _).trans ?_
  rw [List.map_map]
  exact .of_eq (List.map_id is)

/-- A copy of a value put before the element at a place. -/
theorem At.insertAt (ha : c.At made ys h) {l : ListId} {is : List HandleId}
    (ho : c.Owned h b (.array l)) (hready : c.Ready h (.array l)) (his : h.elements? l = some is)
    {place : Nat} (hplace : place ≤ is.length) (hv : c.Given ys v) (hm : c.regular → h.Matched v)
    (hwrites : ¬ c.reads) (hclear : c.Clears h v.holds (.block b)) :
    c.Leads (Heap.insertAt b place v) h (c.Plain made ys) (c.Faults made ys) := by
  have hthere := ha.isSome_of_given hv
  rw [Heap.insertAt]
  refine Leads.bind (ha.copy hthere).ends ?_
  rintro v' h₁ ⟨hv', ha₁, hg₁⟩
  subst hv'
  refine Leads.bind (ha₁.bindNew fun hr ↦ hg₁.matched (hm hr)) ?_
  rintro e h₂ ⟨ha₂, hg₂, hvalue, hnew⟩
  have ho₁ := ho.grows ha hg₁ (Value.not_block_mem_holds v' b)
  have ho₂ : c.Owned h₂ b (.array l) := by
    refine ho₁.grows ha₁ hg₂ fun hu ↦ ?_
    rw [Heap.Unset, Heap.content?_block.2 ho₁.value] at hu
    cases hu
  have hready₁ := hready.grows ha ho.value hg₁ fun i l' ht hl ↦ by
    obtain ⟨j, hj⟩ := ho.holder
    exact ha.not_given hv hj ho.sole ho.value hl (hready.tied i l' ht hl)
  have hready₂ := hready₁.grows ha₁ ho₁.value hg₂ fun _ l' _ _ ↦ h₁.not_unset_list l'
  have hbears : c.Bears h₂ e v' (.block b) := by
    obtain ⟨i, hi⟩ := ho.holder
    have hthere_i : (h.content? (.handle i)).isSome :=
      Heap.isSome_of_blockOf? hi
    exact ((hclear.holder hi).bears ha hthere hthere_i (hg₁.toAdds.trans hg₂.toAdds) hvalue
      fun hn ↦ hnew (hg₁.quiet.born _ hn)).block ha₂ (hg₂.blockOf? (hg₁.blockOf? hi)) ho₂.sole
  refine Leads.bind (ha₂.ownListHolding ho₂ hready₂ hbears) ?_
  rintro r h₃ ⟨ha₃, _, hr⟩
  cases r with
  | none => exact .of_ok rfl fun _ ↦ ⟨rfl, (At.settle ha₃).releaseOne⟩
  | some m =>
    obtain ⟨⟨hown, hlist, ⟨_, hl, is', js, his', hjs, hall⟩, -⟩, hbears₃⟩ := hr m rfl
    cases hl
    obtain rfl := Option.some.inj ((hg₂.elements? (hg₁.elements? his)).symm.trans his')
    have hperm : (js.insertIdx place e).Perm (js ++ [e]) := by
      rw [hall.length_eq] at hplace
      exact (List.perm_insertIdx e js hplace).trans (List.perm_append_singleton e js).symm
    refine Leads.after (Heap.look_eq hjs) (.of_ok rfl fun hreads ↦ ⟨rfl, ?_⟩)
    exact ha₃.withMore [e] hjs hperm hlist.free (fun hu ↦ absurd (hreads hu) hwrites)
      (ha₃.fits_of_sole hown.value rfl hlist.sole fun _ _ ↦ Heap.matched_array m) hbears₃.clears

/-- The methods of arrays. -/
theorem At.arrayMethod (ha : c.At made ys h) {l : ListId} {is : List HandleId}
    (ho : c.Owned h b (.array l)) (hready : c.Ready h (.array l)) (his : h.elements? l = some is)
    (m : Method) {args : List (Value Obj)} (hargs : ∀ v ∈ args, c.Given ys v)
    (hmatched : c.regular → ∀ v ∈ args, h.Matched v) (hwrites : m.mutates = true → ¬ c.reads)
    (hclear : ∀ v ∈ args, c.Clears h v.holds (.block b))
    (hyields : m = .erase → ∀ place, (Value.array l).erasedPlace? args = some place →
      c.Yields h place) :
    c.Leads (Heap.arrayMethod b is.length m args) h (c.Results made ys) (c.Faults made ys) := by
  have hplain {act : HeapM Obj (Value Obj)}
      (hact : c.Leads act h (c.Plain made ys) (c.Faults made ys)) :
      c.Leads (do return some (← act)) h (c.Results made ys) (c.Faults made ys) :=
    hact.andThen (fun _ _ _ ↦ not_exhausts_of_ok rfl) fun v h' hv ↦ .pure hv.results
  have hscalar (s : Scalar Obj) :
      c.Leads (pure (some (.scalar s))) h (c.Results made ys) (c.Faults made ys) :=
    .of_ends (.pure (Plain.results (v := .scalar s) ⟨rfl, ha⟩))
  unfold Heap.arrayMethod
  split
  · exact hscalar _
  · split
    · exact hplain (ha.insertAt ho hready his (Nat.le_refl _) (hargs _ List.mem_cons_self)
        (fun hr ↦ hmatched hr _ List.mem_cons_self) (hwrites rfl) (hclear _ List.mem_cons_self))
    · exact hscalar _
  · split
    · rename_i n v
      split
      · rename_i place hplace
        have hlt := of_decide_eq_true (Option.filter_eq_some_iff.1 hplace).2
        have hmem := List.mem_cons_of_mem (Value.integer n) (List.mem_cons_self (a := v) (l := []))
        exact hplain (ha.insertAt ho hready his (Nat.le_of_lt_succ hlt) (hargs v hmem)
          (fun hr ↦ hmatched hr v hmem) (hwrites rfl) (hclear v hmem))
      · exact hscalar _
    · exact hscalar _
    · exact hscalar _
  · split
    · split
      · rename_i place hplace
        refine (ha.removeAt ho hready place (fun _ hn ↦ absurd rfl hn) (hwrites rfl)
          (hyields rfl place (Option.filter_eq_some_iff.1 hplace).1)).andThen
          (fun _ _ _ ↦ not_exhausts_of_ok rfl) fun r h₁ ha₁ ↦ ?_
        exact ha₁.letGo.bind fun _ h₂ hh ↦ .pure (Plain.results ⟨rfl, hh.1⟩)
      · exact hscalar _
    · exact hscalar _
    · exact hscalar _
  · split
    · exact hscalar _
    · exact hscalar _
    · exact hscalar _
  · exact hplain (ha.reorder ho hready false (fun _ is ↦ List.reverse_perm is) (hwrites rfl))
  · exact hplain (ha.reorder ho hready true sorted_perm (hwrites rfl))
  · exact .of_ends (.pure ha.noResult)

omit [HostObject Obj] in
theorem flatMap_holds_strings (names : List String) :
    (names.map (Value.string : String → Value Obj)).flatMap Value.holds = [] := by
  refine List.flatMap_eq_nil_iff.2 fun v hv ↦ ?_
  obtain ⟨name, -, rfl⟩ := List.mem_map.1 hv
  rfl

/-- The methods of structs. -/
theorem Target.structMethod (ht : c.Target i) (ha : c.At made ys h) (hcalm : c.Calm h) (m : Method)
    (args : List (Value Obj)) (hwrites : m = .erase → ¬ c.reads)
    (hyields : m = .erase → ∀ v place, h.valueOf? i = some v → v.erasedPlace? args = some place →
      c.Yields h place) :
    c.Leads (Heap.structMethod i m args) h (c.Results made ys) (c.Faults made ys) := by
  obtain ⟨_, v, -, hb, hv⟩ := ha.exists_value (ha.isSome_of_mem (ht.mem ys))
  have hscalar (s : Scalar Obj) :
      c.Leads (pure (some (.scalar s))) h (c.Results made ys) (c.Faults made ys) :=
    .of_ends (.pure (Plain.results (v := .scalar s) ⟨rfl, ha⟩))
  unfold Heap.structMethod
  split
  · refine Leads.after (Heap.look_eq hv) ?_
    split
    · rename_i l hl
      obtain ⟨is, his, -⟩ := ha.exists_elements_of_list? (ha.isSome_of_value hb) hl
      exact Leads.after (Heap.look_eq his) (hscalar _)
    · exact .of_ends (.pure ha.noResult)
  · split
    · exact Leads.after (Heap.look_eq hv) (hscalar _)
    · exact hscalar _
    · exact hscalar _
  · split
    · refine (ht.removeMember ha hcalm _ (hwrites rfl) fun w place hw hplace ↦
        hyields rfl w place hw (Value.erasedPlace?_of_member hplace)).andThen
        (fun _ _ _ ↦ not_exhausts_of_ok rfl) fun v h₁ hh ↦ .pure ?_
      exact Plain.results hh
    · exact hscalar _
    · exact hscalar _
  · refine Leads.after (Heap.look_eq hv) ?_
    have ha' : c.At made
        ((v.names.map (Value.string : String → Value Obj)).flatMap Value.holds ++ ys) h := by
      rw [flatMap_holds_strings]
      exact ha
    have hm (_ : c.regular) (w : Value Obj) (hw : w ∈ v.names.map Value.string) : h.Matched w := by
      obtain ⟨name, -, rfl⟩ := List.mem_map.1 hw
      exact Heap.matched_scalar _
    refine .of_ends ((ha'.newArray hm).bind fun w h₁ hh ↦ .pure ⟨hh.1, fun hr w' hw' ↦ ?_⟩)
    cases hw'
    exact hh.2.2 hr
  · exact .of_ends (.pure ha.noResult)

omit [HostObject Obj] in
theorem holds_stringMethod {h : Heap Obj} {s : String} {m : Method} {args : List (Value Obj)}
    {v : Value Obj} (hv : stringMethod h s m args = some v) : v.holds = [] := by
  have hfind (needle : String) (start : Int32) :
      (findFrom s needle start : Value Obj).holds = [] := by
    unfold findFrom
    split <;> rfl
  unfold stringMethod at hv
  repeat' split at hv
  all_goals cases hv
  all_goals first | rfl | exact hfind _ _

/-- The answer of a host object. -/
theorem At.hostMethod (ha : c.At made ys h) (ho : c.Owned h b v) (name : String)
    {args : List (Value Obj)} (hargs : ∀ w ∈ args, c.Given ys w)
    (hmatched : c.regular → ∀ w ∈ args, h.Matched w)
    (hkeeps : c.reads → ∀ o, v = .object o → (HostObject.call o.object name args).2 = o.object) :
    c.Leads (Heap.hostMethod b name args) h (c.Results made ys) (c.Faults made ys) := by
  rw [Heap.hostMethod]
  refine Leads.after (Heap.look_eq ho.value) ?_
  split
  · rename_i o
    have hwritten (object : Obj) (hobject : c.unseen → object = o.object) :
        c.At made ys (h.withValue b (.object { o with object := object })) := by
      refine (ha.withSame (w := .object { o with object := object }) ho rfl (fun hu ↦ ?_)
        (fun _ _ ↦ Heap.matched_scalar _) fun _ he ↦ by cases he).1
      refine Heap.alike_of_content fun x ↦ ?_
      rw [hobject hu, Heap.content?, (Heap.changes_withValue ho.cell? _).cell]
      split
      · rename_i hx
        rw [hx, Heap.content?_block.2 ho.value]
        rfl
      · rfl
    refine Leads.after rfl ?_
    split
    · refine .of_ok rfl fun hreads ↦ ?_
      exact Plain.results (v := .scalar _) ⟨rfl, hwritten _ fun hu ↦ hkeeps (hreads hu) o rfl⟩
    · split
      · rename_i w hw
        have hmem := List.mem_of_getElem? hw
        have hgiven := hargs w hmem
        refine .of_not_exhausts (not_exhausts_of_ok rfl) fun hreads ↦ ?_
        have ha₁ := hwritten _ fun hu ↦ hkeeps (hreads hu) o rfl
        refine (ha₁.copy (ha₁.isSome_of_given hgiven)).bind ?_
        rintro w' h₂ ⟨hw', ha₂, hg₂⟩
        refine .pure ⟨?_, fun hr w'' hw'' ↦ ?_⟩
        · subst hw'
          exact ha₂
        · cases hw''
          subst hw'
          -- what is written into the block leaves the lists as they are
          exact hg₂.matched fun names l he ↦ hmatched hr w' hmem names l he
      · exact .of_ok rfl fun hreads ↦ (hwritten _ fun hu ↦ hkeeps (hreads hu) o rfl).noResult
    · exact .of_ok rfl fun hreads ↦ (hwritten _ fun hu ↦ hkeeps (hreads hu) o rfl).noResult
  · exact .of_ends (.pure ha.noResult)

end

/-! ## Calls -/

/-- The holds of the outcome of a call. -/
def outcomeHolds (o : Heap.CallOutcome Obj) : List Hold :=
  match o.result with
  | .ok v => v.holds
  | .error _ => []

/-- What a call leaves. -/
def Answered (c : Scene Obj) (made : List HandleId) (ys : List Hold) (o : Heap.CallOutcome Obj)
    (h' : Heap Obj) : Prop :=
  c.At made (outcomeHolds o ++ ys) h' ∧ (c.regular → ∀ v, o.result = .ok v → h'.Matched v)

theorem Results.answered {v : Value Obj} (hr : c.Results made ys (some v) h)
    (asked : Option (Kind × Method)) : c.Answered made ys ⟨asked, .ok v⟩ h :=
  ⟨hr.1, fun hreg w hw ↦ by
    cases hw
    exact hr.2 hreg v rfl⟩

theorem At.unanswered (ha : c.At made ys h) (asked : Option (Kind × Method)) (f : CallFailure) :
    c.Answered made ys (⟨asked, .error f⟩ : Heap.CallOutcome Obj) h :=
  ⟨ha, by simp⟩

/-- The built-in method of a variable. -/
theorem Target.dispatch (ht : c.Target i) (ha : c.At made ys h) (hcalm : c.Calm h) (m : Method)
    {args : List (Value Obj)} (hgiven : ∀ w ∈ args, c.Given ys w)
    (hmatched : c.regular → ∀ w ∈ args, h.Matched w)
    (hreads : c.reads → ∀ v, h.valueOf? i = some v → v.UnchangedBy m.name)
    (hclear : ∀ w ∈ args, c.Clears h w.holds (.handle i))
    (hyields : m = .erase → ∀ v place, h.valueOf? i = some v → v.erasedPlace? args = some place →
      c.Yields h place) :
    c.Leads (Heap.dispatch i m args) h (c.Results made ys) (c.Faults made ys) := by
  obtain ⟨v, hv⟩ := ht.exists_value ha
  have hwrites (hm : m.mutates = true) : ¬ c.reads := by
    intro hread
    have hfalse := (hreads hread v hv).builtin m (Method.ofName?_name m)
    rw [hm] at hfalse
    cases hfalse
  have hmatched₁ {h₁ : Heap Obj} (hsteady : h.Steady h₁) (ha₁ : c.At made ys h₁) (hr : c.regular)
      (w : Value Obj) (hw : w ∈ args) : h₁.Matched w :=
    hsteady.matched ha.sound.tidy (hmatched hr w hw) (ha₁.isSome_of_given (hgiven w hw))
  rw [Heap.dispatch]
  refine Leads.after (Heap.look_eq hv) (Leads.after (Heap.look_eq hv) ?_)
  split
  · rename_i hkind
    have hseen (hac : c.acyclic) (z : Hold) (hz : z ∈ args.flatMap Value.holds) :
        h.SeenPast (handleHolds made ++ (ys ++ c.outside)) (.handle i) z := by
      obtain ⟨w, hw, hzw⟩ := List.mem_flatMap.1 hz
      exact (hclear w hw).seenPast_of_given ha (hgiven w hw) hac z hzw
    refine Leads.bind (ha.ownClearing hcalm (ht.mem ys) (ht.free h) hv
      (fun _ ↦ Heap.ne_uninit_of_kind hkind (by decide)) hseen)
      fun b h₁ ⟨⟨ha₁, hsteady, _, hown, hready⟩, hclear₁, _⟩ ↦ ?_
    refine Leads.after (Heap.look_eq hown.value) ?_
    split
    · rename_i l
      have hthere := ha₁.isSome_of_value hown.value _ (List.mem_singleton_self _)
      obtain ⟨is, his, -⟩ := ha₁.exists_elements hthere
      refine Leads.after (Heap.look_eq his) ?_
      refine ha₁.arrayMethod hown hready his m hgiven (hmatched₁ hsteady ha₁) hwrites ?_
        fun hm place hplace ↦ (hyields hm _ place hv hplace).steady ha hsteady
      exact fun w hw hac z hz ↦ hclear₁ hac z (List.mem_flatMap.2 ⟨w, hw, hz⟩)
    · exact .of_ends (.pure ha₁.noResult)
  · refine ht.structMethod ha hcalm m args (fun hm ↦ hwrites ?_) hyields
    rw [hm]
    rfl
  · split
    · have hget : (get : HeapM Obj (Heap Obj)) h = .ok h h := rfl
      refine .of_ends (Ends.after hget (.pure ?_))
      cases hresult : stringMethod h _ m args with
      | none => exact ha.noResult
      | some w => exact Plain.results ⟨holds_stringMethod hresult, ha⟩
    · exact .of_ends (.pure ha.noResult)
  · rename_i o _ _ _
    refine Leads.bind (ht.own ha hcalm hv fun _ he ↦ by cases he)
      fun b h₁ ⟨ha₁, hsteady, hown, _⟩ ↦ ?_
    refine ha₁.hostMethod hown m.name hgiven (hmatched₁ hsteady ha₁) fun hread o' ho' ↦ ?_
    exact (hreads hread _ hv).host o' ho' args
  · exact .of_ends (.pure ha.noResult)

/-- Copies of the values of arguments.  They lead nowhere that the arguments do not lead, and as
long as no variable that is to keep its list is an argument, its list stays its own. -/
structure Copied (c : Scene Obj) (made : List HandleId) (ys : List Hold) (x : Hold) (h : Heap Obj)
    (params : List (Option HandleId)) (args : List (Value Obj)) (h' : Heap Obj) : Prop where
  here : c.At made (args.flatMap Value.holds ++ ys) h'
  grows : h.Grows h' fun _ ↦ True
  matched : c.regular → ∀ w ∈ args, h'.Matched w
  clears : ∀ w ∈ args, c.Clears h' w.holds x
  sole : c.Sole h'
  shown : args = params.map h.shownBy

/-- One more copy, made before the others. -/
theorem Copied.cons {params : List (Option HandleId)} {args : List (Value Obj)} {x : Hold}
    {p : Option HandleId} {w : Value Obj} {h₁ h₂ : Heap Obj} (ha : c.At made ys h)
    (hthere : ∀ j, some j ∈ params → (h.content? (.handle j)).isSome)
    (ha₁ : c.At made (w.holds ++ ys) h₁) (hg₁ : h.Grows h₁ fun _ ↦ True)
    (hm₁ : c.regular → h₁.Matched w) (hclear₁ : c.Clears h₁ w.holds x) (hshown : w = h.shownBy p)
    (hrest : c.Copied made (w.holds ++ ys) x h₁ params args h₂) :
    c.Copied made ys x h (p :: params) (w :: args) h₂ where
  here := by
    refine hrest.here.perm ?_
    rw [List.flatMap_cons, List.append_assoc]
    exact List.perm_append_comm_assoc _ _ _
  grows := hg₁.trans hrest.grows fun _ _ _ ↦ trivial
  matched hr w' hw' := by
    rcases List.mem_cons.1 hw' with rfl | hw'
    · exact hrest.grows.matched (hm₁ hr)
    · exact hrest.matched hr w' hw'
  clears w' hw' := by
    rcases List.mem_cons.1 hw' with rfl | hw'
    · refine hclear₁.quiet ha₁ (fun y hy ↦ ?_) hrest.grows.quiet
      exact ha₁.isSome_of_mem (List.mem_append_left _ (List.mem_append_left _ hy))
    · exact hrest.clears w' hw'
  sole := hrest.sole
  shown := by
    rw [List.map_cons, ← hshown, hrest.shown, List.map_congr_left fun q hq ↦ ?_]
    exact hg₁.toAdds.shownBy ha.sound fun j hj ↦ hthere j (hj ▸ hq)

theorem At.argumentValues (ha : c.At made ys h) {params : List (Option HandleId)} {x : Hold}
    (hparams : ∀ j, some j ∈ params → Hold.handle j ∈ ys ++ c.outside ∧ ∀ l, ¬ c.tied j l)
    (hclear : ∀ j, some j ∈ params → ∀ w, h.valueOf? j = some w → c.Clears h w.holds x)
    (hsole : c.Sole h) : Runs (Heap.argumentValues params) h (c.Copied made ys x h params) := by
  induction params generalizing h ys with
  | nil =>
    exact .pure ⟨ha, .refl h _, fun _ w hw ↦ absurd hw List.not_mem_nil,
      fun w hw ↦ absurd hw List.not_mem_nil, hsole, rfl⟩
  | cons p ps ih =>
    have hthere (j : HandleId) (hj : some j ∈ p :: ps) : (h.content? (.handle j)).isSome :=
      ha.isSome_of_mem (hparams j hj).1
    have hnext {w : Value Obj} {h₁ : Heap Obj} (ha₁ : c.At made (w.holds ++ ys) h₁)
        (hg₁ : h.Grows h₁ fun _ ↦ True) (hm₁ : c.regular → h₁.Matched w)
        (hclear₁ : c.Clears h₁ w.holds x) (hsole₁ : c.Sole h₁) (hshown : w = h.shownBy p) :
        Runs (do return w :: (← Heap.argumentValues ps)) h₁ (c.Copied made ys x h (p :: ps)) := by
      have hheld (j : HandleId) (hj : some j ∈ ps) :
          Hold.handle j ∈ (w.holds ++ ys) ++ c.outside ∧ ∀ l, ¬ c.tied j l := by
        rw [List.append_assoc]
        exact (hparams j (List.mem_cons_of_mem _ hj)).imp_left (List.mem_append_right _)
      have hclears (j : HandleId) (hj : some j ∈ ps) (w : Value Obj) (hw : h₁.valueOf? j = some w) :
          c.Clears h₁ w.holds x := by
        obtain ⟨_, u, -, hb, hu⟩ := ha.exists_value (hthere j (List.mem_cons_of_mem _ hj))
        obtain rfl := Option.some.inj ((hg₁.valueOf? hu).symm.trans hw)
        exact (hclear j (List.mem_cons_of_mem _ hj) u hu).quiet ha (ha.isSome_of_value hb) hg₁.quiet
      exact (ih ha₁ hheld hclears hsole₁).andThen fun args h₂ hrest ↦ .pure <|
        hrest.cons ha (fun j hj ↦ hthere j (List.mem_cons_of_mem _ hj)) ha₁ hg₁ hm₁ hclear₁ hshown
    rw [Heap.argumentValues, List.mapM_cons]
    cases p with
    | none =>
      exact Runs.after rfl (hnext (w := .uninit) ha (.refl h _) (fun _ ↦ Heap.matched_scalar _)
        (.of_nil rfl _ _) hsole rfl)
    | some j =>
      obtain ⟨_, w, -, hb, hw⟩ := ha.exists_value (hthere j List.mem_cons_self)
      have hcopy : Runs (do Heap.copy (← Heap.read j)) h fun v h' ↦
          v = w ∧ c.At made (w.holds ++ ys) h' ∧ h.Grows h' (· ∈ w.holds) := by
        refine Runs.after (Heap.look_eq hw) ((ha.copy (ha.isSome_of_value hb)).mono ?_)
        exact fun v h' ⟨hv, ha₁, hg₁⟩ ↦ ⟨hv, hv ▸ ha₁, hg₁⟩
      refine hcopy.andThen fun v h₁ ⟨hv, ha₁, hg₁⟩ ↦ ?_
      subst hv
      have hsole₁ := hsole.grows hg₁ fun i l b' ht _ ↦ by
        refine ⟨fun hl ↦ ?_, v.not_block_mem_holds b'⟩
        obtain rfl := hsole.unique ha ht hw (Heap.list?_of_mem_holds hl)
        exact (hparams j List.mem_cons_self).2 l ht
      exact hnext ha₁ (hg₁.mono fun _ _ _ ↦ trivial) (fun hr ↦
        hg₁.matched (ha.regular hr _ v (Option.some_ne_none _).symm hb))
        ((hclear j List.mem_cons_self v hw).quiet ha (ha.isSome_of_value hb) hg₁.quiet) hsole₁
        (Heap.shown_eq hw).symm

/-- An operation on copies of the values of arguments. -/
theorem At.withArguments (ha : c.At made ys h) (hcalm : c.Calm h)
    {params : List (Option HandleId)} {x : Hold}
    (hparams : ∀ j, some j ∈ params → Hold.handle j ∈ ys ++ c.outside ∧ ∀ l, ¬ c.tied j l)
    (hclear : ∀ j, some j ∈ params → ∀ w, h.valueOf? j = some w → c.Clears h w.holds x)
    {act : List (Value Obj) → HeapM Obj (Heap.CallOutcome Obj)}
    (hact : ∀ args h', c.At made (args.flatMap Value.holds ++ ys) h' →
      (h.Grows h' fun _ ↦ True) → c.Calm h' → (c.regular → ∀ w ∈ args, h'.Matched w) →
      (∀ w ∈ args, c.Clears h' w.holds x) → args = params.map h.shownBy →
      c.Leads (act args) h' (c.Answered made (args.flatMap Value.holds ++ ys))
        (c.Faults made (args.flatMap Value.holds ++ ys))) :
    c.Leads (Heap.withArguments params act) h (c.Answered made ys) (c.Faults made ys) := by
  rw [Heap.withArguments]
  refine Leads.bind (ha.argumentValues hparams hclear hcalm.sole).ends
    fun args h₁ ⟨ha₁, hg₁, hm₁, hclear₁, hsole₁, hargs⟩ ↦ ?_
  refine (At.leadsHolding (hact args h₁ ha₁ hg₁ (hcalm.adds hg₁.toAdds hsole₁) hm₁ hclear₁
    hargs)).andThen
    (fun _ _ _ ↦ not_exhausts_of_ok rfl) fun o h₂ ⟨ha₂, hm₂⟩ ↦ ?_
  have ha₃ : c.At made (args.flatMap Value.holds ++ (outcomeHolds o ++ ys)) h₂ :=
    ha₂.perm (List.perm_append_comm_assoc _ _ _)
  refine ha₃.letGo.bind fun _ h₃ ⟨ha₄, hr₄⟩ ↦ .pure ⟨ha₄, fun hr v hv ↦ ?_⟩
  refine hr₄.quiet.steady.matched ha₂.sound.tidy (hm₂ hr v hv) fun y hy ↦ ?_
  refine ha₄.isSome_of_mem (List.mem_append_left _ (List.mem_append_left _ ?_))
  rw [outcomeHolds, hv]
  exact hy

theorem given_of_arguments {args : List (Value Obj)} (ys : List Hold) :
    ∀ w ∈ args, c.Given (args.flatMap Value.holds ++ ys) w := by
  intro w hw y hy
  have hmem := List.mem_flatMap.2 ⟨w, hw, hy⟩
  exact .inl (List.mem_append_left _ (List.mem_append_left _ hmem))

/-- **A call of a built-in method.**  The answers of the script are values that are held. -/
theorem Target.callBuiltin (ht : c.Target i) (ha : c.At made ys h) (hcalm : c.Calm h) (m : Method)
    {caller : Heap.Caller Obj} (force : Bool)
    (hparams : ∀ j, some j ∈ caller.params → Hold.handle j ∈ ys ++ c.outside ∧ ∀ l, ¬ c.tied j l)
    (hanswers : ∀ v m w, caller.answer? v m = some w → c.Given ys w ∧ (c.regular → h.Matched w))
    (hreads : c.reads → ∀ v, h.valueOf? i = some v → v.UnchangedBy m.name)
    (hclear : ∀ j, some j ∈ caller.params → ∀ w, h.valueOf? j = some w →
      c.Clears h w.holds (.handle i))
    (hyields : m = .erase → ∀ v place, h.valueOf? i = some v →
      v.erasedPlace? (caller.params.map h.shownBy) = some place → c.Yields h place) :
    c.Leads (Heap.callBuiltin i m caller force) h (c.Answered made ys) (c.Faults made ys) := by
  obtain ⟨v, hv⟩ := ht.exists_value ha
  rw [Heap.callBuiltin]
  refine Leads.after (Heap.look_eq hv) ?_
  dsimp only
  split
  · rename_i w hw
    have hanswer : c.Given ys w ∧ (c.regular → h.Matched w) := by
      cases force with
      | true => cases hw
      | false => exact hanswers v m w hw
    refine .of_ends ((ha.copy (ha.isSome_of_given hanswer.1)).bind
      fun w' h₁ ⟨hw', ha₁, hg₁⟩ ↦ .pure ?_)
    subst hw'
    refine Results.answered ⟨ha₁, fun hr w'' hw'' ↦ ?_⟩ _
    cases hw''
    exact hg₁.matched (hanswer.2 hr)
  · refine ha.withArguments hcalm hparams hclear fun args h₁ ha₁ hg₁ hcalm₁ hm₁ hclear₁ hargs ↦ ?_
    have hv₁ := hg₁.valueOf? hv
    refine Leads.after (Heap.look_eq hv₁) ?_
    refine (ht.dispatch ha₁ hcalm₁ m (given_of_arguments ys) hm₁ (fun hread w hw ↦ ?_) hclear₁
      fun hm w place hw hplace ↦ ?_).andThen (fun r t _ ↦ ?_) fun r h₂ hr ↦ ?_
    · obtain rfl := Option.some.inj (hv₁.symm.trans hw)
      exact hreads hread v hv
    · obtain rfl := Option.some.inj (hv₁.symm.trans hw)
      exact (hyields hm v place hv (hargs ▸ hplace)).steady ha hg₁.quiet.steady
    · cases r with
      | some w => exact not_exhausts_of_ok rfl
      | none => exact not_exhausts_of_ok rfl
    · cases r with
      | some w => exact .pure (hr.answered _)
      | none => exact .pure (hr.1.unanswered _ _)

/-- **A call by name.** -/
theorem Target.callMethod (ht : c.Target i) (ha : c.At made ys h) (hcalm : c.Calm h) (name : String)
    {caller : Heap.Caller Obj}
    (hparams : ∀ j, some j ∈ caller.params → Hold.handle j ∈ ys ++ c.outside ∧ ∀ l, ¬ c.tied j l)
    (hanswers : ∀ v m w, caller.answer? v m = some w → c.Given ys w ∧ (c.regular → h.Matched w))
    (hreads : c.reads → ∀ v, h.valueOf? i = some v → v.UnchangedBy name)
    (hclear : ∀ j, some j ∈ caller.params → ∀ w, h.valueOf? j = some w →
      c.Clears h w.holds (.handle i))
    (hyields : Method.ofName? name = some .erase → ∀ v place, h.valueOf? i = some v →
      v.erasedPlace? (caller.params.map h.shownBy) = some place → c.Yields h place) :
    c.Leads (Heap.callMethod i name caller) h (c.Answered made ys) (c.Faults made ys) := by
  obtain ⟨v, hv⟩ := ht.exists_value ha
  rw [Heap.callMethod]
  refine Leads.after (Heap.look_eq hv) ?_
  split
  · refine ha.withArguments hcalm hparams hclear fun args h₁ ha₁ hg₁ hcalm₁ hm₁ _ _ ↦ ?_
    refine Leads.bind (ht.own ha₁ hcalm₁ (hg₁.valueOf? hv) fun _ he ↦ by cases he)
      fun b h₂ ⟨ha₂, hsteady, hown, _⟩ ↦ ?_
    have hm₂ (hr : c.regular) (w : Value Obj) (hw : w ∈ args) : h₂.Matched w :=
      hsteady.matched ha₁.sound.tidy (hm₁ hr w hw)
        (ha₂.isSome_of_given (given_of_arguments ys w hw))
    refine (ha₂.hostMethod hown name (given_of_arguments ys) hm₂ fun hread o' ho' ↦ ?_).andThen
      (fun r t _ ↦ ?_) fun r h₃ hr ↦ ?_
    · exact (hreads hread _ hv).host o' ho' args
    · cases r with
      | some w => exact not_exhausts_of_ok rfl
      | none =>
        exact fun he ↦ not_exhausts_look t (he.first fun _ _ _ ↦ not_exhausts_of_ok rfl)
    · cases r with
      | some w => exact .pure (hr.answered _)
      | none =>
        obtain ⟨w, hw⟩ := ht.exists_value hr.1
        exact Ends.after (Heap.look_eq hw) (.pure (hr.1.unanswered _ _))
  · rename_i hobject
    split
    · rename_i m hm
      refine ht.callBuiltin ha hcalm m false hparams hanswers (fun hread w hw ↦ ?_) hclear
        fun he ↦ hyields (he ▸ hm)
      obtain rfl := Option.some.inj (hv.symm.trans hw)
      obtain ⟨hbuiltin, hhost⟩ := hreads hread v hv
      refine ⟨fun m' hm' ↦ ?_, fun o ho ↦ ?_⟩
      · rw [Method.ofName?_name] at hm'
        cases hm'
        exact hbuiltin m hm
      · exact (hobject o ho).elim
    · exact .of_ends (.pure (ha.unanswered _ _))

end Scene
end ScriptHeap
