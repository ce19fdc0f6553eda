import ScriptHeap.Heap.Operate
import ScriptHeap.Proofs.Heap.Writing

/-!
# Operators

An operator makes a new value and leaves its operands as they are: an array with more elements gets
a list of its own before the elements are added.  Applied to a variable, it writes to that variable.

## What is here

* `Heap.Appends`, `Heap.Joins` — when elements are put last in a variable, and what a sum shows.
* `Scene.At.joined`, `Scene.At.operate` — the sum of an array and another value, and the result of
  any operator.
* `Scene.At.append`, `Scene.At.operateInPlace` — an array that grows in place, and any operator
  applied to a variable.
-/

set_option autoImplicit false
namespace ScriptHeap

variable {Obj : Type} [HostObject Obj]

namespace Heap

/-- An operator puts elements last in a variable: it is `+` on an array, and what is added is no
error. -/
def Appends (h : Heap Obj) (op : Operator) (i : HandleId) (v : Value Obj) : Prop :=
  op = .add ∧ v.isError = false ∧ ∃ l, h.valueOf? i = some (.array l)

/-- What `+` puts behind the elements of an array: the elements of another array, or any other value
as one element. -/
def addends (depth : Nat) (h : Heap Obj) : Value Obj → List (Datum Obj)
  | .array l => shape depth h (.list l)
  | v => [outline depth h v]

/-- A value shows the elements of a list and behind them what `+` adds to an array. -/
def Joins (h h' : Heap Obj) (l : ListId) (v w : Value Obj) : Prop :=
  ∃ m, w = .array m ∧
    ∀ depth, shape depth h' (.list m) = shape depth h (.list l) ++ addends depth h v

omit [HostObject Obj] in
theorem addends_of_ne {v : Value Obj} (hv : ∀ l, v = .array l → False) (depth : Nat)
    (h : Heap Obj) : addends depth h v = [outline depth h v] := by
  unfold addends
  split
  · exact (hv _ rfl).elim
  · rfl

end Heap

namespace Scene

variable {c : Scene Obj} {made : List HandleId} {ys : List Hold} {h : Heap Obj}

/-- What an operation leaves that computes a value for the caller to hold. -/
def Computed (c : Scene Obj) (made : List HandleId) (ys : List Hold) (h : Heap Obj)
    (v : Value Obj) (h' : Heap Obj) : Prop :=
  c.At made (v.holds ++ ys) h' ∧ h.Adds h' ∧ (c.regular → h'.Matched v)

theorem At.computed {v : Value Obj} (ha : c.At made ys h) (hv : v.holds = []) :
    c.Computed made ys h v h := by
  refine ⟨?_, .refl h, fun _ ↦ Heap.matched_of_holds hv⟩
  rw [hv]
  exact ha

/-- A list that the operation alone holds is in no value. -/
theorem At.fits_of_held {l : ListId} {is : List HandleId} (ha : c.At made (.list l :: ys) h)
    (hsole : h.count (.list l) = 1) : c.FitsList h none l is := by
  intro _ b v _ hv hl
  have hmem : Hold.list l ∈ h.holdsOf (.block b) :=
    Heap.list_mem_holdsOf hv hl
  have hpos := (List.count_pos_iff.2 hmem).trans_le
    (h.count_holdsOf_le_uses (.list l) (.block b))
  have hcounted := ha.sound.counted (.list l)
  simp only [List.count_append, List.count_cons_self] at hcounted
  omega

/-- Nothing leads to a cell that the operation alone holds. -/
theorem At.clears_of_held {x : Hold} {zs : List Hold} (ha : c.At made (x :: ys) h)
    (hsole : h.count x = 1) (hzs : x ∉ zs) : c.Clears h zs x := by
  intro _ z hz hreach
  cases hreach with
  | here _ => exact hzs hz
  | @next y _ _ hx _ =>
    have hpos := (List.count_pos_iff.2 hx).trans_le (h.count_holdsOf_le_uses x y)
    have hcounted := ha.sound.counted x
    simp only [List.count_append, List.count_cons_self] at hcounted
    omega

/-- A new list in exchange for one more hold of a list: its elements share the blocks of the old
ones, and nobody else has it. -/
theorem At.copiedList {l : ListId} (ha : c.At made ys h) (hl : 0 < h.count (.list l)) :
    Runs (Heap.ownList l) (h.retainOne (.list l)) fun m h' ↦
      c.At made (.list m :: ys) h' ∧ h.Adds h' ∧ h.Shared h' l m ∧ h'.count (.list m) = 1 ∧
        ¬ h.Born (.list m) := by
  obtain ⟨is, his, hthere⟩ := ha.exists_elements (isSome_of_count hl)
  obtain ⟨ha₁, hg₁⟩ := ha.retainOne (isSome_of_count hl)
  obtain ⟨cell, hcell, rfl⟩ := Option.map_eq_some_iff.1 (hg₁.elements? his)
  have hmore := (Heap.changes_retainOne (At.exists_cell? (Heap.content?_list.2 his))).count
    (.list l)
  rw [if_pos rfl] at hmore
  have hshared : cell.holders ≠ 1 := by
    rw [Heap.count, Heap.cell?, hcell] at hmore
    simp only [Option.map_some, Option.getD_some] at hmore
    omega
  rw [Heap.ownList]
  refine Runs.after (Heap.look_eq hcell) ?_
  rw [if_neg hshared]
  refine (ha₁.duplicateAll fun i hi ↦ hg₁.isSome (hthere i hi)).andThen ?_
  rintro js h₂ ⟨ha₂, hg₂, hjs, -⟩
  refine ha₂.newList.andThen ?_
  rintro m h₃ ⟨ha₃, hg₃, hm, hone, hnew⟩
  have hnew₀ : ¬ h.Born (.list m) :=
    fun hn ↦ hnew (hg₂.quiet.born _ (hg₁.quiet.born _ hn))
  have hadds := (hg₁.toAdds.trans hg₂.toAdds).trans hg₃.toAdds
  have hlt : h.count (.list l) < h₃.count (.list l) := by
    have h₂ := hg₂.le (.list l)
    have h₃ := hg₃.le (.list l)
    omega
  have htwo : 1 < h₃.count (.list l) := by
    omega
  have hne : Hold.list m ≠ .list l := fun he ↦ hnew₀ (he ▸ ha.born (isSome_of_count hl))
  have hcontent := Heap.content?_release_one htwo
  have ha₃' : c.At made ([.list l] ++ (.list m :: ys)) h₃ := ha₃.perm (.swap _ _ _)
  refine Runs.after rfl (.pure ⟨ha₃'.release.1, hadds.giveBack hlt htwo,
    ⟨_, js, his, ?_, hjs.imp ?_⟩, ?_, hnew₀⟩)
  · rwa [Heap.elements?_congr (hcontent _)]
  · rintro i j ⟨b, hi, hj⟩
    exact ⟨b, hi, (Heap.blockOf?_congr (hcontent (.handle j))).trans (hg₃.blockOf? hj)⟩
  · rw [Heap.count_release_one htwo, if_neg hne, hone]

/-- A copy of an array with more elements. -/
theorem At.extended {l : ListId} {added : List HandleId} (ha : c.At (added ++ made) ys h)
    (hl : 0 < h.count (.list l)) :
    Runs (Heap.extended l added) h fun w h' ↦ c.Computed made ys h w h' ∧
      ∃ m, w = .array m ∧ ∀ depth, Heap.shape depth h' (.list m) =
        Heap.shape depth h (.list l) ++ Heap.seen depth h added := by
  rw [Heap.extended]
  refine Runs.after rfl (Runs.andThen (ha.copiedList hl) ?_)
  rintro m h₁ ⟨ha₁, hadds, ⟨is, js, his, hm, hjs⟩, hone, hnew⟩
  refine Runs.after (Heap.look_eq hm) (Runs.after rfl (.pure ?_))
  have hadds' := hadds.changes_new ha.sound.tidy
    (Heap.changes_withElements (At.exists_cell? (Heap.content?_list.2 hm)) (js ++ added)) hnew
  have hperm : ((js ++ added) ++ []).Perm (js ++ added) := by
    rw [List.append_nil]
  have hs := ha₁.sound_withElements hm hperm
  refine ⟨⟨ha₁.withMore added hm (.refl _) (free_of_not_born (ha.not_born hnew) _) (fun hread ↦ ?_)
    (ha₁.fits_of_held hone) (ha₁.clears_of_held hone ?_), hadds', fun _ ↦ Heap.matched_array m⟩,
    m, rfl, fun depth ↦ ?_⟩
  · exact (ha.shown hread).trans ha.onward.born (hadds'.quiet.alike ha.sound hs)
  · simp [handleHolds]
  · -- the elements of the new list have the blocks of the old ones, and those to come keep theirs
    have hadded (e : HandleId) (he : e ∈ added) :
        ∃ b, h.blockOf? e = some b ∧ h₁.blockOf? e = some b := by
      obtain ⟨b, _, hb, -⟩ := ha.exists_value (ha.isSome_of_made (List.mem_append_left _ he))
      exact ⟨b, hb, Heap.content?_handle.1 (hadds.content ha.sound (Heap.content?_handle.2 hb))⟩
    show Heap.shape depth (h₁.withElements m (js ++ added)) (.list m) = _
    rw [Heap.shape_list (Heap.elements?_withElements hm _), Heap.seen_append,
      Heap.shape_list his, hadds'.seen ha.sound hs hjs,
      hadds'.seen ha.sound hs (Heap.forall₂_same hadded)]

/-- New handles for what is added to an array.  They lead to no handle that the value does not lead
to, and show what the value does. -/
theorem At.addition {v : Value Obj} (ha : c.At made ys h) (hv : c.Given ys v)
    (hm : c.regular → h.Matched v) :
    Ends (Heap.addition v) h
      (fun added h' ↦ c.At (added ++ made) ys h' ∧ h.Adds h' ∧
        (∀ i, (h.content? (.handle i)).isSome → c.Clears h v.holds (.handle i) →
          c.Clears h' (handleHolds added) (.handle i)) ∧
        ((∀ i l, c.tied i l → c.Clears h v.holds (.handle i)) → c.Sole h → c.Sole h') ∧
        ∀ depth, Heap.seen depth h' added = Heap.addends depth h v)
      (c.Faults made ys) := by
  have hthere := ha.isSome_of_given hv
  unfold Heap.addition
  split
  · rename_i l
    obtain ⟨is, his, hall⟩ := ha.exists_elements (hthere _ (List.mem_singleton_self _))
    refine Ends.after (Heap.look_eq his) (Runs.ends ?_)
    refine (ha.duplicateAll hall).mono fun js h₁ ⟨ha₁, hg₁, hjs, hnew, _⟩ ↦ ?_
    refine ⟨ha₁, hg₁.toAdds, fun i hi hclear ↦ hclear.duplicates ha hi his hg₁ hnew hjs,
      fun hclear hsole ↦ hsole.grows hg₁ fun i l' b ht hi ↦ ⟨by simp, ?_⟩, fun depth ↦
      (hg₁.toAdds.seen ha.sound ha₁.sound hjs depth).trans (Heap.shape_list his depth).symm⟩
    -- a variable whose block an element has would be an element itself
    rintro ⟨e, he, b', heb, hbb⟩
    obtain ⟨b'', hi', hone, -⟩ := hsole i l' ht
    obtain rfl := Option.some.inj (hi.symm.trans hi')
    cases hbb
    obtain rfl := ha.eq_of_block hi hone heb
    exact hclear e l' ht (c.tied_before e l' ht).1 (.list l) (List.mem_singleton_self _)
      ((Heap.Reaches.refl h _).next (Heap.handle_mem_holdsOf his he))
  · rename_i hother
    refine (ha.copy hthere).bind fun w h₁ ⟨hw, ha₁, hg₁⟩ ↦ ?_
    subst hw
    refine (ha₁.bindNew fun hr ↦ hg₁.matched (hm hr)).bind fun e h₂ ⟨ha₂, hg₂, he, hnew⟩ ↦ ?_
    have hadds := hg₁.toAdds.trans hg₂.toAdds
    refine .pure ⟨ha₂, hadds, fun i hi hclear ↦ ?_,
      fun _ hsole ↦ (hsole.copied ha hv hg₁).grows_unset ha₁ hg₂, fun depth ↦ ?_⟩
    swap
    · rw [Heap.addends_of_ne hother, Heap.seen, List.map_singleton, Heap.shown_eq he,
        hadds.outline ha.sound ha₂.sound hthere]
    refine (hclear.quiet ha hthere hadds.quiet).handle he fun hie ↦ hnew ?_
    exact hie ▸ ha₁.born (hg₁.isSome hi)

omit [HostObject Obj] in
theorem isError_eq_false {v : Value Obj} (hv : ∀ text, v = .error text → False) :
    v.isError = false := by
  cases herror : v.isError with
  | false => rfl
  | true =>
    unfold Value.isError at herror
    split at herror
    · exact (hv _ rfl).elim
    · cases herror

omit [HostObject Obj] in
theorem holds_ite_string (op : Operator) (s : String) (v : Value Obj) (hv : v.holds = []) :
    (if op = .add then Value.string s else v).holds = [] := by
  split
  · rfl
  · exact hv

theorem holds_simpleResult (h : Heap Obj) (op : Operator) (a b : Value Obj) :
    (h.simpleResult op a b).holds = [] := by
  unfold Heap.simpleResult
  split
  · rename_i s t
    cases Scalar.operate? op s t <;> rfl
  · exact holds_ite_string op _ _ rfl
  · rfl

/-- **The sum of an array and another value** shows the elements of the array and what is added. -/
theorem At.joined {l : ListId} {v : Value Obj} (ha : c.At made ys h) (hl : 0 < h.count (.list l))
    (hv : c.Given ys v) (hm : c.regular → h.Matched v) :
    Ends (do Heap.extended l (← Heap.addition v)) h
      (fun w h' ↦ c.Computed made ys h w h' ∧ h.Joins h' l v w) (c.Faults made ys) := by
  refine (ha.addition hv hm).bind fun added h₁ ⟨ha₁, hadds₁, _, _, hseen⟩ ↦ ?_
  have hlist := isSome_of_count hl
  refine Runs.ends ((ha₁.extended (hl.trans_le (hadds₁.le _))).mono ?_)
  rintro w h₂ ⟨⟨ha₂, hadds₂, hm₂⟩, m, hw, hshape⟩
  refine ⟨⟨ha₂, hadds₁.trans hadds₂, hm₂⟩, m, hw, fun depth ↦ ?_⟩
  have hold : Heap.shape depth h₁ (.list l) = Heap.shape depth h (.list l) := by
    refine (hadds₁.quiet.alike ha.sound ha₁.sound _ (ha.born hlist) ?_).2 depth
    exact isSome_of_count (hl.trans_le (hadds₁.le _))
  rw [hshape, hold, hseen]

/-- **The result of an operator.**  The operands stay as they are. -/
theorem At.operate {op : Operator} {a b : Value Obj} (ha : c.At made ys h)
    (hleft : ∀ y ∈ a.holds, 0 < h.count y) (hright : c.Given ys b) (hm : c.regular → h.Matched b) :
    Ends (Heap.operate op a b) h (c.Computed made ys h) (c.Faults made ys) := by
  unfold Heap.operate
  split
  · exact .pure (ha.computed rfl)
  · exact .pure (ha.computed rfl)
  · rename_i l _
    split
    · exact (ha.joined (hleft _ (List.mem_singleton_self _)) hright hm).mono
        (fun _ _ hh ↦ hh.1) fun _ _ hf ↦ hf
    · exact .pure (ha.computed rfl)
  · have hget : (get : HeapM Obj (Heap Obj)) h = .ok h h := rfl
    exact Ends.after hget (.pure (ha.computed (holds_simpleResult h op _ _)))

/-- Where nothing is added to an array the result has no elements. -/
theorem operate_plain {op : Operator} {a b : Value Obj} (h : Heap Obj)
    (hplain : ∀ l, a = .array l → op = .add → b.isError = false → False) :
    ∃ w, Heap.operate op a b h = .ok w h ∧ w.holds = [] := by
  unfold Heap.operate
  split
  · exact ⟨_, rfl, rfl⟩
  · exact ⟨_, rfl, rfl⟩
  · rename_i l herror
    split
    · rename_i hop
      exact (hplain l rfl hop (isError_eq_false herror)).elim
    · exact ⟨_, rfl, rfl⟩
  · exact ⟨_, rfl, holds_simpleResult h op _ _⟩

/-- An array in a variable to which new handles are about to be put last: block and list are the
variable's own, the handles do not lead there, and they show what is to be added. -/
structure Extends (c : Scene Obj) (made : List HandleId) (ys : List Hold) (h : Heap Obj)
    (i : HandleId) (v : Value Obj) (added : List HandleId) (m : ListId) (js : List HandleId)
    (h' : Heap Obj) : Prop where
  here : c.At (added ++ made) ys h'
  value : h'.valueOf? i = some (.array m)
  block : ∃ b, c.Owned h' b (.array m)
  list : c.OwnList h' m
  elements : h'.elements? m = some js
  clear : c.Clears h' (handleHolds added) (.list m)
  seen : c.acyclic → ∀ depth, Heap.seen depth h' added = Heap.addends depth h v

/-- **An array grows in place.**  The last thing that is done is to put new handles into its list.
-/
theorem At.append {op : Operator} {i : HandleId} {v : Value Obj} (ha : c.At made ys h)
    (hcalm : c.Calm h) (hheld : Hold.handle i ∈ c.outside) (hblocked : c.blocked i)
    (honly : ∀ j l, c.tied j l → j = i) (hv : c.Given ys v) (hm : c.regular → h.Matched v)
    (hclear : c.Clears h v.holds (.handle i)) (happends : h.Appends op i v) :
    Ends (Heap.operateInPlace op i v) h
      (fun _ t ↦ ∃ added m js h', c.Extends made ys h i v added m js h' ∧
        t = h'.withElements m (js ++ added))
      (c.Faults made ys) := by
  obtain ⟨rfl, herror, l, hi⟩ := happends
  have hmem (zs : List Hold) : Hold.handle i ∈ zs ++ c.outside := List.mem_append_right _ hheld
  have hthere := ha.isSome_of_mem (hmem ys)
  rw [Heap.operateInPlace]
  refine Ends.after (Heap.look_eq hi) ?_
  rw [if_pos (by simp [herror, Value.kind])]
  refine (ha.addition hv hm).bind ?_
  rintro added h₁ ⟨ha₁, hadds₁, hclear₁, hsole₁, hseen₁⟩
  have hi₁ := hadds₁.valueOf? ha.sound hi
  have hcalm₁ := hcalm.adds hadds₁ (hsole₁ (fun j l ht ↦ honly j l ht ▸ hclear) hcalm.sole)
  have hnew (x : Hold) (hx : x ∈ handleHolds added) :
      x ∈ handleHolds (added ++ made) ++ (ys ++ c.outside) := by
    rw [handleHolds, List.map_append]
    exact List.mem_append_left _ (List.mem_append_left _ hx)
  refine (At.holdingMade (ha₁.ownClearing hcalm₁ (hmem ys) (free_of_blocked hblocked h₁) hi₁
    (fun _ ↦ by simp) ((hclear₁ i hthere hclear).seenPast hnew))).bind ?_
  rintro b h₂ ⟨⟨ha₂, -, hb₂, hown, hready⟩, hclear₂, hkeeps₂⟩
  refine Ends.after (Heap.look_eq hown.value) ?_
  refine (At.holdingMade (ha₂.ownListInClearing hown hready hnew hclear₂)).bind ?_
  rintro r h₃ ⟨⟨ha₃, -, hr, hnone⟩, hclear₃, hkeeps₃⟩
  cases r with
  | none => cases hnone rfl
  | some m =>
    have hown₃ := hr m rfl
    obtain ⟨js, hjs⟩ := hown₃.exists_elements
    refine Ends.after (Heap.look_eq hjs) (Ends.of_ok rfl ⟨added, m, js, h₃, ?_, rfl⟩)
    refine ⟨ha₃, ?_, ⟨b, hown₃.block⟩, hown₃.list, hjs, hclear₃ m rfl, fun hac depth ↦ ?_⟩
    · rw [Heap.valueOf?, hown₃.blocks i b hb₂, Option.bind_some]
      exact hown₃.block.value
    · rw [(hkeeps₃ hac).seen, (hkeeps₂ hac).seen, hseen₁]

/-- **An operator applied to a variable.** -/
theorem At.operateInPlace {op : Operator} {i : HandleId} {v : Value Obj} (ha : c.At made ys h)
    (hcalm : c.Calm h) (hheld : Hold.handle i ∈ c.outside) (hblocked : c.blocked i)
    (honly : ∀ j l, c.tied j l → j = i) (hwrites : ¬ c.reads) (hv : c.Given ys v)
    (hm : c.regular → h.Matched v) (hclear : c.Clears h v.holds (.handle i))
    (hloose : ¬ h.Appends op i v → ∀ l, ¬ c.tied i l) :
    c.Leads (Heap.operateInPlace op i v) h (fun _ h' ↦ c.At made ys h') (c.Faults made ys) := by
  have hmem (zs : List Hold) : Hold.handle i ∈ zs ++ c.outside := List.mem_append_right _ hheld
  have hfree (h : Heap Obj) := free_of_blocked hblocked h
  have hthere := ha.isSome_of_mem (hmem ys)
  obtain ⟨_, a, -, -, hi⟩ := ha.exists_value hthere
  by_cases happends : h.Appends op i v
  · intro hwhy
    refine (ha.append hcalm hheld hblocked honly hv hm hclear happends).known.mono ?_
      fun _ _ hf ↦ hf
    rintro _ _ ⟨⟨added, m, js, h', hx, rfl⟩, hrun⟩
    obtain ⟨b, hown⟩ := hx.block
    refine hx.here.withMore added hx.elements (.refl _) hx.list.free (fun hu ↦ ?_)
      (hx.here.fits_of_sole hown.value rfl hx.list.sole fun _ _ ↦ Heap.matched_array m) hx.clear
    exact ((hwhy hu).elim hwrites (not_exhausts_of_ok hrun)).elim
  have hother (l : ListId) (hop : op = .add) (hb : v.isError = false) : a ≠ .array l :=
    fun hl ↦ happends ⟨hop, hb, l, hl ▸ hi⟩
  rw [Heap.operateInPlace]
  refine Leads.after (Heap.look_eq hi) ?_
  split
  · -- a host object that calls itself an array: nothing is added
    rename_i hcond
    obtain ⟨hadd, hkind⟩ := Bool.and_eq_true_iff.1 hcond
    obtain ⟨hop, hb⟩ : op = .add ∧ v.isError = false := by simpa using hadd
    have hset (_ : c.single) : a ≠ .uninit :=
      Heap.ne_uninit_of_kind (beq_iff_eq.1 hkind) (by decide)
    refine Leads.bind (ha.addition hv hm) ?_
    rintro added h₁ ⟨ha₁, hadds₁, -, hsole₁, -⟩
    have hi₁ := hadds₁.valueOf? ha.sound hi
    have hcalm₁ := hcalm.adds hadds₁ (hsole₁ (fun j l ht ↦ honly j l ht ▸ hclear) hcalm.sole)
    refine Leads.bind (At.holdingMade (ha₁.own hcalm₁ (hmem ys) (hfree h₁) hi₁ hset)) ?_
    rintro b h₂ ⟨ha₂, -, -, hown, -⟩
    refine Leads.after (Heap.look_eq hown.value) ?_
    split
    · exact (hother _ hop hb rfl).elim
    · exact .of_ends (Runs.ends (ha₂.settleAll.letGo.mono fun _ _ hh ↦ hh.1))
  · rename_i hcond
    refine Leads.after (Heap.look_eq hi) ?_
    obtain ⟨w, hrun, hw⟩ := operate_plain h fun l hl hop hb ↦ hother l hop hb hl
    have ha' : c.At made (w.holds ++ ys) h := by
      rw [hw]
      exact ha
    refine Leads.after hrun ?_
    exact (ha'.setValue (fun _ ↦ Heap.matched_of_holds hw) (hmem ys) (hcalm.fullAt i) hwrites
      (.of_nil hw h _) (hloose happends)).mono (fun _ _ hset ↦ hset (hfree h)) fun _ _ hf ↦ hf

end Scene
end ScriptHeap
