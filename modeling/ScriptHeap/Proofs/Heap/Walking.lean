import ScriptHeap.Proofs.Heap.Attached
import ScriptHeap.Proofs.Heap.Calls
import ScriptHeap.Proofs.Heap.Course

/-!
# Walking over a container

A cursor is made of the elements that a container has when block and list are its handle's own.  To
get a list of its own, the elements may have to be copied, while the handle is being written.  That
comes to an end unless the handle is one of the elements.  Walking on needs nothing but a block for
what the loop variable is to show.

## What is here

* `Prompt` — an operation that does not come upon a variable that is being written.
* `Heap.Sound.newCursor?` — what a new cursor is made of, or why there is none.
* `Heap.Walks`, `Heap.Sound.walks` — what a step of a walk gives, and what the loop variable shows.
-/

set_option autoImplicit false
namespace ScriptHeap

variable {Obj σ α β γ : Type}

/-! ## Variables that are being written -/

/-- An operation that does not come upon a variable that is being written. -/
def Prompt (act : EStateM Fault σ α) : Prop :=
  ∀ s, Ends act s (fun _ _ ↦ True) fun f _ ↦ f ≠ .busy

namespace Prompt

variable {act : EStateM Fault σ α}

theorem pure (a : α) : Prompt (pure a : EStateM Fault σ α) :=
  fun _ ↦ .pure trivial

theorem throw {f : Fault} (hf : f ≠ .busy) : Prompt (throw f : EStateM Fault σ α) :=
  fun _ ↦ .throw hf

theorem get : Prompt (get : EStateM Fault σ σ) :=
  fun _ ↦ .of_ok rfl trivial

theorem modifyGet (g : σ → α × σ) : Prompt (modifyGet g : EStateM Fault σ α) :=
  fun _ ↦ .of_ok rfl trivial

theorem modify (g : σ → σ) : Prompt (modify g : EStateM Fault σ PUnit) :=
  modifyGet _

theorem bind {f : α → EStateM Fault σ β} (hact : Prompt act) (hf : ∀ a, Prompt (f a)) :
    Prompt (act >>= f) :=
  fun s ↦ Ends.bind (hact s) fun a t _ ↦ hf a t

theorem mapM {g : γ → EStateM Fault σ α} (hg : ∀ x, Prompt (g x)) (xs : List γ) :
    Prompt (xs.mapM g) := by
  induction xs with
  | nil => exact .pure []
  | cons x xs ih =>
    rw [List.mapM_cons]
    exact (hg x).bind fun _ ↦ ih.bind fun _ ↦ .pure _

theorem ends (hact : Prompt act) (s : σ) (p : Prop) :
    Ends act s (fun _ _ ↦ True) fun f _ ↦ f = .busy → p :=
  (hact s).mono (fun _ _ _ ↦ trivial) fun _ _ hf he ↦ (hf he).elim

end Prompt

namespace Heap

theorem prompt_look (f : Heap Obj → Option α) : Prompt (look f) :=
  Prompt.get.bind fun h ↦ by
    cases f h with
    | some a => exact .pure a
    | none => exact .throw (by decide)

variable [HostObject Obj]

theorem prompt_allocate (v : Value Obj) : Prompt (allocate v) := by
  refine Prompt.get.bind fun h ↦ ?_
  dsimp only
  split
  · exact (Prompt.get.bind fun _ ↦ (Prompt.modify _).bind fun _ ↦ .throw (by simp))
  · exact .modifyGet _

theorem prompt_place (v : Value Obj) : Prompt (place v) := by
  rw [place]
  split
  · refine Prompt.get.bind fun h ↦ ?_
    split
    · exact (Prompt.modify _).bind fun _ ↦ .pure _
    · exact (prompt_allocate _).bind fun _ ↦ (Prompt.modify _).bind fun _ ↦
        (Prompt.modify _).bind fun _ ↦ .pure _
  · exact prompt_allocate v

omit [HostObject Obj] in
theorem prompt_rebind (i : HandleId) (b : BlockId) : Prompt (rebind i b : HeapM Obj Unit) :=
  (prompt_look _).bind fun _ ↦ (Prompt.modify _).bind fun _ ↦ .modify _

theorem prompt_own (i : HandleId) : Prompt (own i : HeapM Obj BlockId) := by
  refine (prompt_look _).bind fun b ↦ (Prompt.get.bind fun _ ↦ .pure _).bind fun sole ↦ ?_
  split
  · exact .pure b
  · exact (prompt_look _).bind fun v ↦ ((Prompt.modify _).bind fun _ ↦ .pure v).bind fun v ↦
      (prompt_allocate v).bind fun fresh ↦ (prompt_rebind i fresh).bind fun _ ↦ .pure fresh

theorem prompt_setValue (i : HandleId) (v : Value Obj) : Prompt (setValue i v) := by
  refine (prompt_look _).bind fun b ↦ (prompt_look _).bind fun old ↦
    (Prompt.get.bind fun _ ↦ .pure _).bind fun sole ↦ ?_
  split
  · exact (Prompt.modify _).bind fun _ ↦ .modify _
  · exact (prompt_place v).bind fun b ↦ prompt_rebind i b

theorem prompt_duplicate (i : HandleId) : Prompt (duplicate i : HeapM Obj HandleId) :=
  (prompt_look _).bind fun _ ↦ (Prompt.modify _).bind fun _ ↦ (prompt_look _).bind fun _ ↦
    .modifyGet _

theorem prompt_ownList (l : ListId) : Prompt (ownList l : HeapM Obj ListId) := by
  refine (prompt_look _).bind fun k ↦ ?_
  split
  · exact .pure l
  · exact (Prompt.mapM prompt_duplicate _).bind fun _ ↦ (Prompt.modifyGet _).bind fun _ ↦
      (Prompt.modify _).bind fun _ ↦ .pure _

variable {h : Heap Obj}

/-- A list can be made the own one of a block, unless a variable with the block is in the list. -/
theorem ends_ownListFor (b : BlockId) (l : ListId) :
    Ends (ownListFor b l) h (fun _ _ ↦ True) fun f _ ↦ f = .busy →
      ∃ is, h.elements? l = some is ∧ ∃ e ∈ is, h.blockOf? e = some b := by
  refine Ends.bind ((prompt_look _).ends h _).known fun k t ⟨_, hrun⟩ ↦ ?_
  obtain ⟨hk, rfl⟩ := look_eq_ok hrun
  split
  · have hapart : Ends (ensureApart b k.elements) t (fun _ _ ↦ True) fun f _ ↦ f = .busy →
        ∃ is, t.elements? l = some is ∧ ∃ e ∈ is, t.blockOf? e = some b :=
      (Scene.ends_ensureApart t b k.elements).mono (fun _ _ _ ↦ trivial) fun _ _ hmem _ ↦
        ⟨_, Option.map_eq_some_iff.2 ⟨k, hk, rfl⟩, hmem.2.2⟩
    exact hapart.bind fun _ t' _ ↦ (prompt_ownList l).ends t' _
  · exact (prompt_ownList l).ends t _

@[inherit_doc ends_ownListFor]
theorem ends_ownListIn {b : BlockId} {v : Value Obj} (hv : h.valueAt? b = some v) :
    Ends (ownListIn b) h (fun _ _ ↦ True) fun f _ ↦ f = .busy →
      ∃ l is, v.list? = some l ∧ h.elements? l = some is ∧ ∃ e ∈ is, h.blockOf? e = some b := by
  refine Ends.after (look_eq hv) ?_
  cases hl : v.list? with
  | none => exact .pure trivial
  | some l =>
    refine Ends.bind ((ends_ownListFor b l).mono (fun _ _ ha ↦ ha) fun _ _ hf he ↦ ?_)
      fun fresh t _ ↦ Ends.after rfl (.pure trivial)
    obtain ⟨is, his, hmem⟩ := hf he
    exact ⟨l, is, rfl, his, hmem⟩

/-- An operation on the variables of a heap that does not end for want of a block has a result, or it
came upon a variable that is being written. -/
theorem Sound.runs_or_busy {xs ys : List Hold} {made : List HandleId} {act : HeapM Obj α}
    {good : α → Heap Obj → Prop} {p : Prop} {blocked : HandleId → Prop} (hs : h.Sound xs)
    (hact : Ends act h good fun f h' ↦
      (Scene.ofHeap hs blocked).Faults made ys f h' ∧ (f = .busy → p))
    (hnot : ¬ Exhausts act h) : Runs act h good ∨ p ∧ ∃ h', act h = .error .busy h' := by
  unfold Ends at hact
  split at hact
  · rename_i a h' hrun
    exact .inl ⟨a, h', hrun, hact⟩
  · rename_i f h' hrun
    obtain ⟨⟨-, hf⟩, hbusy⟩ := hact
    cases f with
    | exhausted pool capacity => exact (hnot ⟨pool, capacity, h', hrun⟩).elim
    | busy => exact .inr ⟨hbusy rfl, h', hrun⟩
    | unnamedPlace place names => exact (hf trivial).elim
    | nullReference => exact hf.elim
    | dangling => exact hf.elim

/-! ## Cursors -/

variable {xs : List Hold} {i : HandleId} {bound : Option HandleId} {v : Value Obj} {l : ListId}
  {is : List HandleId}

omit [HostObject Obj] in
theorem names_withList (v : Value Obj) (m : ListId) : (v.withList m).names = v.names := by
  cases v <;> rfl

theorem kind_of_list? (hl : v.list? = some l) : v.kind = .array ∨ v.kind = .struct := by
  cases v with
  | scalar s => cases hl
  | array l => exact .inl rfl
  | struct names l => exact .inr rfl

/-- A new cursor beside its container: both have the same elements, as many as the container had. -/
structure Faces (h : Heap Obj) (xs : List Hold) (i : HandleId) (v : Value Obj) (size : Nat)
    (bound : Option HandleId) (k : Cursor) : Prop where
  sound : h.Sound (k.holds ++ xs)
  names : k.names = v.names
  bound : k.bound = bound
  passed : k.passed = 0
  stores : ∃ m, h.valueOf? i = some (v.withList m) ∧ h.elements? m = some k.elements
  length : k.elements.length = size

/-- A container that shares nothing has a cursor. -/
theorem Owns.newCursor? (ho : h.Owns i l) (his : h.elements? l = some is)
    (bound : Option HandleId) :
    Runs (Heap.newCursor? i bound) h fun _ _ ↦ True := by
  obtain ⟨b, v, hi, hblock, hb, hl, hlist⟩ := ho
  have hv : h.valueOf? i = some v := by
    rw [valueOf?, hi, Option.bind_some, hb]
  refine Runs.after (look_eq hv) ?_
  dsimp only
  rw [if_pos (kind_of_list? hl)]
  refine Runs.after (own_eq hi hb hblock) (Runs.after (ownListIn_eq hb hl hlist) ?_)
  exact Runs.after (look_eq his) (Runs.after (look_eq hb) (Runs.after rfl (.pure trivial)))

/-- What becomes of a container when a cursor is made: the list that the handle has then holds as
many elements as before, and the handle is one of the elements if it cannot come to that. -/
theorem Sound.ends_newCursor? (hs : h.Sound xs) (hheld : Hold.handle i ∈ xs)
    (hbound : ∀ j, bound = some j → Hold.handle j ∈ xs) (hv : h.valueOf? i = some v)
    (hl : v.list? = some l) (his : h.elements? l = some is) :
    Ends (Heap.newCursor? i bound) h
      (fun r h' ↦ ∃ k, r = some k ∧ h'.Faces xs i v is.length bound k)
      fun f h' ↦ (Scene.ofHeap hs (· = i)).Faults [] [] f h' ∧ (f = .busy → i ∈ is) := by
  have ha := Scene.at_ofHeap hs (· = i)
  have hcalm : (Scene.ofHeap hs (· = i)).Calm h := Scene.calm_before fun _ _ ht ↦ ht.elim
  have hborn : h.Born (.list l) := born_of_content? hs.tidy (content?_list.2 his)
  refine Ends.after (look_eq hv) ?_
  dsimp only
  rw [if_pos (kind_of_list? hl)]
  refine Ends.bind (((ha.own hcalm hheld (Scene.free_of_blocked rfl _) hv False.elim).and
    ((prompt_own i).ends h _)).mono (fun _ _ hown ↦ hown.1) fun _ _ hf ↦ hf)
    fun b h₁ ⟨ha₁, hsteady, hb, hown, hready⟩ ↦ ?_
  have hsame (js : List HandleId) (hjs : h₁.elements? l = some js) : js = is :=
    Option.some.inj ((hsteady.lists l js hborn hjs).symm.trans his)
  refine Ends.bind (((ha₁.ownListIn hown hready).and (ends_ownListIn hown.value)).mono
    (fun _ _ hlist ↦ hlist.1) fun f h₂ hf ↦ ⟨hf.1, fun hbusy ↦ ?_⟩)
    fun r h₂ ⟨ha₂, _, hr, hnone⟩ ↦ ?_
  · obtain ⟨l', js, hl', hjs, e, he, heb⟩ := hf.2 hbusy
    obtain rfl := Option.some.inj (hl.symm.trans hl')
    obtain rfl := hsame js hjs
    rwa [← ha₁.eq_of_block hb hown.sole heb]
  · cases r with
    | none => cases hl.symm.trans (hnone rfl)
    | some m =>
      obtain ⟨hown₂, -, ⟨l', hl', js, ks, hjs, hks, hall⟩, hblocks⟩ := hr m rfl
      obtain rfl := Option.some.inj (hl.symm.trans hl')
      obtain rfl := hsame js hjs
      refine Ends.after (look_eq hks) (Ends.after (look_eq hown₂.value) ?_)
      refine (ha₂.hold fun x hx ↦ ?_).bind fun _ h₃ ⟨ha₃, hg₃⟩ ↦ .pure ⟨_, rfl, ?_⟩
      · obtain ⟨j, hj, rfl⟩ := List.mem_map.1 hx
        rcases List.mem_append.1 hj with hj | hj
        · exact ha₂.isSome_of_element hks j hj
        · exact ha₂.isSome_of_mem (hbound j (Option.mem_toList.1 hj))
      · have hshows : h₂.valueOf? i = some (v.withList m) := by
          rw [valueOf?, hblocks i b hb, Option.bind_some, hown₂.value]
        have hsound := ha₃.sound
        rw [List.append_nil] at hsound
        exact ⟨hsound, names_withList v m, rfl, rfl,
          ⟨m, hg₃.valueOf? hshows, hg₃.elements? hks⟩, hall.length_eq.symm⟩

/-- **A new cursor** has as many elements as the container had, and they are the ones that the
container has then.  There is none only for want of a block, or if the handle is one of the elements
and shares something. -/
theorem Sound.newCursor? (hs : h.Sound xs) (hheld : Hold.handle i ∈ xs)
    (hbound : ∀ j, bound = some j → Hold.handle j ∈ xs) (hv : h.valueOf? i = some v)
    (hl : v.list? = some l) (his : h.elements? l = some is)
    (hnot : ¬ Exhausts (Heap.newCursor? i bound) h) :
    (i ∈ is ∧ ¬ h.Owns i l ∧ ∃ h', Heap.newCursor? i bound h = .error .busy h') ∨
      ∃ k h', Heap.newCursor? i bound h = .ok (some k) h' ∧ h'.Faces xs i v is.length bound k := by
  rcases hs.runs_or_busy (hs.ends_newCursor? hheld hbound hv hl his) hnot with
    ⟨_, h', hrun, k, rfl, hk⟩ | ⟨hi, h', hrun⟩
  · exact .inr ⟨k, h', hrun, hk⟩
  · refine .inl ⟨hi, fun ho ↦ ?_, h', hrun⟩
    obtain ⟨_, _, hok, -⟩ := ho.newCursor? his bound
    cases hrun.symm.trans hok

/-- At the end of a walk nothing happens. -/
theorem advance_of_none {k : Cursor} (hk : k.elements[k.passed]? = none) (h : Heap Obj) :
    Heap.advance k h = .ok (none, k) h := by
  rw [Heap.advance]
  simp only [hk]
  rfl

/-- **The next element** of a cursor is there for the caller, and the loop variable shows where it
is, unless there is no block for that. -/
theorem Sound.advance {k : Cursor} {e : HandleId} (hs : h.Sound xs) (hheld : ∀ x ∈ k.holds, x ∈ xs)
    (he : k.elements[k.passed]? = some e) (hnot : ¬ Exhausts (Heap.advance k) h) :
    ∃ h', Heap.advance k h = .ok (some e, { k with passed := k.passed + 1 }) h' ∧
      ∀ j, k.bound = some j → h'.valueOf? j = some (k.key k.passed) := by
  have ha := Scene.at_ofHeap hs fun _ ↦ True
  have hcalm : (Scene.ofHeap hs fun _ ↦ True).Calm h := Scene.calm_before fun _ _ ht ↦ ht.elim
  obtain ⟨ha₁, hg₁⟩ := ha.retainOne (hs.isSome_of_mem (hheld _ (List.mem_map.2
    ⟨e, List.mem_append_left _ (List.mem_of_getElem? he), rfl⟩)))
  have hends : Ends (Heap.advance k) h
      (fun r h' ↦ r = (some e, { k with passed := k.passed + 1 }) ∧
        ∀ j, k.bound = some j → h'.valueOf? j = some (k.key k.passed))
      fun f h' ↦ (Scene.ofHeap hs fun _ ↦ True).Faults [] [] f h' ∧ (f = .busy → False) := by
    rw [Heap.advance]
    simp only [he]
    refine Ends.after (share_eq e h) ?_
    cases hbound : k.bound with
    | none => exact Ends.after rfl (.pure ⟨rfl, by simp⟩)
    | some j =>
      have hkey : (k.key k.passed : Value Obj).holds = [] := by
        rw [Cursor.key]
        split <;> rfl
      have ha₂ : (Scene.ofHeap hs fun _ ↦ True).At []
          ((k.key k.passed : Value Obj).holds ++ [.handle e]) (h.retainOne (.handle e)) := by
        rw [hkey]
        exact ha₁
      have hmem := hheld (.handle j) (List.mem_map.2 ⟨j, by simp [hbound], rfl⟩)
      have hj : Hold.handle j ∈ [.handle e] ++ xs := List.mem_append_right _ hmem
      obtain ⟨b, _, hjb, -⟩ := hs.exists_value (hs.isSome_of_mem hmem)
      have hset : Ends (Heap.setValue j (k.key k.passed)) (h.retainOne (.handle e)) _
          ((Scene.ofHeap hs fun _ ↦ True).Faults [] ([.handle e] ++ [])) :=
        ha₂.setValue False.elim hj ((hcalm.fullAt j).adds ha hjb hg₁.toAdds) False.elim
          (.of_nil hkey _ _) (fun _ ht ↦ ht.elim) False.elim
      have hshows := ha₂.setValue_shows False.elim hj
      refine Ends.bind (((hset.and (prompt_setValue j _ _)).and hshows).tryCatch fun f t hf ↦
        Ends.after rfl (.throw ⟨⟨hf.1.1.1.release.1, hf.1.1.2.release _⟩, hf.1.2⟩))
        fun _ h₂ hset ↦ .pure ⟨rfl, fun j' hj' ↦ ?_⟩
      cases hj'
      exact hset.2.1
  rcases hs.runs_or_busy hends hnot with ⟨_, h', hrun, rfl, hshows⟩ | ⟨hno, -⟩
  · exact ⟨h', hrun, hshows⟩
  · exact hno.elim

end Heap
end ScriptHeap
