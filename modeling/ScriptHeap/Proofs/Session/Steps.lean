import ScriptHeap.Proofs.Heap.Operating
import ScriptHeap.Proofs.Session.Elements

/-!
# Every step leads to its end

Each step brings in what it works with, runs one operation on the heap and puts the result away.

## What is here

* `Scene.Begins.keepNew`, `Scene.Begins.deliverResult` — what becomes of the result of an operation.
* `Scene.Begins.rebind`, `Scene.Begins.applyCall`, `Scene.Begins.advance` — the longer steps.
* `Scene.Begins.apply` — every step leads a session to its end, at every scene that is right for it.
-/

set_option autoImplicit false
namespace ScriptHeap

variable {Obj : Type}

namespace Scene

variable [HostObject Obj] {c : Scene Obj} {s : Session Obj} {xs ys : List Hold}

/-! ## Parts of steps -/

section
variable {α : Type} {r : String}

/-- The end of a step that filled or emptied a register. -/
theorem Plays.thenPure {act : SessionM Obj Unit} (hact : c.Plays xs act s) (a : α) :
    c.Plays xs (do act; return a) s :=
  hact.andThen fun _ _ ht ↦ ht.plays a

/-- A new handle that is put into a register. -/
theorem Begins.keepNew {act : HeapM Obj HandleId} {good : HandleId → Heap Obj → Prop}
    (hs : c.Begins xs ys s) (hact : Ends act s.heap good (c.Faults [] []))
    (hgood : ∀ i h, good i h → c.At [i] [] h) :
    c.Plays xs (do
      Session.keepReference r (some (← Session.onHeap act))
      return (Answer.done : Answer Obj)) s :=
  hs.stands.onHeap hact fun i h ha ↦ by
    have hs₁ : c.Stands xs (referenceHolds (some i)) { s with heap := h } :=
      hs.stands.withHeap (hgood i h ha).settle
    exact (hs₁.keepReference r).thenPure _

/-- A reference that is the result of an operation. -/
theorem Begins.deliverResult {act : HeapM Obj (Option HandleId)} (hs : c.Begins xs ys s)
    (hact : c.Leads act s.heap (fun r h ↦ c.At [] (handleHolds r.toList ++ []) h) (c.Faults [] []))
    (into : Option String) :
    c.Performs xs (do Session.deliver into (← Session.onHeap act)) s :=
  hs.stands.onHeapThen hact (fun r ↦ Session.frugal_deliver into r)
    fun _ _ ha ↦ (hs.stands.withHeap ha).deliver into

/-- The same for an operation that always gives one. -/
theorem Begins.deliverElement {act : HeapM Obj HandleId} (hs : c.Begins xs ys s)
    (hact : c.Leads act s.heap (fun e h ↦ c.At [] (.handle e :: []) h) (c.Faults [] []))
    (into : Option String) :
    c.Performs xs (do Session.deliver into (some (← Session.onHeap act))) s :=
  hs.stands.onHeapThen hact (fun e ↦ Session.frugal_deliver into (some e))
    fun e _ ha ↦ Stands.deliver (r := some e) (hs.stands.withHeap ha) into

/-- An operation on the heap without a result. -/
theorem Begins.changing {act : HeapM Obj Unit} (hs : c.Begins xs ys s)
    (hact : c.Leads act s.heap (fun _ h ↦ c.At [] [] h) (c.Faults [] [])) (a : α) :
    c.Performs xs (do Session.onHeap act; return a) s :=
  hs.stands.onHeapThen hact (fun _ ↦ .pure a) fun _ _ ha ↦ (hs.stands.withHeap ha).settled.plays a

/-- An operation with the values of two operands. -/
theorem Begins.withOperands {x y : Operand Obj} {f : Value Obj → Value Obj → SessionM Obj α}
    (hs : c.Begins xs [] s) (hx : c.Suits s x) (hy : c.Suits s y)
    (hf : ∀ v w os zs h, (c.withOutside os).Begins zs [] { s with heap := h } →
      (c.withOutside os).Given [] v → (c.withOutside os).Given [] w → (c.regular → h.Matched w) →
      (c.withOutside os).Performs zs (f v w) { s with heap := h }) :
    c.Performs xs (Session.withOperands x y f) s := by
  refine hs.withOperand hx fun v zs h _ _ hs₁ hv _ _ _ ↦ ?_
  refine hs₁.withOperand (hy.later _ h) fun w zs' h' _ _ hs₂ hw hm _ _ ↦ ?_
  refine hf v w _ _ h' hs₂ (fun y hy ↦ ?_) hw hm
  refine (hv y hy).imp (fun hmem ↦ ?_) fun ⟨b, hb, hmem⟩ ↦ ⟨b, ?_, hmem⟩
  · exact List.mem_append_right zs' hmem
  · exact List.mem_append_right zs' hb

end

/-! ## Blocks -/

/-- A variable is made to point to a block. -/
theorem Begins.rebind (hs : c.Begins xs [] s) {r source : String}
    (hf : c.Fits s (.rebind r source)) :
    c.Performs xs (Session.apply (.rebind r source)) s := by
  refine Leads.after rfl ?_
  split
  · rename_i b hb
    refine hs.onTarget (hf.aims rfl) fun i hr ht ↦ ?_
    obtain ⟨v, hv⟩ := hs.exists_valueAt? (Session.mem_holds_of_block hb)
    have hthere : (s.heap.content? (.block b)).isSome :=
      Heap.isSome_of_valueAt? hv
    have hclear : c.Clears s.heap v.holds (.handle i) := by
      have hfollows : s.Follows (s.brought (.rebind r source)) [.block b] s.heap := by
        rw [Session.brought, hb]
        exact .refl s [.block b]
      intro hac y hy hreach
      have hheld : y ∈ s.heap.holdsOf (.block b) := by
        rwa [Heap.holdsOf_block hv]
      exact hf.clears c.outside rfl hr hfollows hac (.block b) (List.mem_singleton_self _)
        (((Heap.Reaches.refl _ _).next hheld).trans hreach)
    obtain ⟨ha₁, hg₁⟩ := hs.stands.here.retainOne hthere
    obtain ⟨old, -, hi, -⟩ := hs.stands.here.exists_value (hs.stands.here.isSome_of_mem (ht.mem []))
    have hi₁ := hg₁.blockOf? hi
    have hrun : c.Leads (do Heap.hold [.block b]; Heap.rebind i b) s.heap
        (fun _ h ↦ c.At [] [] h) (c.Faults [] []) := by
      refine Leads.after rfl (.of_ok (Heap.rebind_eq hi₁) fun hreads ↦ ?_)
      refine (ha₁.rebound (ht.mem []) hi₁ (hg₁.valueAt? hv) (ht.free _) (fun hu ↦ ?_)
        (hclear.quiet hs.stands.here (hs.stands.here.isSome_of_value hv) hg₁.quiet)
        fun l htied ↦ (hf.retains i l htied).stays.elim).1
      exact (hf.reads (hreads hu)).elim
    exact hs.changing hrun _
  · exact (hs.stands.settled.plays _).performs

/-- A new handle for a block. -/
theorem Begins.newHandle (hs : c.Begins xs [] s) {r source : String} :
    c.Plays xs (Session.apply (.newHandle r source)) s := by
  refine Ends.after rfl ?_
  split
  · rename_i b hb
    obtain ⟨v, hv⟩ := hs.exists_valueAt? (Session.mem_holds_of_block hb)
    have hthere : (s.heap.content? (.block b)).isSome :=
      Heap.isSome_of_valueAt? hv
    have hrun : Ends (do Heap.hold [.block b]; Heap.newHandle b) s.heap
        (fun i h ↦ c.At [i] [] h) (c.Faults [] []) := by
      refine Ends.after rfl (Runs.ends ?_)
      exact (hs.stands.here.retainOne hthere).1.newHandle.mono fun _ _ hh ↦ hh.1
    refine hs.stands.onHeap hrun fun i h ha ↦ ?_
    have hs₁ : c.Stands xs (referenceHolds (some i)) { s with heap := h } :=
      hs.stands.withHeap ha.settle
    exact (hs₁.keepReference r).thenPure _
  · exact hs.stands.settled.plays _

/-! ## Members and elements that are set -/

/-- A member that is set. -/
theorem Begins.setMember (hs : c.Begins xs [] s) {r name : String} {v : Operand Obj} {keep : Bool}
    {into : Option String} (hf : c.Fits s (.setMember r name v keep into)) :
    c.Performs xs (Session.apply (.setMember r name v keep into)) s := by
  rw [Session.apply]
  refine hs.withOperandOn (hf.suits (List.mem_singleton_self v)) (hf.aims rfl)
    fun w zs h i hrun hadds hr hs₁ hw hm ht _ hfollows ↦ ?_
  have hyields (hkeep : keep = false) (u : Value Obj) (place : Nat) (hu : h.valueOf? i = some u)
      (hplace : memberIndex? u.names name = some place) : c.Yields h place := by
    refine hf.yields_later hs hadds ?_
    subst hkeep
    rw [Session.takenPlace?, Session.memberPlace?, hs.valueIn? hs₁ hr hu]
    exact hplace
  have hset := (ht.setMember? hs₁.stands.here hs₁.calm name hw hm keep hf.reads
    (hf.clears _ rfl hr hfollows) hyields).known
  refine hs₁.deliverResult (hset.mono (fun e h₁ ⟨hgives, hknown⟩ ↦ ?_) fun _ _ hf ↦ hf) into
  refine hgives fun hkeep e' he ↦ hf.assigned e' ?_
  subst hkeep he
  have hfollow := Session.deref_of_some (s := { s with heap := h }) hr
  exact congrArg Option.join (Session.result?_of_ok ((bind_of_ok hrun).trans
    ((bind_of_ok hfollow).trans (Session.onHeap_of_ok hknown))))

@[inherit_doc Begins.setMember]
theorem Begins.setMemberById (hs : c.Begins xs [] s) {r : String} {number : Nat} {v : Operand Obj}
    {keep : Bool} {into : Option String} (hf : c.Fits s (.setMemberById r number v keep into)) :
    c.Performs xs (Session.apply (.setMemberById r number v keep into)) s := by
  rw [Session.apply]
  refine hs.withOperandOn (hf.suits (List.mem_singleton_self v)) (hf.aims rfl)
    fun w zs h i hrun hadds hr hs₁ hw hm ht _ hfollows ↦ ?_
  have hyields (hkeep : keep = false) (name : String) (u : Value Obj) (place : Nat)
      (hname : h.memberName? number = some name) (hu : h.valueOf? i = some u)
      (hplace : memberIndex? u.names name = some place) : c.Yields h place := by
    refine hf.yields_later hs hadds ?_
    subst hkeep
    have hbrought : s.broughtName? v number = some name := by
      have hlook : (do return (← get).heap.memberName? number : SessionM Obj (Option String))
          { s with heap := h } = .ok (h.memberName? number) { s with heap := h } := rfl
      exact (congrArg Option.join (Session.result?_of_ok ((bind_of_ok hrun).trans hlook))).trans hname
    rw [Session.takenPlace?, hbrought, Option.bind_eq_bind, Option.bind_some, Session.memberPlace?,
      hs.valueIn? hs₁ hr hu]
    exact hplace
  have hset := (ht.setMemberById? hs₁.stands.here hs₁.calm number hw hm keep hf.reads
    (hf.clears _ rfl hr hfollows) hyields).known
  refine hs₁.deliverResult (hset.mono (fun e h₁ ⟨hgives, hknown⟩ ↦ ?_) fun _ _ hf ↦ hf) into
  refine hgives fun hkeep e' he ↦ hf.assigned e' ?_
  subst hkeep he
  have hfollow := Session.deref_of_some (s := { s with heap := h }) hr
  exact congrArg Option.join (Session.result?_of_ok ((bind_of_ok hrun).trans
    ((bind_of_ok hfollow).trans (Session.onHeap_of_ok hknown))))

/-- An element that is set. -/
theorem Begins.assignElement (hs : c.Begins xs [] s) {r : String} {index : Int32} {v : Operand Obj}
    {keep : Bool} {into : Option String} (hf : c.Fits s (.assignElement r index v keep into)) :
    c.Performs xs (Session.apply (.assignElement r index v keep into)) s := by
  rw [Session.apply]
  refine hs.withOperandOn (hf.suits (List.mem_singleton_self v)) (hf.aims rfl)
    fun w zs h i hrun hadds hr hs₁ hw hm ht _ hfollows ↦ ?_
  have hyields (hkeep : keep = false) (place : Nat) (hplace : fromOne? index = some place) :
      c.Yields h place := by
    refine hf.yields_later hs hadds ?_
    subst hkeep
    exact hplace
  have hset := (ht.assignElement hs₁.stands.here hs₁.calm index hw hm keep hf.reads
    (hf.clears _ rfl hr hfollows) hyields).known
  refine hs₁.deliverElement (hset.mono (fun e h₁ ⟨hgives, hknown⟩ ↦ ?_) fun _ _ hf ↦ hf) into
  refine hgives fun hkeep e' he ↦ hf.assigned e' ?_
  subst hkeep
  cases he
  have hfollow := Session.deref_of_some (s := { s with heap := h }) hr
  exact Session.result?_of_ok ((bind_of_ok hrun).trans
    ((bind_of_ok hfollow).trans (Session.onHeap_of_ok hknown)))

/-! ## Calls -/

/-- A call with arguments and answers of the script, when it is right at every scene. -/
theorem Begins.applyCall (hs : c.Begins xs [] s) {r : String} {args : List (Argument Obj)}
    {answers : Option (List (Method × Datum Obj))} {target : Option String}
    {act : HandleId → Heap.Caller Obj → HeapM Obj (Heap.CallOutcome Obj)}
    (haims : c.Aims (s.references.get? r).join) (hargs : ∀ x, .operand x ∈ args → c.Suits s x)
    (hloose : ∀ name, .reference name ∈ args → c.Loose s name)
    (hnamed : c.regular → ∀ d ∈ (answers.getD []).map (·.2), d.Named)
    (hact : ∀ os h i caller, s.references.get? r = some (some i) → (c.withOutside os).Target i →
      (c.withOutside os).At [] [] h → (c.withOutside os).Calm h →
      s.heap.Adds h →
      (∀ j, some j ∈ caller.params → Hold.handle j ∈ [] ++ os ∧ ∀ l, ¬ c.tied j l) →
      (∀ v m w, caller.answer? v m = some w →
        (c.withOutside os).Given [] w ∧ (c.regular → h.Matched w)) →
      (∀ v, h.valueOf? i = some v → s.heap.valueOf? i = some v) →
      (∀ j, some j ∈ caller.params → ∀ w, h.valueOf? j = some w →
        s.Follows (args.flatMap fun a ↦ s.brings a.source) w.holds h) →
      (∀ v place, h.valueOf? i = some v →
        v.erasedPlace? (caller.params.map h.shownBy) = some place →
        s.erasedPlace? r args = some place) →
      (c.withOutside os).Leads (act i caller) h ((c.withOutside os).Answered [] [])
        ((c.withOutside os).Faults [] [])) :
    c.Performs xs (Session.applyCall r args answers target act) s := by
  refine hs.withData hnamed fun vs zs h hzs hs₁ hm hadds₁ ↦ ?_
  refine hs₁.withArguments (fun x hx ↦ (hargs x hx).later _ h) hloose
    fun params os zs' h' hpassed ↦ ?_
  have hs₂ := hpassed.begins
  refine hs₂.onTarget (haims.withOutside os) fun i hr ht ↦ ?_
  have hanswers (v : Value Obj) (m : Method) (w : Value Obj)
      (hw : (Session.callerOf params (((answers.getD []).map (·.1)).zip vs)).answer? v m = some w) :
      (c.withOutside os).Given [] w ∧ (c.regular → h'.Matched w) := by
    obtain ⟨l₁, l₂, hl, -⟩ := List.lookup_eq_some_iff.1 hw
    have hmem : w ∈ vs := by
      have hpair : (m, w) ∈ ((answers.getD []).map (·.1)).zip vs := by
        rw [hl]
        exact List.mem_append_right _ List.mem_cons_self
      exact (List.of_mem_zip hpair).2
    have hgiven : (c.withOutside os).Given [] w := by
      intro y hy
      refine .inl (hpassed.outside y (List.mem_append_left _ ?_))
      rw [hzs]
      exact List.mem_flatMap.2 ⟨w, hmem, hy⟩
    refine ⟨hgiven, fun hreg ↦ ?_⟩
    exact hpassed.adds.quiet.steady.matched hs₁.stands.here.sound.tidy (hm hreg w hmem)
      (hs₂.stands.here.isSome_of_given hgiven)
  have hvalue (v : Value Obj) (hv : h'.valueOf? i = some v) : s.heap.valueOf? i = some v :=
    hs.valueOf?_earlier hs₂ (Session.mem_holds_of_reference hr) hv
  have herased (v : Value Obj) (place : Nat) (hv : h'.valueOf? i = some v)
      (hplace : v.erasedPlace? (params.map h'.shownBy) = some place) :
      s.erasedPlace? r args = some place :=
    hs.erasedPlace?_later hadds₁ hpassed.passes (hs.valueIn? hs₂ hr hv) hplace
  refine hs₂.stands.onHeapThen (hact os h' i _ hr ht hs₂.stands.here hs₂.calm
    (hadds₁.trans hpassed.adds) hpassed.free hanswers hvalue
    (fun j hj w hw ↦ hs.follows_arguments hs₁ hadds₁ (hpassed.follows j hj w hw)) herased)
    (fun o ↦ ?_) fun o h₃ ⟨ha, hmatched⟩ ↦ ?_
  · obtain ⟨asked, result⟩ := o
    cases result with
    | ok v => exact (Session.frugal_deliverValue target v).bind fun d ↦ .pure _
    | error e => exact .pure _
  have hs₃ := hs₂.stands.withHeap ha
  obtain ⟨asked, result⟩ := o
  cases result with
  | ok v =>
    have hs₄ : (c.withOutside os).Stands zs' (v.holds ++ []) { s with heap := h₃ } := hs₃
    exact (hs₄.deliverValue (fun hreg ↦ hmatched hreg v rfl) target).andThen
      fun _ _ hset ↦ hset.plays _
  | error e => exact hs₃.settled.plays _

/-! ## Cursors -/

/-- A cursor that is made. -/
theorem Begins.newCursor (hs : c.Begins xs [] s) {r target bound : String}
    (haims : c.Aims (s.references.get? r).join) :
    c.Performs xs (Session.apply (.newCursor r target bound)) s := by
  rw [Session.apply]
  refine hs.onTarget haims fun i _ ht ↦ .of_ends ?_
  have hreference : Session.reference bound s = .ok (s.references.get? bound).join s := rfl
  refine Ends.after hreference ?_
  have hbound (j : HandleId) (hj : (s.references.get? bound).join = some j) :
      Hold.handle j ∈ c.outside :=
    hs.stands.mem_outside (Session.mem_holds_of_reference (Option.join_eq_some_iff.1 hj))
  refine hs.stands.onHeap (ht.newCursor? hs.stands.here hs.calm hbound) fun k h ha ↦ ?_
  cases k with
  | some k =>
    have hs₁ : c.Stands xs k.holds { s with heap := h } := by
      simpa using hs.stands.withHeap ha
    exact (hs₁.keepCursor target).thenPure _
  | none =>
    have hs₁ : c.Stands xs [] { s with heap := h } := hs.stands.withHeap ha
    exact hs₁.settled.plays _

/-- A cursor that is moved on. -/
theorem Begins.advance (hs : c.Begins xs [] s) {target bound : String} {into : Option String}
    (hf : c.Fits s (.advance target bound into)) :
    c.Performs xs (Session.apply (.advance target bound into)) s := by
  rw [Session.apply]
  refine Leads.after rfl ?_
  split
  · exact (hs.stands.settled.plays _).performs
  · rename_i k hk
    have hheld (x : Hold) (hx : x ∈ k.holds) : x ∈ c.outside :=
      hs.stands.mem_outside (Session.mem_holds_of_cursor hk x hx)
    have hbound (j : HandleId) (hj : k.bound = some j) :
        c.Target j ∧ ¬ c.reads ∧ ∀ l, ¬ c.tied j l := by
      have htarget : s.target? (.advance target bound into) = some j := by
        rw [Session.target?, hk]
        exact hj
      refine ⟨⟨hheld _ ?_, hf.target j htarget, fun j' l ht ↦ ?_⟩, hf.reads,
        fun l ht ↦ (hf.retains j l ht).stays⟩
      · refine List.mem_map.2 ⟨j, List.mem_append_right _ ?_, rfl⟩
        exact Option.mem_toList.2 hj
      · exact Option.some.inj ((hf.only j' l ht).symm.trans htarget)
    refine hs.stands.onHeapThen (hs.stands.here.advance hs.calm hheld hbound) (fun r ↦ ?_)
      fun r h ⟨ha, hholds⟩ ↦ ?_
    · refine Frugal.bind (fun _ ↦ not_exhausts_of_ok rfl) fun _ ↦
        (Session.frugal_holding _ ?_).bind fun p ↦ ?_
      · exact (Session.frugal_writtenReference r.1).bind fun _ ↦
          (Session.frugal_reference bound).bind fun i ↦
            (Session.frugal_writtenReference i).bind fun _ ↦ .pure _
      · obtain ⟨contents, loopVariable⟩ := p
        dsimp only
        split
        · exact fun _ ↦ not_exhausts_of_ok rfl
        · exact fun _ ↦ not_exhausts_of_ok rfl
    obtain ⟨e, k'⟩ := r
    have ha' : c.At [] (referenceHolds e) h := by
      simpa [referenceHolds] using ha
    have hs₁ : c.Stands xs (referenceHolds e)
        { s with heap := h, cursors := s.cursors.insert target k' } := by
      refine ⟨ha', hs.stands.outside.trans (List.perm_iff_count.2 fun x ↦ ?_), hs.stands.values⟩
      -- the cursor holds what it held before
      have hx := (s.holds_insertCursor target k').count_eq x
      have hkx : k'.holds.count x = k.holds.count x := congrArg (List.count x) hholds
      rw [hk] at hx
      simp only [Session.holds, List.count_append, Option.map_some, Option.getD_some] at hx ⊢
      omega
    refine Ends.after rfl ?_
    refine hs₁.lookingOn ?_ fun r ↦ ?_
    · refine (Looking.writtenReference hs₁.here.sound fun y hy ↦ hs₁.isSome (.inl hy)).bind
        fun _ ↦ Ends.after rfl ?_
      refine (Looking.writtenReference hs₁.here.sound fun y hy ↦ ?_).bind fun _ ↦ .pure _
      exact hs₁.isSome (.inr (Session.mem_holds_of_join hy))
    obtain ⟨contents, loopVariable⟩ := r
    dsimp only
    split
    · exact (hs₁.keepReference _).thenPure _
    · exact hs₁.letGo.thenPure _

/-! ## Filling registers -/

section
variable {r target : String} {v : Operand Obj}

theorem Begins.bind (hs : c.Begins xs [] s) (hv : c.Suits s v) :
    c.Performs xs (Session.apply (.bind r v)) s :=
  hs.operandCopy hv fun _ _ _ hs₁ hm _ _ ↦
    (hs₁.keepNew (hs₁.stands.here.bindNew hm) fun _ _ hh ↦ hh.1).performs

theorem Begins.uninit (hs : c.Begins xs [] s) : c.Plays xs (Session.apply (.uninit r)) s :=
  hs.keepNew hs.stands.here.newUninit fun _ _ hh ↦ hh.1

theorem Begins.null (hs : c.Begins xs [] s) : c.Plays xs (Session.apply (.null r)) s := by
  have hs₁ : c.Stands xs (referenceHolds none) s := hs.stands
  exact (hs₁.keepReference r).thenPure _

theorem Begins.share (hs : c.Begins xs [] s) (source : String) :
    c.Performs xs (Session.apply (.alias r source)) s := by
  refine hs.shareReference fun i h _ hs₁ _ ↦ ?_
  have hs₂ : c.Stands xs (referenceHolds i) { s with heap := h } := by
    simpa using hs₁.stands
  exact ((hs₂.keepReference r).thenPure _).performs

theorem Begins.duplicate (hs : c.Begins xs [] s) (source : String) :
    c.Plays xs (Session.apply (.duplicate r source)) s := by
  have hreference : Session.reference source s = .ok (s.references.get? source).join s := rfl
  refine Ends.after hreference ?_
  cases hi : (s.references.get? source).join with
  | none =>
    have hs₁ : c.Stands xs (referenceHolds none) s := hs.stands
    exact Ends.after rfl ((hs₁.keepReference r).thenPure _)
  | some i =>
    have hthere := hs.isSome (Session.mem_holds_of_reference (Option.join_eq_some_iff.1 hi))
    have hmap : Ends ((some i).mapM fun i ↦ Session.onHeap (Heap.duplicate i)) s
        (fun r t ↦ c.Stands xs (referenceHolds r) t) (c.Fails xs) := by
      refine (hs.stands.runs_onHeap (hs.stands.here.duplicate hthere)).bind ?_
      rintro j _ ⟨h, rfl, ha, -⟩
      exact .pure (hs.stands.withHeap ha.settle)
    exact hmap.bind fun j t ht ↦ (ht.keepReference r).thenPure _

/-- The block of a variable that is looked at. -/
theorem Begins.takeBlock {α : Type} {f : BlockId → SessionM Obj α} (hs : c.Begins xs [] s)
    (hstrays : (s.references.get? r).join = none → c.strays)
    (hf : ∀ b h, c.Stands xs [.block b] { s with heap := h } →
      c.Plays xs (f b) { s with heap := h }) :
    c.Performs xs (do f (← Session.onHeap (Heap.snapshot (← Session.deref r)))) s := by
  refine hs.stands.deref hstrays fun i hr ↦ .of_ends ?_
  have hthere := hs.isSome (Session.mem_holds_of_reference hr)
  refine hs.stands.onHeapRuns (hs.stands.here.snapshot hthere) fun b h ⟨ha, _⟩ ↦ ?_
  exact hf b h (hs.stands.withHeap ha)

theorem Begins.snapshot (hs : c.Begins xs [] s) (hf : c.Fits s (.snapshot r target)) :
    c.Performs xs (Session.apply (.snapshot r target)) s := by
  refine hs.takeBlock (fun hnone ↦ hf.strays ⟨r, List.mem_append_right _
    (List.mem_singleton_self r), hnone⟩) fun b h hs₁ ↦ ?_
  have hs₂ : c.Stands xs (Stored.snapshot b : Stored Obj).holds { s with heap := h } := hs₁
  exact (hs₂.keepValue (fun _ v he ↦ by cases he) target).thenPure _

theorem Begins.blockOf (hs : c.Begins xs [] s) (hf : c.Fits s (.blockOf r target)) :
    c.Performs xs (Session.apply (.blockOf r target)) s :=
  hs.takeBlock (fun hnone ↦ hf.strays ⟨r, List.mem_append_right _ (List.mem_singleton_self r),
    hnone⟩) fun _ _ hs₁ ↦ (hs₁.keepBlock target).thenPure _

theorem Begins.copy (hs : c.Begins xs [] s) (hv : c.Suits s v) :
    c.Performs xs (Session.apply (.copy v target)) s := by
  refine hs.operandCopy hv fun w h _ hs₁ hm _ _ ↦ .of_ends ?_
  have hs₂ : c.Stands xs (Stored.own w).holds { s with heap := h } := by
    simpa [Stored.holds] using hs₁.stands
  refine (hs₂.keepValue (fun hr w' he ↦ ?_) target).thenPure _
  cases he
  exact hm hr

theorem Begins.copyInto (hs : c.Begins xs [] s) (hv : c.Suits s v) :
    c.Performs xs (Session.apply (.copyInto target v)) s := by
  rw [Session.apply]
  refine hs.withOperand hv fun w zs h _ _ hs₁ hw hm _ _ ↦ .of_ends (Ends.after rfl ?_)
  split
  · split
    · have hcopy := hs₁.stands.here.copy (hs₁.stands.here.isSome_of_given hw)
      refine hs₁.stands.onHeapRuns hcopy fun w' h₁ ⟨hw', ha₁, hg₁⟩ ↦ ?_
      subst hw'
      have hs₂ : (c.withOutside (zs ++ c.outside)).Stands (zs ++ xs) (Stored.own w').holds
          { s with heap := h₁ } := by
        simpa [Stored.holds] using hs₁.stands.withHeap ha₁
      refine (hs₂.keepValue (fun hr v he ↦ ?_) target).thenPure _
      cases he
      exact hg₁.matched (hm hr)
    · exact hs₁.stands.settled.plays _
  · exact hs₁.stands.settled.plays _

theorem Begins.incrementValue (hs : c.Begins xs [] s) :
    c.Plays xs (Session.apply (.incrementValue target)) s := by
  refine Ends.after rfl ?_
  split
  · rename_i w hw
    have hs₁ : c.Stands xs [] { s with values := s.values.insert target (.own w.increment) } := by
      refine ⟨hs.stands.here, hs.stands.outside.trans (.append_left _ ?_), fun hr v hv ↦ ?_⟩
      · have hholds : w.increment.holds = w.holds := by
          cases w <;> rfl
        refine List.perm_iff_count.2 fun x ↦ ?_
        have hx := (s.holds_insertValue target (.own w.increment)).count_eq x
        rw [hw] at hx
        simp only [List.count_append, Option.map_some, Option.getD_some, Stored.holds,
          hholds] at hx
        omega
      · rcases List.mem_cons.1 hv with he | hv
        · cases he
          have hm := hs.stands.values hr w (Registers.mem_contents_of_get? hw)
          cases w with
          | scalar s => exact Heap.matched_scalar _
          | array l => exact hm
          | struct names l => exact hm
        · exact hs.stands.values hr v (Registers.mem_contents_of_erase hv)
    exact Ends.after rfl (hs₁.settled.plays _)
  · exact hs.stands.settled.plays _

theorem Begins.allocate (hs : c.Begins xs [] s) (hv : c.Suits s v) :
    c.Performs xs (Session.apply (.allocate v target)) s := by
  refine hs.operandCopy hv fun w h _ hs₁ hm _ _ ↦ .of_ends ?_
  refine hs₁.stands.onHeap (hs₁.stands.here.place hm) fun b h₁ ⟨ha₁, _⟩ ↦ ?_
  exact ((hs₁.stands.withHeap ha₁).keepBlock target).thenPure _

theorem Begins.blank (hs : c.Begins xs [] s) :
    c.Plays xs (Session.apply (.blank target)) s := by
  refine hs.stands.onHeap hs.stands.here.blankBlock fun b h₁ ⟨ha₁, _⟩ ↦ ?_
  exact ((hs.stands.withHeap ha₁).keepBlock target).thenPure _

end

/-! ## Emptying registers -/

section
variable {name : String}

/-- A register that is emptied. -/
theorem Stands.empty {t : Session Obj} {old : List Hold} (hs : c.Stands xs [] s)
    (hheap : t.heap = s.heap) (hp : s.holds.Perm (old ++ t.holds))
    (hvalues : ∀ x ∈ t.values.contents, x ∈ s.values.contents) :
    c.Plays xs (Session.letGo old) t :=
  hs.exchange hheap hp fun hr _ hv ↦ hs.matched hr (hvalues _ hv)

theorem Begins.drop (hs : c.Begins xs [] s) : c.Plays xs (Session.apply (.drop name)) s := by
  refine Ends.after rfl ?_
  split
  · rename_i old hold
    have hp := s.holds_references name
    rw [hold] at hp
    have hempty := hs.stands.empty (t := { s with references := s.references.erase name }) rfl hp
      fun _ hv ↦ hv
    exact Ends.after rfl (hempty.thenPure _)
  · exact hs.stands.settled.plays _

theorem Begins.dropValue (hs : c.Begins xs [] s) :
    c.Plays xs (Session.apply (.dropValue name)) s := by
  refine Ends.after rfl ?_
  split
  · rename_i old hold
    have hp := s.holds_values name
    rw [hold] at hp
    have hempty := hs.stands.empty (t := { s with values := s.values.erase name }) rfl hp
      fun _ hv ↦ Registers.mem_contents_of_erase hv
    exact Ends.after rfl (hempty.thenPure _)
  · exact hs.stands.settled.plays _

theorem Begins.dropBlock (hs : c.Begins xs [] s) :
    c.Plays xs (Session.apply (.dropBlock name)) s := by
  refine Ends.after rfl ?_
  split
  · rename_i old hold
    have hp := s.holds_blocks name
    rw [hold] at hp
    have hempty := hs.stands.empty (t := { s with blocks := s.blocks.erase name }) rfl hp
      fun _ hv ↦ hv
    exact Ends.after rfl (hempty.thenPure _)
  · exact hs.stands.settled.plays _

theorem Begins.dropCursor (hs : c.Begins xs [] s) :
    c.Plays xs (Session.apply (.dropCursor name)) s := by
  refine Ends.after rfl ?_
  split
  · rename_i old hold
    have hp := s.holds_cursors name
    rw [hold] at hp
    have hempty := hs.stands.empty (t := { s with cursors := s.cursors.erase name }) rfl hp
      fun _ hv ↦ hv
    exact Ends.after rfl (hempty.thenPure _)
  · exact hs.stands.settled.plays _

theorem Begins.dropAll (hs : c.Begins xs [] s) : c.Plays xs (Session.apply .dropAll) s := by
  have hperm : s.holds.Perm (s.holds ++ []) := .of_eq (List.append_nil _).symm
  have hempty := hs.stands.empty
    (t := { s with references := .empty, values := .empty, blocks := .empty, cursors := .empty })
    rfl hperm fun _ hv ↦ absurd hv List.not_mem_nil
  have hdrop : c.Plays xs Session.dropAll s := Ends.after rfl (Ends.after rfl hempty)
  exact hdrop.thenPure _

end

/-! ## Looking -/

section

/-- Looking at an operand. -/
theorem Begins.lookAt {act : Value Obj → SessionM Obj (Answer Obj)} (hs : c.Begins xs [] s)
    {v : Operand Obj} (hv : c.Suits s v)
    (hact : ∀ v (t : Session Obj) zs, t.heap.Sound zs →
      (∀ y ∈ v.holds, (t.heap.content? y).isSome) → Looking (act v) t) :
    c.Performs xs (Session.withOperand v act) s :=
  hs.withOperand hv fun v _ _ _ _ hs₁ hgiven _ _ _ ↦ .of_ends
    ((hact v _ _ hs₁.stands.here.sound (hs₁.stands.here.isSome_of_given hgiven)).plays hs₁.stands)

/-- Looking at two operands. -/
theorem Begins.lookAtBoth {act : Value Obj → Value Obj → SessionM Obj (Answer Obj)}
    (hs : c.Begins xs [] s) {v w : Operand Obj} (hv : c.Suits s v) (hw : c.Suits s w)
    (hact : ∀ v w t, Looking (act v w) t) : c.Performs xs (Session.withOperands v w act) s :=
  hs.withOperands hv hw fun v w _ _ _ hs₁ _ _ _ ↦ ((hact v w _).plays hs₁.stands).performs

theorem Begins.display (hs : c.Begins xs [] s) {v : Operand Obj} (hv : c.Suits s v) :
    c.Performs xs (Session.apply (.display v)) s := by
  rw [Session.apply]
  refine hs.lookAt hv fun v t zs hsound hthere ↦ (Looking.written hsound hthere).bind fun _ ↦ ?_
  exact Looking.get.bind fun _ ↦ .pure _

theorem Begins.compare (hs : c.Begins xs [] s) {v w : Operand Obj} (hv : c.Suits s v)
    (hw : c.Suits s w) : c.Performs xs (Session.apply (.compare v w)) s := by
  rw [Session.apply]
  exact hs.lookAtBoth hv hw fun v w t ↦ Looking.get.bind fun _ ↦ .pure _

theorem Begins.contains (hs : c.Begins xs [] s) {v w : Operand Obj} (hv : c.Suits s v)
    (hw : c.Suits s w) : c.Performs xs (Session.apply (.contains v w)) s := by
  rw [Session.apply]
  exact hs.lookAtBoth hv hw fun v w t ↦ Looking.get.bind fun _ ↦ .pure _

theorem Begins.pack (hs : c.Begins xs [] s) {v : Operand Obj} (hv : c.Suits s v) :
    c.Performs xs (Session.apply (.pack v)) s := by
  rw [Session.apply]
  refine hs.lookAt hv fun v t zs hsound hthere ↦ (Looking.written hsound hthere).bind fun d ↦ ?_
  cases d.pack with
  | ok bytes => exact .pure _
  | error e => exact .pure _

theorem Begins.info (hs : c.Begins xs [] s) {r : String} (hf : c.Fits s (.info r)) :
    c.Performs xs (Session.apply (.info r)) s := by
  refine hs.stands.deref (fun hnone ↦ hf.strays ⟨r, List.mem_append_right _
    (List.mem_singleton_self r), hnone⟩) fun i hr ↦ .of_ends (Looking.plays ?_ hs.stands)
  have hi := hs.isSome (Session.mem_holds_of_reference hr)
  refine Looking.read hs.stands.here.sound hi fun v _ ↦ ?_
  obtain ⟨k, hk⟩ := Option.isSome_iff_exists.1 hi
  obtain ⟨n, hn⟩ := Heap.exists_cell?_of_content? hk
  obtain ⟨cell, hcell, -⟩ := Option.map_eq_some_iff.1 hn
  exact .found hcell (.pure _)

theorem Begins.hasMember (hs : c.Begins xs [] s) {r name : String}
    (hf : c.Fits s (.hasMember r name)) : c.Performs xs (Session.apply (.hasMember r name)) s := by
  refine hs.onTarget (hf.aims rfl) fun i hr _ ↦ .of_ends (Looking.plays ?_ hs.stands)
  have hi := hs.isSome (Session.mem_holds_of_reference hr)
  refine Looking.read hs.stands.here.sound hi fun v _ ↦ ?_
  refine (Looking.written hs.stands.here.sound fun y hy ↦ ?_).bind fun _ ↦ .pure _
  exact absurd hy List.not_mem_nil

omit [HostObject Obj] in
theorem Looking.getThen {α : Type} {f : Session Obj → SessionM Obj α} (hf : Looking (f s) s) :
    Looking (MonadState.get >>= f) s :=
  Ends.after rfl hf

theorem looking_same (r other : String) : Looking (Session.apply (.same r other)) s :=
  (Looking.reference r).bind fun _ ↦ (Looking.reference other).bind fun _ ↦ .pure _

theorem Begins.looking_displayBlock (hs : c.Begins xs [] s) (target : String) :
    Looking (Session.apply (.displayBlock target)) s := by
  refine Looking.getThen ?_
  cases hb : s.blocks.get? target with
  | some b =>
    obtain ⟨k, hk⟩ := Option.isSome_iff_exists.1 (hs.isSome (Session.mem_holds_of_block hb))
    obtain ⟨n, hn⟩ := Heap.exists_cell?_of_content? hk
    obtain ⟨nv, hnv, -⟩ := Option.map_eq_some_iff.1 hn
    have hvalue : s.heap.valueAt? b = some nv.2 := by
      rw [Heap.valueAt?, hnv, Option.map_some]
    have hsound := hs.stands.here.sound
    refine .found hnv ((Looking.written hsound ?_).bind fun _ ↦ .pure _)
    exact hsound.isSome_of_value hvalue
  | none => exact .pure _

theorem looking_sameBlock (target other : String) :
    Looking (Session.apply (.sameBlock target other)) s := by
  refine Looking.getThen (Looking.getThen ?_)
  cases s.blocks.get? target with
  | none => exact .pure _
  | some b =>
    cases s.blocks.get? other with
    | none => exact .pure _
    | some b' => exact .pure _

theorem looking_instances : Looking (Session.apply .instances) s := by
  refine Looking.getThen ?_
  cases s.heap.registry with
  | none => exact .pure _
  | some r => exact .pure _

theorem looking_poolStats (kind : Kind) : Looking (Session.apply (.poolStats kind)) s :=
  Looking.getThen (.pure _)

theorem looking_memberName (number : Nat) : Looking (Session.apply (.memberName number)) s :=
  Looking.getThen (.pure _)

end

/-! ## Results of operations that only read -/

section
variable {r : String} {into : Option String}

theorem Begins.operate (hs : c.Begins xs [] s) (op : Operator) {v w : Operand Obj}
    (hv : c.Suits s v) (hw : c.Suits s w) :
    c.Performs xs (Session.apply (.operate op v w into)) s := by
  rw [Session.apply]
  refine hs.withOperands hv hw fun v w os zs h hs₁ hv hw hm ↦ ?_
  refine .of_ends (hs₁.stands.onHeap
    (hs₁.stands.here.operate (hs₁.stands.here.count_pos hv) hw hm) fun u h₁ ⟨ha₁, _, hm₁⟩ ↦ ?_)
  exact ((hs₁.stands.withHeap ha₁).deliverValue hm₁ into).andThen fun _ _ ht ↦ ht.plays _

theorem Begins.getMember (hs : c.Begins xs [] s) {name : String}
    (hf : c.Fits s (.getMember r name into)) :
    c.Performs xs (Session.apply (.getMember r name into)) s :=
  hs.onTarget (hf.aims rfl) fun _ _ ht ↦
    hs.deliverResult (.of_ends ((ht.getMember? hs.stands.here hs.calm name).mono
      (fun _ _ hh ↦ hh.1) fun _ _ hf ↦ hf)) into

theorem Begins.getMemberById (hs : c.Begins xs [] s) {number : Nat}
    (hf : c.Fits s (.getMemberById r number into)) :
    c.Performs xs (Session.apply (.getMemberById r number into)) s :=
  hs.onTarget (hf.aims rfl) fun _ _ ht ↦
    hs.deliverResult (.of_ends ((ht.getMemberById? hs.stands.here hs.calm number).mono
      (fun _ _ hh ↦ hh.1) fun _ _ hf ↦ hf)) into

theorem Begins.subscript (hs : c.Begins xs [] s) {index : Operand Obj}
    (hf : c.Fits s (.subscript r index into)) :
    c.Performs xs (Session.apply (.subscript r index into)) s := by
  rw [Session.apply]
  exact hs.withOperandOn (hf.suits (List.mem_singleton_self index)) (hf.aims rfl)
    fun w zs h i _ _ _ hs₁ _ _ ht _ _ ↦
      hs₁.deliverElement (.of_ends (ht.subscript hs₁.stands.here hs₁.calm w)) into

end

/-! ## Writes -/

section
variable {r : String}

theorem Begins.assign (hs : c.Begins xs [] s) {v : Operand Obj} (hf : c.Fits s (.assign r v)) :
    c.Performs xs (Session.apply (.assign r v)) s := by
  rw [Session.apply]
  refine hs.withOperandOn (hf.suits (List.mem_singleton_self v)) (hf.aims rfl)
    fun w zs h i _ _ hr hs₁ hw hm ht _ hfollows ↦ hs₁.changing ?_ _
  exact (hs₁.stands.here.assign (hs₁.stands.here.isSome_of_given hw) hm (ht.mem [])
    (hs₁.calm.fullAt i) hf.reads (hf.clears _ rfl hr hfollows)
    fun l htied ↦ (hf.retains i l htied).stays).mono
      (fun _ _ hset ↦ hset (ht.free h)) fun _ _ he ↦ he

/-- A reference that is followed while a value is held. -/
theorem Begins.holdingOn {α : Type} {v : Value Obj} {h : Heap Obj} {f : HandleId → SessionM Obj α}
    (hs : c.Begins xs (v.holds ++ []) { s with heap := h })
    (haims : c.Aims (s.references.get? r).join)
    (hf : ∀ i, s.references.get? r = some (some i) → c.Target i →
      c.Performs xs (f i) { s with heap := h }) :
    c.Performs xs (Session.holding v.holds (Session.deref r) >>= f) { s with heap := h } := by
  have hs₁ : c.Stands xs v.holds { s with heap := h } := by
    simpa using hs.stands
  refine hs₁.leadsHolding ((Session.ends_deref r _).mono (fun i t ht ↦ ht) ?_) fun i hr ↦ ?_
  · exact fun fault t ⟨ht, hfault, hnone⟩ ↦ ⟨ht, .inr (.inr ⟨hfault, haims.strays hnone⟩)⟩
  · exact hf i hr (hs.stands.target hr (Option.join_eq_some_iff.2 hr ▸ haims))

theorem Begins.setValue (hs : c.Begins xs [] s) {v : Operand Obj} (hf : c.Fits s (.setValue r v)) :
    c.Performs xs (Session.apply (.setValue r v)) s := by
  refine hs.operandCopy (hf.suits (List.mem_singleton_self v)) fun v h _ hs₁ hm _ hfollows ↦ ?_
  refine hs₁.holdingOn (hf.aims rfl) fun i hr ht ↦ hs₁.changing ?_ _
  exact (hs₁.stands.here.setValue hm (ht.mem []) (hs₁.calm.fullAt i) hf.reads
    (hf.clears c.outside rfl hr hfollows) fun l htied ↦ (hf.retains i l htied).stays).mono
      (fun _ _ hset ↦ hset (ht.free h)) fun _ _ he ↦ he

theorem Begins.overwrite (hs : c.Begins xs [] s) {v : Operand Obj}
    (hf : c.Fits s (.overwrite r v)) : c.Performs xs (Session.apply (.overwrite r v)) s := by
  refine hs.operandCopy (hf.suits (List.mem_singleton_self v))
    fun w h hadds hs₁ hm hoffers hfollows ↦ ?_
  refine hs₁.holdingOn (hf.aims rfl) fun i hr ht ↦ hs₁.changing ?_ _
  obtain ⟨old, hold⟩ := ht.exists_value hs.stands.here
  have hset (hone : c.single) : w ≠ .uninit := by
    rintro rfl
    rcases hoffers with hw | ⟨-, hlist⟩
    · exact (hf.valued hone).leaves r v rfl hw
    · cases hlist
  exact hs₁.stands.here.overwrite hs₁.calm hm (ht.mem []) (ht.free h) hf.reads
    (hf.clears c.outside rfl hr hfollows) (fun l htied ↦ (hf.retains i l htied).stays)
    (hadds.valueOf? hs.stands.here.sound hold)
    fun hone ↦ ⟨hset hone, hf.ne_uninit rfl rfl hr hold hone⟩

theorem Begins.increment (hs : c.Begins xs [] s) (hf : c.Fits s (.increment r)) :
    c.Performs xs (Session.apply (.increment r)) s := by
  refine hs.onTarget (hf.aims rfl) fun i _ ht ↦ hs.changing ?_ _
  exact hs.stands.here.increment hs.calm (ht.mem []) (ht.free _) hf.reads

theorem Begins.operateInPlace (hs : c.Begins xs [] s) {op : Operator} {v : Operand Obj}
    (hf : c.Fits s (.operateInPlace op r v)) :
    c.Performs xs (Session.apply (.operateInPlace op r v)) s := by
  rw [Session.apply]
  refine hs.withOperandOn (hf.suits (List.mem_singleton_self v)) (hf.aims rfl)
    fun w zs h i _ hadds hr hs₁ hw hm ht hoffers hfollows ↦ hs₁.changing ?_ _
  refine hs₁.stands.here.operateInPlace hs₁.calm ht.held ht.blocked ht.only hf.reads hw hm
    (hf.clears _ rfl hr hfollows) fun happends l htied ↦ happends ?_
  obtain ⟨hop, ⟨m, hm⟩, herror⟩ := (hf.retains i l htied).stays
  refine ⟨hop, ?_, m, hadds.valueOf? hs.stands.here.sound hm⟩
  rcases hoffers with hw | ⟨-, hlist⟩
  · exact herror w hw
  · cases w with
    | scalar x => cases hlist
    | array l => rfl
    | struct names l => rfl

theorem Begins.removeMember (hs : c.Begins xs [] s) {name : String}
    (hf : c.Fits s (.removeMember r name)) :
    c.Performs xs (Session.apply (.removeMember r name)) s := by
  refine hs.onTarget (hf.aims rfl) fun i hr ht ↦ ?_
  have hyields (u : Value Obj) (place : Nat) (hu : s.heap.valueOf? i = some u)
      (hplace : memberIndex? u.names name = some place) : c.Yields s.heap place := by
    refine hf.yields place ?_
    rw [Session.takenPlace?, Session.memberPlace?, Session.valueIn?, hr]
    rw [Option.join_some, Option.bind_some, hu]
    exact hplace
  refine hs.stands.onHeapThen (ht.removeMember hs.stands.here hs.calm name hf.reads hyields)
    (fun v ↦ (Session.frugal_deliverValue none v).bind fun _ ↦ .pure _) fun v h hremoved ↦ ?_
  obtain ⟨hv, ha⟩ := hremoved
  have hs₁ : c.Stands xs (v.holds ++ []) { s with heap := h } := by
    rw [hv]
    exact hs.stands.withHeap ha
  exact (hs₁.deliverValue (fun _ ↦ Heap.matched_of_holds hv) none).andThen
    fun _ _ ht ↦ ht.plays _

theorem Begins.addMember (hs : c.Begins xs [] s) {name : String} {into : Option String}
    (hf : c.Fits s (.addMember r name into)) :
    c.Performs xs (Session.apply (.addMember r name into)) s := by
  refine hs.onTarget (hf.aims rfl) fun i hr ht ↦ ?_
  obtain ⟨v, hv⟩ := ht.exists_value hs.stands.here
  exact hs.deliverElement (ht.addMember hs.stands.here hs.calm name hf.reads hv
    (hf.ne_uninit rfl rfl hr hv)) into

theorem Begins.memberNumber (hs : c.Begins xs [] s) (name : String) :
    c.Plays xs (Session.apply (.memberNumber name)) s :=
  hs.stands.onHeapRuns (hs.stands.here.memberNumber name) fun _ _ ha ↦
    (hs.stands.withHeap ha).settled.plays _

end

/-! ## All steps -/

/-- The operands among the arguments of a call. -/
theorem Fits.suits_argument {x : Step Obj} (hf : c.Fits s x) {args : List (Argument Obj)}
    (hargs : x.operands = args.filterMap Argument.operand?) (v : Operand Obj)
    (hv : .operand v ∈ args) : c.Suits s v := by
  refine hf.suits ?_
  rw [hargs]
  exact List.mem_filterMap.2 ⟨.operand v, hv, rfl⟩

/-- The registers among the arguments of a call. -/
theorem Fits.loose_argument {x : Step Obj} (hf : c.Fits s x) {args : List (Argument Obj)}
    (hargs : x.sources = args.filterMap fun a ↦ a.source.followed?) (name : String)
    (hname : .reference name ∈ args) : c.Loose s name := by
  refine fun i hi l ht ↦ (hf.retains i l ht).sources name ?_ hi
  rw [hargs]
  exact List.mem_filterMap.2 ⟨.reference name, hname, rfl⟩

theorem Begins.call (hs : c.Begins xs [] s) {r name : String} {args : List (Argument Obj)}
    {answers : Option (List (Method × Datum Obj))} {target : Option String}
    (hf : c.Fits s (.call r name args answers target)) :
    c.Performs xs (Session.apply (.call r name args answers target)) s := by
  rw [Session.apply]
  refine hs.applyCall (hf.aims rfl) (hf.suits_argument rfl) (hf.loose_argument rfl)
    (fun hr ↦ (hf.orderly hr).answers)
    fun os h i caller hr ht ha hcalm hadds hparams hanswers hvalue hfollows herased ↦ ?_
  refine ht.callMethod ha hcalm name hparams hanswers
    (fun hread v hv ↦ hf.reads hread i v hr (hvalue v hv))
    (fun j hj w hw ↦ hf.clears _ rfl hr (hfollows j hj w hw)) fun hm v place hv hplace ↦ ?_
  refine hf.yields_later hs hadds ?_
  rw [Session.takenPlace?, if_pos hm]
  exact herased v place hv hplace

theorem Begins.callBuiltin (hs : c.Begins xs [] s) {r : String} {m : Method}
    {args : List (Argument Obj)} {force : Bool} {answers : Option (List (Method × Datum Obj))}
    {target : Option String} (hf : c.Fits s (.callBuiltin r m args force answers target)) :
    c.Performs xs (Session.apply (.callBuiltin r m args force answers target)) s := by
  rw [Session.apply]
  refine hs.applyCall (hf.aims rfl) (hf.suits_argument rfl) (hf.loose_argument rfl)
    (fun hr ↦ (hf.orderly hr).answers)
    fun os h i caller hr ht ha hcalm hadds hparams hanswers hvalue hfollows herased ↦ ?_
  refine ht.callBuiltin ha hcalm m force hparams hanswers
    (fun hread v hv ↦ hf.reads hread i v hr (hvalue v hv))
    (fun j hj w hw ↦ hf.clears _ rfl hr (hfollows j hj w hw)) fun hm v place hv hplace ↦ ?_
  refine hf.yields_later hs hadds ?_
  rw [Session.takenPlace?, if_pos hm]
  exact herased v place hv hplace

/-- **Every step leads to its end.** -/
theorem Begins.apply (hs : c.Begins xs [] s) {x : Step Obj} (hf : c.Fits s x) :
    c.Performs xs (Session.apply x) s := by
  have hone {v : Operand Obj} (hx : x.operands = [v]) : c.Suits s v := by
    refine hf.suits ?_
    rw [hx]
    exact List.mem_singleton_self v
  have htwo {v w : Operand Obj} (hx : x.operands = [v, w]) : c.Suits s v ∧ c.Suits s w := by
    refine ⟨hf.suits ?_, hf.suits ?_⟩
    · rw [hx]
      exact List.mem_cons_self
    · rw [hx]
      exact List.mem_cons_of_mem v (List.mem_singleton_self w)
  cases x with
  | bind r v => exact hs.bind (hone rfl)
  | uninit r => exact hs.uninit.performs
  | null r => exact hs.null.performs
  | «alias» r source => exact hs.share source
  | duplicate r source => exact (hs.duplicate source).performs
  | drop r => exact hs.drop.performs
  | dropAll => exact hs.dropAll.performs
  | same r other => exact ((looking_same r other).plays hs.stands).performs
  | info r => exact hs.info hf
  | snapshot r target => exact hs.snapshot hf
  | copy v target => exact hs.copy (hone rfl)
  | dropValue target => exact hs.dropValue.performs
  | display v => exact hs.display (hone rfl)
  | incrementValue target => exact hs.incrementValue.performs
  | copyInto target v => exact hs.copyInto (hone rfl)
  | compare left right => exact hs.compare (htwo rfl).1 (htwo rfl).2
  | contains v needle => exact hs.contains (htwo rfl).1 (htwo rfl).2
  | operate op left right target => exact hs.operate op (htwo rfl).1 (htwo rfl).2
  | pack v => exact hs.pack (hone rfl)
  | allocate v target => exact hs.allocate (hone rfl)
  | blank target => exact hs.blank.performs
  | blockOf r target => exact hs.blockOf hf
  | dropBlock target => exact hs.dropBlock.performs
  | displayBlock target => exact ((hs.looking_displayBlock target).plays hs.stands).performs
  | sameBlock target other => exact ((looking_sameBlock target other).plays hs.stands).performs
  | rebind r source => exact hs.rebind hf
  | newHandle r source => exact hs.newHandle.performs
  | poolStats kind => exact ((looking_poolStats kind).plays hs.stands).performs
  | instances => exact (looking_instances.plays hs.stands).performs
  | assign r v => exact hs.assign hf
  | setValue r v => exact hs.setValue hf
  | overwrite r v => exact hs.overwrite hf
  | increment r => exact hs.increment hf
  | operateInPlace op r v => exact hs.operateInPlace hf
  | getMember r name into => exact hs.getMember hf
  | addMember r name into => exact hs.addMember hf
  | setMember r name v keep into => exact hs.setMember hf
  | getMemberById r number into => exact hs.getMemberById hf
  | setMemberById r number v keep into => exact hs.setMemberById hf
  | memberNumber name => exact (hs.memberNumber name).performs
  | memberName number => exact ((looking_memberName number).plays hs.stands).performs
  | removeMember r name => exact hs.removeMember hf
  | hasMember r name => exact hs.hasMember hf
  | subscript r index into => exact hs.subscript hf
  | assignElement r index v keep into => exact hs.assignElement hf
  | elements r x into => exact hs.applyElements hf
  | call r name args answers target => exact hs.call hf
  | callBuiltin r method args force answers target => exact hs.callBuiltin hf
  | newCursor r target bound => exact hs.newCursor (hf.aims rfl)
  | advance target bound into => exact hs.advance hf
  | dropCursor target => exact hs.dropCursor.performs

@[inherit_doc Begins.apply]
theorem Begins.plays (hs : c.Begins xs [] s) {x : Step Obj} (hf : c.Fits s x) :
    c.Plays xs (Session.apply x) s :=
  hs.apply hf hf.unseen

end Scene
end ScriptHeap
