import ScriptHeap.Proofs.Session.Operands

/-!
# What a step works on

Most steps work on one variable, which they may change.  A step that sets a member or an element can
be asked to write to the handle that is there; then that handle changes, too.  All others only read.

## What is here

* `Step.operands`, `Step.answers`, `Step.followed` — what a step brings in, and the registers that
  it follows.
* `Session.target?` — the variable that a step works on.
* `Session.assigned?` — the element that a step writes to.
* `Session.Reads` — the steps that are not to change anything.
* `Session.Apart` — the steps that do not put into a variable what leads to it.
* `Session.Orderly` — the steps that leave a name for each element of a struct.
* `Session.takenPlace?`, `Session.Retains` — where a step takes an element out of the list of its
  variable, and the steps that leave the list to the variable otherwise.
* `Session.Valued` — the steps that do not take the block of variables without a value for one of
  them.
* `Scene.Fits` — a scene that is right for a step.
* `Scene.Begins.onTarget`, `Scene.Begins.withOperandOn` — an operation on the variable of a step.
-/

set_option autoImplicit false
namespace ScriptHeap

variable {Obj : Type} [HostObject Obj]

/-- The reference register with the variable that a step works on. -/
def Step.register? : Step Obj → Option String
  | .rebind r _ | .assign r _ | .setValue r _ | .overwrite r _ | .increment r
  | .operateInPlace _ r _ | .getMember r _ _ | .addMember r _ _ | .setMember r _ _ _ _
  | .getMemberById r _ _ | .setMemberById r _ _ _ _ | .removeMember r _ | .hasMember r _
  | .subscript r _ _ | .assignElement r _ _ _ _ | .elements r _ _ | .call r _ _ _ _
  | .callBuiltin r _ _ _ _ _ | .newCursor r _ _ => some r
  | _ => none

/-- The operands of a step on elements. -/
def ElementStep.operands : ElementStep Obj → List (Operand Obj)
  | .positionOf v | .extend v => [v]
  | _ => []

/-- The operand in an argument. -/
def Argument.operand? : Argument Obj → Option (Operand Obj)
  | .operand x => some x
  | .reference _ => none

/-- The operands of a step. -/
def Step.operands : Step Obj → List (Operand Obj)
  | .bind _ v | .copy v _ | .display v | .copyInto _ v | .pack v | .allocate v _ | .assign _ v
  | .setValue _ v | .overwrite _ v | .operateInPlace _ _ v | .setMember _ _ v _ _
  | .setMemberById _ _ v _ _ | .subscript _ v _ | .assignElement _ _ v _ _ => [v]
  | .compare v w | .contains v w | .operate _ v w _ => [v, w]
  | .elements _ x _ => x.operands
  | .call _ _ args _ _ | .callBuiltin _ _ args _ _ _ => args.filterMap Argument.operand?
  | _ => []

/-- The answers of the script that come with a step. -/
def Step.answers : Step Obj → List (Datum Obj)
  | .call _ _ _ answers _ | .callBuiltin _ _ _ _ answers _ => (answers.getD []).map (·.2)
  | _ => []

/-- The reference registers that a step has values from. -/
def Step.sources : Step Obj → List String
  | .call _ _ args _ _ | .callBuiltin _ _ args _ _ _ =>
    args.filterMap fun a ↦ a.source.followed?
  | x => x.operands.filterMap Operand.followed?

/-- The reference registers that a step follows. -/
def Step.followed (x : Step Obj) : List String :=
  x.register?.toList ++ x.operands.filterMap Operand.followed? ++
    match x with
    | .snapshot r _ | .blockOf r _ | .info r => [r]
    | _ => []

/-- Whether a step on elements only looks at the container. -/
def ElementStep.reads : ElementStep Obj → Bool
  | .extend _ | .rotate | .remove _ => false
  | _ => true

/-- Whether a step on elements makes the block of its variable the variable's own whatever it holds.
-/
def ElementStep.detaches : ElementStep Obj → Bool
  | .ownPosition _ | .ownMember _ | .renew | .extend _ | .rotate | .remove _ => true
  | _ => false

/-- Whether a step makes the block of its variable the variable's own whatever it holds. -/
def Step.detaches : Step Obj → Bool
  | .overwrite _ _ | .addMember _ _ _ => true
  | .elements _ x _ => x.detaches
  | _ => false

namespace Session

/-- The variable that a step works on.  A cursor writes to its loop variable. -/
def target? (s : Session Obj) : Step Obj → Option HandleId
  | .advance target _ _ => (s.cursors.get? target).bind Cursor.bound
  | x => x.register?.bind fun r ↦ (s.references.get? r).join

/-- The result of an operation. -/
def result? {α : Type} (s : Session Obj) (act : SessionM Obj α) : Option α :=
  match act s with
  | .ok a _ => some a
  | .error _ _ => none

omit [HostObject Obj] in
theorem result?_of_ok {α : Type} {s t : Session Obj} {act : SessionM Obj α} {a : α}
    (h : act s = .ok a t) : s.result? act = some a := by
  rw [result?, h]

/-- The element that a step writes to: the reference that it gives back when it is asked to keep the
handle that is there. -/
def assigned? (s : Session Obj) : Step Obj → Option HandleId
  | .setMember r name v true _ =>
    (s.result? do
      let (v, _) ← operandValue v
      onHeap (Heap.setMember? (← deref r) name v true)).join
  | .setMemberById r number v true _ =>
    (s.result? do
      let (v, _) ← operandValue v
      onHeap (Heap.setMemberById? (← deref r) number v true)).join
  | .assignElement r index v true _ =>
    s.result? do
      let (v, _) ← operandValue v
      onHeap (Heap.assignElement (← deref r) index v true)
  | _ => none

/-- The steps that only read.  A method is taken at its word. -/
def Reads (s : Session Obj) : Step Obj → Prop
  | .rebind _ _ | .assign _ _ | .setValue _ _ | .overwrite _ _ | .increment _
  | .operateInPlace _ _ _ | .addMember _ _ _ | .setMember _ _ _ _ _ | .setMemberById _ _ _ _ _
  | .removeMember _ _ | .assignElement _ _ _ _ _ | .advance _ _ _ => False
  | .elements _ x _ => x.reads = true
  | .call r name _ _ _ =>
    ∀ i v, s.references.get? r = some (some i) → s.heap.valueOf? i = some v → v.UnchangedBy name
  | .callBuiltin r m _ _ _ _ =>
    ∀ i v, s.references.get? r = some (some i) → s.heap.valueOf? i = some v → v.UnchangedBy m.name
  | _ => True

/-- The holds of what a step puts into its variable. -/
def brought (s : Session Obj) : Step Obj → List Hold
  | .assign _ v | .setValue _ v | .overwrite _ v | .operateInPlace _ _ v | .setMember _ _ v _ _
  | .setMemberById _ _ v _ _ | .assignElement _ _ v _ _ | .elements _ (.extend v) _ => s.brings v
  | .call _ _ args _ _ | .callBuiltin _ _ args _ _ _ => args.flatMap fun a ↦ s.brings a.source
  | .rebind _ source => (s.blocks.get? source).toList.map .block
  | _ => []

/-- What a step puts into its variable does not lead to that variable. -/
def Apart (s : Session Obj) (x : Step Obj) : Prop :=
  ∀ i, s.target? x = some i → ∀ y ∈ s.brought x, ¬ s.heap.Reaches y (.handle i)

/-- A step that brings no elements without names into structs: the data that come with it name all
elements, and if it puts copies of elements into a container, that one is no struct. -/
structure Orderly (s : Session Obj) (x : Step Obj) : Prop where
  operands : ∀ v ∈ x.operands, v.Named
  answers : ∀ d ∈ x.answers, d.Named
  extends_array : ∀ r v into, x = .elements r (.extend v) into → ∀ i,
    s.references.get? r = some (some i) → ∀ names l, s.heap.valueOf? i ≠ some (.struct names l)

/-- A step that makes the block of its variable the variable's own without a look at what it holds
finds a value there, and if it puts another one into it, that is a value, too. -/
structure Valued (s : Session Obj) (x : Step Obj) : Prop where
  finds : x.detaches = true → ∀ i, s.target? x = some i → s.heap.valueOf? i ≠ some .uninit
  leaves : ∀ r v, x = .overwrite r v → s.offered? v ≠ some .uninit

/-- The value of the variable in a register. -/
def valueIn? (s : Session Obj) (r : String) : Option (Value Obj) :=
  (s.references.get? r).join.bind s.heap.valueOf?

/-- The place that a call of `erase` names in a variable. -/
def erasedPlace? (s : Session Obj) (r : String) (args : List (Argument Obj)) : Option Nat :=
  match args with
  | [a] => do (← s.valueIn? r).erasedPlace? [← s.argument? a]
  | _ => none

/-- The place of a member in a variable. -/
def memberPlace? (s : Session Obj) (r name : String) : Option Nat := do
  memberIndex? (← s.valueIn? r).names name

/-- The member name behind a number when an operand was brought in. -/
def broughtName? (s : Session Obj) (v : Operand Obj) (number : Nat) : Option String :=
  (s.result? do
    let _ ← operandValue v
    return (← get).heap.memberName? number).join

/-- The place at which a step takes the element out of the list of its variable, or puts another
handle into its stead. -/
def takenPlace? (s : Session Obj) : Step Obj → Option Nat
  | .removeMember r name | .setMember r name _ false _ => s.memberPlace? r name
  | .setMemberById r number v false _ => do
    s.memberPlace? r (← s.broughtName? v number)
  | .assignElement _ index _ false _ => fromOne? index
  | .elements _ (.remove place) _ => some place
  | .call r name args _ _ =>
    if Method.ofName? name = some .erase then s.erasedPlace? r args else none
  | .callBuiltin r m args _ _ _ => if m = .erase then s.erasedPlace? r args else none
  | _ => none

/-- A step does not put another value into its variable, nor new handles for all its elements, and
it does not bring in the variable itself. -/
structure Retains (s : Session Obj) (x : Step Obj) (i : HandleId) : Prop where
  stays : match x with
    | .rebind _ _ | .assign _ _ | .setValue _ _ | .overwrite _ _ | .elements _ .renew _
    | .advance _ _ _ => False
    | .operateInPlace op _ v => op = .add ∧ (∃ l, s.heap.valueOf? i = some (.array l)) ∧
        ∀ w, s.offered? v = some w → w.isError = false
    | _ => True
  sources : ∀ name ∈ x.sources, s.references.get? name ≠ some (some i)

end Session

namespace Scene

variable {c : Scene Obj} {s t : Session Obj} {x : Step Obj} {xs ys : List Hold}

/-- A scene that is right for a step. -/
structure Fits (c : Scene Obj) (s : Session Obj) (x : Step Obj) : Prop where
  target : ∀ i, s.target? x = some i → c.blocked i
  assigned : ∀ e, s.assigned? x = some e → c.spared e → c.before.uses (.handle e) = 0
  reads : c.reads → s.Reads x
  unseen : c.unseen → c.reads ∨ Exhausts (Session.apply x) s
  orderly : c.regular → s.Orderly x
  named : c.named → c.regular
  apart : c.acyclic → s.Apart x
  valued : c.single → s.Valued x
  strays : (∃ r ∈ x.followed, (s.references.get? r).join = none) → c.strays
  only : ∀ j l, c.tied j l → s.target? x = some j
  retains : ∀ j l, c.tied j l → s.Retains x j
  yields : ∀ place, s.takenPlace? x = some place → c.Yields s.heap place

omit [HostObject Obj] in
/-- The registers that operands follow are among those that a step has values from. -/
theorem mem_sources {x : Step Obj} {v : Operand Obj} {name : String} (hv : v ∈ x.operands)
    (hname : v.followed? = some name) : name ∈ x.sources := by
  have hargs {args : List (Argument Obj)} (hmem : v ∈ args.filterMap Argument.operand?) :
      name ∈ args.filterMap fun a ↦ a.source.followed? := by
    obtain ⟨a, ha, hoperand⟩ := List.mem_filterMap.1 hmem
    refine List.mem_filterMap.2 ⟨a, ha, ?_⟩
    cases a with
    | operand y =>
      cases hoperand
      exact hname
    | reference other => cases hoperand
  cases x
  case call => exact hargs hv
  case callBuiltin => exact hargs hv
  all_goals exact List.mem_filterMap.2 ⟨v, hv, hname⟩

/-- The operands of a step are right for the scene. -/
theorem Fits.suits (hf : c.Fits s x) {v : Operand Obj} (hv : v ∈ x.operands) : c.Suits s v where
  named hr := (hf.orderly hr).operands v hv
  follows name hname hnone :=
    hf.strays ⟨name, List.mem_append_left _ (List.mem_append_right _
      (List.mem_filterMap.2 ⟨v, hv, hname⟩)), hnone⟩
  loose name hname i hi l ht := (hf.retains i l ht).sources name (mem_sources hv hname) hi

/-- A reference that a step is right to follow. -/
structure Aims (c : Scene Obj) (r : Option HandleId) : Prop where
  blocked : ∀ i, r = some i → c.blocked i
  strays : r = none → c.strays
  only : ∀ j l, c.tied j l → r = some j

theorem Aims.withOutside {r : Option HandleId} (ha : c.Aims r) (os : List Hold) :
    (c.withOutside os).Aims r :=
  ⟨ha.blocked, ha.strays, ha.only⟩

omit [HostObject Obj] in
theorem target?_of_register {r : String} {i : HandleId} (hr : x.register? = some r)
    (hi : (s.references.get? r).join = some i) : s.target? x = some i := by
  unfold Session.target?
  split
  · cases hr
  · rw [hr]
    exact hi

/-- The register with the variable of a step. -/
theorem Fits.aims (hf : c.Fits s x) {r : String} (hr : x.register? = some r) :
    c.Aims (s.references.get? r).join where
  blocked i hi := hf.target i (target?_of_register hr hi)
  strays hnone := by
    refine hf.strays ⟨r, List.mem_append_left _ (List.mem_append_left _ ?_), hnone⟩
    rw [hr]
    exact List.mem_singleton_self r
  only j l ht := by
    have htarget := hf.only j l ht
    unfold Session.target? at htarget
    split at htarget
    · cases hr
    · rwa [hr] at htarget

/-- What was brought in to be put into the variable of a step does not lead there. -/
theorem Fits.clears (hf : c.Fits s x) {r : String} {i : HandleId} {ys : List Hold} {h : Heap Obj}
    (os : List Hold) (hr : x.register? = some r) (hi : s.references.get? r = some (some i))
    (hfollows : s.Follows (s.brought x) ys h) : (c.withOutside os).Clears h ys (.handle i) :=
  fun hac ↦ hfollows i (Session.mem_holds_of_reference hi)
    (hf.apart hac i (target?_of_register hr (Option.join_eq_some_iff.2 hi)))

/-- A step that makes a block its variable's own finds a value there. -/
theorem Fits.ne_uninit (hf : c.Fits s x) {r : String} {i : HandleId} {v : Value Obj}
    (hr : x.register? = some r) (hx : x.detaches = true)
    (hi : s.references.get? r = some (some i)) (hv : s.heap.valueOf? i = some v) :
    c.single → v ≠ .uninit := by
  rintro hone rfl
  exact (hf.valued hone).finds hx i (target?_of_register hr (Option.join_eq_some_iff.2 hi)) hv

/-- The value of a variable as long as nothing is written. -/
theorem Begins.valueIn? (hs : c.Begins xs [] s) {os zs ws : List Hold} {h : Heap Obj} {r : String}
    {i : HandleId} {v : Value Obj} (hs₁ : (c.withOutside os).Begins zs ws { s with heap := h })
    (hr : s.references.get? r = some (some i)) (hv : h.valueOf? i = some v) :
    s.valueIn? r = some v := by
  rw [Session.valueIn?, hr, Option.join_some, Option.bind_some]
  exact hs.valueOf?_earlier hs₁ (Session.mem_holds_of_reference hr) hv

/-- The element at the place that a step names may still leave its list. -/
theorem Fits.yields_later (hf : c.Fits s x) (hs : c.Begins xs [] s) {h : Heap Obj}
    (hadds : s.heap.Adds h) {place : Nat} (hplace : s.takenPlace? x = some place) :
    c.Yields h place :=
  (hf.yields place hplace).steady hs.stands.here hadds.quiet.steady

/-- What the parameters of a call of `erase` name is the place that its arguments name. -/
theorem Begins.erasedPlace?_later (hs : c.Begins xs [] s) {h h₁ : Heap Obj}
    (hadds : s.heap.Adds h) {r : String} {args : List (Argument Obj)}
    {params : List (Option HandleId)} {v : Value Obj} {place : Nat}
    (hpasses : { s with heap := h }.Passes args h₁ params) (hv : s.valueIn? r = some v)
    (hplace : v.erasedPlace? (params.map h₁.shownBy) = some place) :
    s.erasedPlace? r args = some place := by
  obtain ⟨w, hw, hlist⟩ := Value.argument_of_erasedPlace? hplace
  obtain ⟨p, rfl, rfl⟩ := List.map_eq_singleton_iff.1 hw
  obtain ⟨a, rfl⟩ := List.length_eq_one_iff.1 hpasses.length.symm
  rw [Session.erasedPlace?, hv]
  rcases hpasses.single a p rfl rfl with hsome | ⟨-, hcontainer⟩
  · rw [hs.argument_later hadds] at hsome
    rw [hsome]
    exact hplace
  · rw [hlist] at hcontainer
    cases hcontainer

/-- The variable of a step. -/
theorem Stands.target (hs : c.Stands xs ys t) {r : String} {i : HandleId}
    (hr : t.references.get? r = some (some i)) (haims : c.Aims (some i)) : c.Target i where
  held := hs.mem_outside (Session.mem_holds_of_reference hr)
  blocked := haims.blocked i rfl
  only j l ht := (Option.some.inj (haims.only j l ht)).symm

/-- An operation on the variable of a step. -/
theorem Begins.onTarget {α : Type} {r : String} {f : HandleId → SessionM Obj α}
    (hs : c.Begins xs [] s) (haims : c.Aims (s.references.get? r).join)
    (hf : ∀ i, s.references.get? r = some (some i) → c.Target i → c.Performs xs (f i) s) :
    c.Performs xs (Session.deref r >>= f) s :=
  hs.stands.deref haims.strays fun i hr ↦
    hf i hr (hs.stands.target hr (Option.join_eq_some_iff.2 hr ▸ haims))

/-- An operation with the value of an operand on the variable of a step. -/
theorem Begins.withOperandOn {α : Type} {r : String} {v : Operand Obj}
    {f : Value Obj → HandleId → SessionM Obj α} (hs : c.Begins xs [] s) (hv : c.Suits s v)
    (haims : c.Aims (s.references.get? r).join)
    (hf : ∀ w zs h i, Session.operandValue v s = .ok (w, zs) { s with heap := h } →
      s.heap.Adds h → s.references.get? r = some (some i) →
      (c.withOutside (zs ++ c.outside)).Begins (zs ++ xs) [] { s with heap := h } →
      (c.withOutside (zs ++ c.outside)).Given [] w → (c.regular → h.Matched w) →
      (c.withOutside (zs ++ c.outside)).Target i → s.Offers v w →
      s.Follows (s.brings v) w.holds h →
      (c.withOutside (zs ++ c.outside)).Performs (zs ++ xs) (f w i) { s with heap := h }) :
    c.Performs xs (Session.withOperand v fun w ↦ Session.deref r >>= f w) s :=
  hs.withOperand hv fun w zs h hrun hadds hs₁ hw hm hoffers hfollows ↦
    hs₁.onTarget (haims.withOutside _) fun i hr ht ↦
      hf w zs h i hrun hadds hr hs₁ hw hm ht hoffers hfollows

end Scene
end ScriptHeap
