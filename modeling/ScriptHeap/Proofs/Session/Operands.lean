import ScriptHeap.Proofs.Session.Scene

/-!
# Operands and arguments

A step first brings in what it works with.  Nothing is changed by that: values are copied or held,
and data get new handles.

## What is here

* `Scene.Begins` — a session at the beginning of a step, before anything was changed.
* `Scene.Begins.withOperand`, `Scene.Begins.operandCopy` — the value of an operand, looked at or
  copied.
* `Scene.Passed`, `Scene.Begins.withArguments`, `Scene.Begins.withData` — the same for the arguments
  of calls.
-/

set_option autoImplicit false
namespace ScriptHeap

variable {Obj : Type}

namespace Session

/-- What registers refer to is held. -/
theorem mem_holds_of_reference {s : Session Obj} {name : String} {i : HandleId}
    (hr : s.references.get? name = some (some i)) : Hold.handle i ∈ s.holds := by
  refine (s.holds_references name).mem_iff.2 (List.mem_append_left _ ?_)
  rw [hr]
  exact List.mem_singleton_self _

@[inherit_doc mem_holds_of_reference]
theorem mem_holds_of_join {s : Session Obj} {name : String} {x : Hold}
    (hx : x ∈ referenceHolds (s.references.get? name).join) : x ∈ s.holds := by
  obtain ⟨i, hi, rfl⟩ := List.mem_map.1 hx
  exact mem_holds_of_reference (Option.join_eq_some_iff.1 (Option.mem_toList.1 hi))

theorem mem_holds_of_block {s : Session Obj} {name : String} {b : BlockId}
    (hb : s.blocks.get? name = some b) : Hold.block b ∈ s.holds := by
  refine (s.holds_blocks name).mem_iff.2 (List.mem_append_left _ ?_)
  rw [hb]
  exact List.mem_singleton_self _

theorem mem_holds_of_cursor {s : Session Obj} {name : String} {k : Cursor}
    (hk : s.cursors.get? name = some k) : ∀ y ∈ k.holds, y ∈ s.holds := by
  intro y hy
  refine (s.holds_cursors name).mem_iff.2 (List.mem_append_left _ ?_)
  rw [hk]
  exact hy

/-- The value that an operand has when a step begins; none for a container that is yet to be brought
in. -/
def offered? (s : Session Obj) : Operand Obj → Option (Value Obj)
  | .literal (.scalar x) => some (.scalar x)
  | .literal _ => none
  | .reference name => (s.references.get? name).join.bind s.heap.valueOf?
  | .register name =>
    match s.values.get? name with
    | some (.own v) => some v
    | some (.snapshot b) => s.heap.valueAt? b
    | none => some .uninit

/-- A value is the one that an operand has, or a new container. -/
def Offers (s : Session Obj) (x : Operand Obj) (v : Value Obj) : Prop :=
  s.offered? x = some v ∨ s.offered? x = none ∧ v.list?.isSome

theorem Offers.eq_of_offered {s : Session Obj} {x : Operand Obj} {v w : Value Obj}
    (ho : s.Offers x v) (hw : s.offered? x = some w) : v = w := by
  rcases ho with hv | ⟨hnone, -⟩
  · exact Option.some.inj (hv.symm.trans hw)
  · cases hnone.symm.trans hw

/-- The holds that the value of an operand is found behind when a step begins.  A new value leads to
nothing that was there. -/
def brings (s : Session Obj) : Operand Obj → List Hold
  | .literal _ => []
  | .reference name => (((s.references.get? name).join.bind s.heap.valueOf?).map Value.holds).getD []
  | .register name => ((s.values.get? name).map Stored.holds).getD []

/-- Some holds lead, in a later heap, to no variable that others did not lead to before. -/
def Follows (s : Session Obj) (zs ys : List Hold) (h : Heap Obj) : Prop :=
  ∀ i, Hold.handle i ∈ s.holds → (∀ z ∈ zs, ¬ s.heap.Reaches z (.handle i)) →
    ∀ y ∈ ys, ¬ h.Reaches y (.handle i)

theorem Follows.quiet {s : Session Obj} {zs ys xs : List Hold} {h h' : Heap Obj}
    (hf : s.Follows zs ys h) (hs : h.Sound xs) (hthere : ∀ y ∈ ys, (h.content? y).isSome)
    (hq : h.Quiet h') : s.Follows zs ys h' := by
  intro i hi hz y hy hreach
  obtain ⟨k, hk⟩ := Option.isSome_iff_exists.1 (hthere y hy)
  obtain ⟨n, hn⟩ := Heap.exists_cell?_of_content? hk
  exact hf i hi hz y hy (hq.reaches hs (Heap.born_of_cell? hs.tidy hn) hreach)

theorem Follows.refl (s : Session Obj) (ys : List Hold) : s.Follows ys ys s.heap :=
  fun _ _ hz ↦ hz

theorem Follows.mono {s : Session Obj} {zs zs' ys : List Hold} {h : Heap Obj}
    (hf : s.Follows zs ys h) (hsub : ∀ z ∈ zs, z ∈ zs') : s.Follows zs' ys h :=
  fun i hi hz ↦ hf i hi fun z hmem ↦ hz z (hsub z hmem)

/-- The same when the heap had already grown in between. -/
theorem Follows.earlier {s : Session Obj} {zs ys xs : List Hold} {h h' : Heap Obj}
    (hf : { s with heap := h }.Follows zs ys h') (hs : s.heap.Sound xs)
    (hthere : ∀ z ∈ zs, (s.heap.content? z).isSome) (hq : s.heap.Quiet h) : s.Follows zs ys h' :=
  fun i hi hz ↦ hf i hi ((Follows.refl s zs).quiet hs hthere hq i hi hz)

/-- A datum that was brought in is the scalar that it was, or a new container. -/
theorem offers_plant [HostObject Obj] {s t : Session Obj} {d : Datum Obj} {v : Value Obj}
    (hrun : onHeap (Heap.plant d) s = .ok v t) : s.Offers (.literal d) v := by
  rw [onHeap] at hrun
  split at hrun
  · rename_i v' h hplant
    cases hrun
    cases d with
    | scalar x =>
      cases hplant
      exact .inl rfl
    | array ds =>
      obtain ⟨vs, h₁, -, hnew⟩ := bind_eq_ok_iff.1 hplant
      obtain ⟨is, h₂, -, hlist⟩ := bind_eq_ok_iff.1 hnew
      obtain ⟨l, h₃, -, hpure⟩ := bind_eq_ok_iff.1 hlist
      cases hpure
      exact .inr ⟨rfl, rfl⟩
    | struct ms ds =>
      obtain ⟨vs, h₁, -, hrest⟩ := bind_eq_ok_iff.1 hplant
      obtain ⟨ws, h₂, -, hnew⟩ := bind_eq_ok_iff.1 hrest
      obtain ⟨is, h₃, -, hlist⟩ := bind_eq_ok_iff.1 hnew
      obtain ⟨l, h₄, -, hpure⟩ := bind_eq_ok_iff.1 hlist
      cases hpure
      exact .inr ⟨rfl, rfl⟩
  · cases hrun

/-- The value that an argument has when a step begins, as for operands. -/
def argument? (s : Session Obj) : Argument Obj → Option (Value Obj)
  | .operand x => s.offered? x
  | .reference name => some (s.heap.shownBy (s.references.get? name).join)

/-- There is a parameter for each argument, and a single one shows the value of its argument. -/
structure Passes (s : Session Obj) (args : List (Argument Obj)) (h : Heap Obj)
    (params : List (Option HandleId)) : Prop where
  length : params.length = args.length
  single : ∀ a p, args = [a] → params = [p] → s.argument? a = some (h.shownBy p) ∨
    s.argument? a = none ∧ (h.shownBy p).list?.isSome

end Session

/-- A datum in an operand names all elements of its structs. -/
def Operand.Named : Operand Obj → Prop
  | .literal d => d.Named
  | _ => True

/-- The operand that an argument has its value from. -/
def Argument.source : Argument Obj → Operand Obj
  | .operand x => x
  | .reference name => .reference name

/-- The register that an operand follows. -/
def Operand.followed? : Operand Obj → Option String
  | .reference name => some name
  | _ => none

/-- A value holds its list at most. -/
theorem Value.holds_cases (v : Value Obj) : v.holds = [] ∨ ∃ l, v.holds = [.list l] := by
  cases v with
  | scalar s => exact .inl rfl
  | array l => exact .inr ⟨l, rfl⟩
  | struct names l => exact .inr ⟨l, rfl⟩

namespace Scene

variable [HostObject Obj] {c : Scene Obj} {xs ys zs : List Hold} {s : Session Obj} {h : Heap Obj}

/-- No variable in a register is to keep its list. -/
def Loose (c : Scene Obj) (s : Session Obj) (name : String) : Prop :=
  ∀ i, s.references.get? name = some (some i) → ∀ l, ¬ c.tied i l

/-- An operand that is right for a scene. -/
structure Suits (c : Scene Obj) (s : Session Obj) (x : Operand Obj) : Prop where
  named : c.regular → x.Named
  follows : ∀ name, x.followed? = some name → (s.references.get? name).join = none → c.strays
  loose : ∀ name, x.followed? = some name → c.Loose s name

/-- An operand is right later on, too: registers stay as they are, whatever else is held. -/
theorem Suits.later {x : Operand Obj} (hx : c.Suits s x) (os : List Hold) (h : Heap Obj) :
    (c.withOutside os).Suits { s with heap := h } x :=
  ⟨hx.named, hx.follows, hx.loose⟩

/-- A session at the beginning of a step. -/
structure Begins (c : Scene Obj) (xs ys : List Hold) (s : Session Obj) : Prop where
  stands : c.Stands xs ys s
  adds : c.before.Adds s.heap
  born : ∀ x ∈ s.holds, c.before.Born x
  sole : c.Sole s.heap

theorem Begins.calm (hs : c.Begins xs ys s) : c.Calm s.heap :=
  ⟨hs.adds.le, hs.sole⟩

theorem Begins.withHeap (hs : c.Begins xs ys s) (ha : c.At [] zs h) (hadds : s.heap.Adds h)
    (hsole : c.Sole h) : c.Begins xs zs { s with heap := h } :=
  ⟨hs.stands.withHeap ha, hs.adds.trans hadds, hs.born, hsole⟩

/-- Holds that others may look from. -/
theorem Begins.widen (hs : c.Begins xs (zs ++ ys) s) :
    (c.withOutside (zs ++ c.outside)).Begins (zs ++ xs) ys s where
  stands := by
    refine ⟨hs.stands.here.widen hs.adds.quiet, ?_, hs.stands.values⟩
    rw [List.append_assoc]
    exact .append_left _ hs.stands.outside
  adds := hs.adds
  born := hs.born
  sole := hs.sole

/-- What a block held by others shows at the beginning of a step is what it showed before. -/
theorem Begins.given_block (hs : c.Begins xs ys s) {os : List Hold} {b : BlockId} {v : Value Obj}
    (hb : Hold.block b ∈ os) (hborn : c.before.Born (.block b)) (hv : s.heap.valueAt? b = some v) :
    (c.withOutside os).Given [] v := by
  intro y hy
  refine .inr ⟨b, hb, ?_⟩
  have hold := hs.adds.quiet.content _ hborn _ (Heap.content?_block.2 hv)
  show y ∈ c.before.holdsOf (.block b)
  rw [Heap.holdsOf_eq hold]
  exact hy

/-- What the registers refer to is there. -/
theorem Begins.isSome (hs : c.Begins xs ys s) {x : Hold} (hx : x ∈ s.holds) :
    (s.heap.content? x).isSome :=
  hs.stands.here.isSome_of_mem (List.mem_append_right _ (hs.stands.mem_outside hx))

/-- A block that registers hold has a value. -/
theorem Begins.exists_valueAt? (hs : c.Begins xs ys s) {b : BlockId} (hb : Hold.block b ∈ s.holds) :
    ∃ v, s.heap.valueAt? b = some v :=
  Heap.exists_valueAt?_of_isSome (hs.isSome hb)

/-- The block of a handle in a register was there before. -/
theorem Begins.born_block (hs : c.Begins xs ys s) {i : HandleId} {b : BlockId}
    (hi : Hold.handle i ∈ s.holds) (hb : s.heap.blockOf? i = some b) :
    c.before.Born (.block b) := by
  have hold := hs.adds.quiet.content _ (hs.born _ hi) _ (Heap.content?_handle.2 hb)
  exact c.sound.born_of_mem_holdsOf (Heap.mem_holdsOf_of_blockOf? (Heap.content?_handle.1 hold))

/-- A handle in a register still shows what it showed before. -/
theorem Begins.valueOf? (hs : c.Begins xs ys s) {i : HandleId} {v : Value Obj}
    (hi : Hold.handle i ∈ s.holds) (hv : s.heap.valueOf? i = some v) :
    c.before.valueOf? i = some v :=
  hs.adds.quiet.valueOf?_earlier c.sound (hs.born _ hi) hv

/-- What a handle in a register shows later on, it showed at the beginning of the step. -/
theorem Begins.valueOf?_earlier (hs : c.Begins xs ys s) {os ws : List Hold}
    (hs₁ : (c.withOutside os).Begins zs ws { s with heap := h }) {i : HandleId} {v : Value Obj}
    (hi : Hold.handle i ∈ s.holds) (hv : h.valueOf? i = some v) : s.heap.valueOf? i = some v := by
  obtain ⟨_, w, -, -, hw⟩ := hs.stands.here.exists_value (hs.isSome hi)
  rw [hw, ← hs.valueOf? hi hw]
  exact hs₁.valueOf? hi hv

/-- What an operand leads to is there. -/
theorem Begins.isSome_of_brings (hs : c.Begins xs ys s) (x : Operand Obj) :
    ∀ z ∈ s.brings x, (s.heap.content? z).isSome := by
  intro z hz
  cases x with
  | literal d => exact absurd hz List.not_mem_nil
  | reference name =>
    rw [Session.brings] at hz
    cases hr : (s.references.get? name).join with
    | none =>
      rw [hr] at hz
      exact absurd hz List.not_mem_nil
    | some i =>
      have hi := Session.mem_holds_of_reference (Option.join_eq_some_iff.1 hr)
      obtain ⟨b, v, -, hb, hv⟩ := hs.stands.here.exists_value (hs.isSome hi)
      rw [hr, Option.bind_some, hv] at hz
      exact hs.stands.here.isSome_of_value hb z hz
  | register name =>
    rw [Session.brings] at hz
    cases hget : s.values.get? name with
    | none =>
      rw [hget] at hz
      exact absurd hz List.not_mem_nil
    | some w =>
      rw [hget] at hz
      exact hs.isSome (Session.mem_holds_of_value (Registers.mem_contents_of_get? hget) z hz)

/-- What an operand leads to does not change as long as nothing is written. -/
theorem Begins.brings_later (hs : c.Begins xs ys s) {os ws : List Hold}
    (hs₁ : (c.withOutside os).Begins zs ws { s with heap := h }) (x : Operand Obj) :
    { s with heap := h }.brings x = s.brings x := by
  cases x with
  | literal d => rfl
  | register name => rfl
  | reference name =>
    rw [Session.brings, Session.brings]
    cases hr : (s.references.get? name).join with
    | none => rfl
    | some i =>
      have hi := Session.mem_holds_of_reference (Option.join_eq_some_iff.1 hr)
      obtain ⟨_, v, -, -, hv⟩ := hs₁.stands.here.exists_value (hs₁.isSome hi)
      rw [Option.bind_some, Option.bind_some, hv, hs.valueOf?_earlier hs₁ hi hv]

/-- So what follows the arguments of a call later on follows them from the beginning. -/
theorem Begins.follows_arguments (hs : c.Begins xs ys s) {os ws ks : List Hold} {h' : Heap Obj}
    (hs₁ : (c.withOutside os).Begins zs ws { s with heap := h }) (hadds : s.heap.Adds h)
    {args : List (Argument Obj)}
    (hf : { s with heap := h }.Follows
      (args.flatMap fun a : Argument Obj ↦ { s with heap := h }.brings a.source) ks h') :
    s.Follows (args.flatMap fun a ↦ s.brings a.source) ks h' := by
  simp only [hs.brings_later hs₁] at hf
  refine Session.Follows.earlier hf hs.stands.here.sound (fun z hz ↦ ?_) hadds.quiet
  obtain ⟨a, -, hza⟩ := List.mem_flatMap.1 hz
  exact hs.isSome_of_brings a.source z hza

/-- Operands have the same values as long as nothing is written. -/
theorem Begins.offered_later (hs : c.Begins xs ys s) (hadds : s.heap.Adds h) (x : Operand Obj) :
    { s with heap := h }.offered? x = s.offered? x := by
  have hsound := hs.stands.here.sound
  cases x with
  | literal d => cases d <;> rfl
  | reference name =>
    rw [Session.offered?, Session.offered?]
    cases hr : (s.references.get? name).join with
    | none => rfl
    | some i =>
      have hi := Session.mem_holds_of_reference (Option.join_eq_some_iff.1 hr)
      obtain ⟨_, v, -, -, hv⟩ := hs.stands.here.exists_value (hs.isSome hi)
      rw [Option.bind_some, Option.bind_some, hv, hadds.valueOf? hsound hv]
  | register name =>
    rw [Session.offered?, Session.offered?]
    cases hget : s.values.get? name with
    | none => rfl
    | some w =>
      cases w with
      | own v => rfl
      | snapshot b =>
        have hb := Session.mem_holds_of_value (Registers.mem_contents_of_get? hget) (.block b)
          (List.mem_singleton_self _)
        obtain ⟨v, hv⟩ := hs.exists_valueAt? hb
        have hkept := hadds.content hsound (Heap.content?_block.2 hv)
        exact (Heap.content?_block.1 hkept).trans hv.symm

@[inherit_doc Begins.offered_later]
theorem Begins.argument_later (hs : c.Begins xs ys s) (hadds : s.heap.Adds h) (a : Argument Obj) :
    { s with heap := h }.argument? a = s.argument? a := by
  cases a with
  | operand x => exact hs.offered_later hadds x
  | reference name =>
    refine congrArg some (hadds.shownBy hs.stands.here.sound fun i hi ↦ ?_)
    exact hs.isSome (Session.mem_holds_of_reference (Option.join_eq_some_iff.1 hi))

/-- What a step knows of the value of an operand and of the holds that keep it. -/
structure Offered (c : Scene Obj) (s : Session Obj) (v : Value Obj) (zs : List Hold)
    (h : Heap Obj) : Prop where
  here : c.At [] (zs ++ []) h
  adds : s.heap.Adds h
  given : (c.withOutside (zs ++ c.outside)).Given [] v
  matched : c.regular → h.Matched v
  sole : c.Sole h
  raised : zs = [] ∨ ∃ x, zs = [x] ∧
    (v.holds = [x] ∨ 0 < s.heap.count x ∧ s.heap.count x < h.count x)

/-- The value of an operand came with its holds, and only the heap has changed. -/
def Supplies (c : Scene Obj) (s : Session Obj) (x : Operand Obj) (r : Value Obj × List Hold)
    (t : Session Obj) : Prop :=
  ∃ h, t = { s with heap := h } ∧ c.Offered s r.1 r.2 h ∧ s.Offers x r.1 ∧
    s.Follows (s.brings x) r.1.holds h

/-- A datum is brought in: its value is held, and it leads to nothing that was there. -/
theorem Begins.ends_literal (hs : c.Begins xs [] s) {d : Datum Obj}
    (hx : c.Suits s (.literal d)) :
    Ends (Session.operandValue (.literal d)) s (c.Supplies s (.literal d)) (c.Fails xs) := by
  refine (hs.stands.ends_onHeap (At.plant d (fun hr ↦ hx.named hr) hs.stands.here)).known.bind ?_
  rintro v _ ⟨⟨h, rfl, ha, hg, hm⟩, hrun⟩
  refine .pure ⟨h, rfl, ⟨ha, hg.toAdds, fun y hy ↦ .inl ?_, hm,
    hs.sole.grows_unset hs.stands.here hg, ?_⟩, Session.offers_plant hrun, fun i hi _ y hy ↦ ?_⟩
  · exact List.mem_append_left c.outside hy
  · refine v.holds_cases.imp_right ?_
    rintro ⟨l, hl⟩
    exact ⟨.list l, hl, .inl hl⟩
  · have hsound : h.Sound (v.holds ++ c.outside) := ha.sound.perm (by simp [handleHolds])
    exact hg.not_reaches_new hs.stands.here.sound hsound (hs.stands.here.born (hs.isSome hi)) hy

/-- The value of a variable: its block is held, and the variable is none that keeps its list. -/
theorem Begins.ends_reference (hs : c.Begins xs [] s) {name : String}
    (hx : c.Suits s (.reference name)) :
    Ends (Session.operandValue (.reference name)) s (c.Supplies s (.reference name))
      (c.Fails xs) := by
  refine Ends.bind ((Session.ends_deref name s).mono (fun i t ht ↦ ht) ?_) ?_
  · rintro fault _ ⟨rfl, hfault, hnone⟩
    exact ⟨hs.stands.settled, .inr (.inr ⟨hfault, hx.follows name rfl hnone⟩)⟩
  rintro i t ⟨rfl, hr⟩
  have hi := Session.mem_holds_of_reference hr
  refine (hs.stands.runs_onHeap (hs.stands.here.snapshot (hs.isSome hi))).bind ?_
  rintro b _ ⟨h, rfl, ha, hg, hb, hlt⟩
  obtain ⟨v, hv, hshows⟩ := hs.stands.here.sound.exists_valueOf? hb
  have ha' : c.At [] ([.block b] ++ []) h := ha
  have hsole : c.Sole h := hs.sole.grows hg fun j l b' ht hj ↦ by
    refine ⟨by simp, fun he ↦ ?_⟩
    cases he
    obtain ⟨_, hj', hone, -⟩ := hs.sole j l ht
    obtain rfl := Option.some.inj (hj.symm.trans hj')
    obtain rfl := hs.stands.here.eq_of_block hj hone hb
    exact hx.loose name rfl i hr l ht
  have hbegins := hs.withHeap ha' hg.toAdds hsole
  have hpos : 0 < t.heap.count (.block b) :=
    hs.stands.here.sound.held _ (Heap.isSome_of_valueAt? hv)
  refine Ends.after (Session.onHeap_of_ok (Heap.look_eq (hg.valueAt? hv)))
    (.pure ⟨h, rfl, ⟨ha', hg.toAdds, ?_, fun hreg ↦ ?_, hsole,
      .inr ⟨.block b, rfl, .inr ⟨hpos, hlt⟩⟩⟩, .inl ?_, ?_⟩)
  · exact hbegins.given_block List.mem_cons_self (hs.born_block hi hb) (hg.valueAt? hv)
  · exact ha.regular hreg b v (Option.some_ne_none b).symm (hg.valueAt? hv)
  · rw [Session.offered?, hr]
    exact hshows
  · have hbrings : t.brings (.reference name) = v.holds := by
      rw [Session.brings, hr, Option.join_some, Option.bind_some, hshows]
      rfl
    rw [hbrings]
    exact (Session.Follows.refl t v.holds).quiet hs.stands.here.sound
      (hs.stands.here.isSome_of_value hv) hg.quiet

/-- The value in a register is held by the register. -/
theorem Begins.ends_register (hs : c.Begins xs [] s) (name : String) :
    Ends (Session.operandValue (.register name)) s (c.Supplies s (.register name))
      (c.Fails xs) := by
  have hheld {z : Hold} (hz : z ∈ s.holds) : z ∈ c.outside := hs.stands.mem_outside hz
  refine Ends.after rfl ?_
  split
  · rename_i x hget
    have hmem := Registers.mem_contents_of_get? hget
    cases x with
    | own v =>
      refine Ends.after rfl (.pure ⟨s.heap, rfl, ⟨hs.stands.here, .refl _, fun y hy ↦ .inl ?_,
        fun hreg ↦ hs.stands.matched hreg hmem, hs.sole, .inl rfl⟩, .inl ?_, ?_⟩)
      · exact hheld (Session.mem_holds_of_value hmem y hy)
      · rw [Session.offered?, hget]
      · rw [Session.brings, hget]
        exact .refl s v.holds
    | snapshot b =>
      have hb := Session.mem_holds_of_value hmem (.block b) (List.mem_singleton_self _)
      obtain ⟨v, hv⟩ := hs.exists_valueAt? hb
      refine Ends.after (Session.onHeap_of_ok (Heap.look_eq hv))
        (.pure ⟨s.heap, rfl, ⟨hs.stands.here, .refl _, ?_, fun hreg ↦ ?_, hs.sole, .inl rfl⟩,
          .inl ?_, fun i _ hz y hy hreach ↦ ?_⟩)
      · exact hs.given_block (hheld hb) (hs.born _ hb) hv
      · exact hs.stands.here.regular hreg b v (Option.some_ne_none b).symm hv
      · rw [Session.offered?, hget]
        exact hv
      · rw [Session.brings, hget] at hz
        refine hz (.block b) (List.mem_singleton_self _)
          (((Heap.Reaches.refl s.heap _).next ?_).trans hreach)
        rwa [Heap.holdsOf_block hv]
  · rename_i hget
    refine .pure ⟨s.heap, rfl, ⟨hs.stands.here, .refl _, fun y hy ↦ absurd hy List.not_mem_nil,
      fun _ ↦ Heap.matched_scalar _, hs.sole, .inl rfl⟩, .inl ?_,
      fun _ _ _ y hy ↦ absurd hy List.not_mem_nil⟩
    rw [Session.offered?, hget]

/-- **The value of an operand**, and the holds that keep it. -/
theorem Begins.operandValue (hs : c.Begins xs [] s) {x : Operand Obj} (hx : c.Suits s x) :
    Ends (Session.operandValue x) s (c.Supplies s x) (c.Fails xs) := by
  cases x with
  | literal d => exact hs.ends_literal hx
  | reference name => exact hs.ends_reference hx
  | register name => exact hs.ends_register name

/-- An operation with the value of an operand. -/
theorem Begins.withOperand {α : Type} {x : Operand Obj} {act : Value Obj → SessionM Obj α}
    (hs : c.Begins xs [] s) (hx : c.Suits s x)
    (hact : ∀ v zs h, Session.operandValue x s = .ok (v, zs) { s with heap := h } →
      s.heap.Adds h →
      (c.withOutside (zs ++ c.outside)).Begins (zs ++ xs) [] { s with heap := h } →
      (c.withOutside (zs ++ c.outside)).Given [] v → (c.regular → h.Matched v) →
      s.Offers x v → s.Follows (s.brings x) v.holds h →
      (c.withOutside (zs ++ c.outside)).Performs (zs ++ xs) (act v) { s with heap := h }) :
    c.Performs xs (Session.withOperand x act) s := by
  rw [Session.withOperand]
  refine Leads.bind (hs.operandValue hx).known ?_
  rintro r _ ⟨⟨h, rfl, ho, hoffers, hfollows⟩, hrun⟩
  have hbegins := (hs.withHeap ho.here ho.adds ho.sole).widen
  exact (hact r.1 r.2 h hrun ho.adds hbegins ho.given ho.matched hoffers hfollows).during

/-- A copy of a value that is held: when the holds that kept it are given up, nothing is held less
than before. -/
theorem Begins.copied {v : Value Obj} (hs : c.Begins xs [] s) (ho : c.Offered s v zs h) :
    ∃ h₁, Heap.hold v.holds h = .ok () h₁ ∧ s.heap.Adds (h₁.release zs) ∧
      c.Begins xs (v.holds ++ []) { s with heap := h₁.release zs } ∧
      (c.regular → (h₁.release zs).Matched v) ∧
      ∀ ws, s.Follows ws v.holds h → s.Follows ws v.holds (h₁.release zs) := by
  have hat := (hs.withHeap ho.here ho.adds ho.sole).widen.stands.here
  have hthere : ∀ y ∈ v.holds, (h.content? y).isSome := hat.isSome_of_given ho.given
  obtain ⟨_, h₁, hrun, ha₁, hg₁⟩ := ho.here.hold hthere
  have hsole₁ : c.Sole h₁ :=
    Sole.copied (c := c.withOutside (zs ++ c.outside)) ho.sole hat ho.given hg₁
  have ha₂ : c.At [] (zs ++ (v.holds ++ [])) h₁ := ha₁.perm (List.perm_append_comm_assoc _ _ _)
  obtain ⟨ha₃, hr₃⟩ := ha₂.release
  have hadds : s.heap.Adds (h₁.release zs) ∧ c.Sole (h₁.release zs) := by
    rcases ho.raised with rfl | ⟨x, rfl, hx | ⟨hpos, hlt⟩⟩
    · exact ⟨ho.adds.trans hg₁.toAdds, hsole₁⟩
    · -- the hold that was taken now stands in for the one that is given up
      rw [hx] at hrun hthere
      obtain rfl : h.retainOne x = h₁ := by
        cases hrun
        rfl
      have hmore := Heap.count_lt_retainOne (hthere x (List.mem_singleton_self x))
      have hheld := ho.here.sound.held x (hthere x (List.mem_singleton_self x))
      exact ⟨ho.adds.trans (hg₁.toAdds.giveBack hmore (by omega)), hsole₁.release_one (by omega)⟩
    · have hle := hg₁.le x
      exact ⟨(ho.adds.trans hg₁.toAdds).giveBack (by omega) (by omega),
        hsole₁.release_one (by omega)⟩
  refine ⟨h₁, hrun, hadds.1, hs.withHeap ha₃ hadds.1 hadds.2, fun hr ↦ ?_, fun ws hfollows ↦
    hfollows.quiet ho.here.sound hthere (hg₁.quiet.trans hr₃.quiet)⟩
  refine hr₃.quiet.steady.matched ha₂.sound.tidy (hg₁.matched (ho.matched hr)) fun y hy ↦ ?_
  exact ha₃.isSome_of_mem (List.mem_append_left _ (List.mem_append_left _ hy))

/-- A copy of the value of an operand. -/
theorem Begins.ends_operandCopy (hs : c.Begins xs [] s) {x : Operand Obj} (hx : c.Suits s x) :
    Ends (Session.operandCopy x) s
      (fun v t ↦ ∃ h, t = { s with heap := h } ∧ s.heap.Adds h ∧ c.Begins xs (v.holds ++ []) t ∧
        (c.regular → h.Matched v) ∧ s.Offers x v ∧ s.Follows (s.brings x) v.holds h)
      (c.Fails xs) := by
  refine (hs.operandValue hx).bind ?_
  rintro ⟨v, zs⟩ _ ⟨h, rfl, ho, hshows, hfollows⟩
  obtain ⟨h₁, hrun, hadds, hbegins, hm, hstays⟩ := hs.copied ho
  exact Ends.after (Session.onHeap_of_ok hrun)
    (Ends.after rfl (.pure ⟨_, rfl, hadds, hbegins, hm, hshows, hstays _ hfollows⟩))

/-- What comes after a copy of the value of an operand. -/
theorem Begins.operandCopy {α : Type} {x : Operand Obj} {f : Value Obj → SessionM Obj α}
    (hs : c.Begins xs [] s) (hx : c.Suits s x)
    (hf : ∀ v h, s.heap.Adds h → c.Begins xs (v.holds ++ []) { s with heap := h } →
      (c.regular → h.Matched v) → s.Offers x v → s.Follows (s.brings x) v.holds h →
      c.Performs xs (f v) { s with heap := h }) :
    c.Performs xs (Session.operandCopy x >>= f) s := by
  refine Leads.bind (hs.ends_operandCopy hx) ?_
  rintro v _ ⟨h, rfl, hadds, hbegins, hm, hoffers, hfollows⟩
  exact hf v h hadds hbegins hm hoffers hfollows

/-- An operation with data brought in for it. -/
theorem Begins.withData {α : Type} {ds : List (Datum Obj)} {act : List (Value Obj) → SessionM Obj α}
    (hs : c.Begins xs [] s) (hnamed : c.regular → ∀ d ∈ ds, d.Named)
    (hact : ∀ vs zs h, zs = vs.flatMap Value.holds →
      (c.withOutside (zs ++ c.outside)).Begins (zs ++ xs) [] { s with heap := h } →
      (c.regular → ∀ v ∈ vs, h.Matched v) →
      s.heap.Adds h →
      (c.withOutside (zs ++ c.outside)).Performs (zs ++ xs) (act vs) { s with heap := h }) :
    c.Performs xs (Session.withData ds act) s := by
  rw [Session.withData]
  have hplant := At.plantAll (fun d hd ↦ At.plant d fun hr ↦ hnamed hr d hd) hs.stands.here
  refine Leads.bind (hs.stands.ends_onHeap hplant) ?_
  rintro vs _ ⟨h, rfl, ha, hg, hm, -⟩
  have hsole := hs.sole.grows_unset hs.stands.here hg
  exact (hact vs _ h rfl (hs.withHeap ha hg.toAdds hsole).widen hm hg.toAdds).during

/-- A reference register, with a hold of what it refers to. -/
theorem Begins.shareReference {α : Type} {name : String} {f : Option HandleId → SessionM Obj α}
    (hs : c.Begins xs [] s)
    (hf : ∀ r h, s.heap.Adds h → c.Begins xs (referenceHolds r ++ []) { s with heap := h } →
      r = (s.references.get? name).join → c.Performs xs (f r) { s with heap := h }) :
    c.Performs xs (Session.shareReference name >>= f) s := by
  have hreference : Session.reference name s = .ok (s.references.get? name).join s := rfl
  have hthere : ∀ x ∈ referenceHolds (s.references.get? name).join,
      (s.heap.content? x).isSome := by
    intro x hx
    obtain ⟨i, hi, rfl⟩ := List.mem_map.1 hx
    have hi' := Option.join_eq_some_iff.1 (Option.mem_toList.1 hi)
    exact hs.isSome (Session.mem_holds_of_reference hi')
  obtain ⟨_, h, hrun, ha, hg⟩ := hs.stands.here.hold hthere
  have hshare : Session.shareReference name s =
      .ok (s.references.get? name).join { s with heap := h } := by
    rw [Session.shareReference, bind_of_ok hreference, bind_of_ok (Session.onHeap_of_ok hrun)]
    rfl
  have hhandles {y : Hold} (hy : y ∈ referenceHolds (s.references.get? name).join) :
      ∃ i, y = .handle i := by
    obtain ⟨i, -, rfl⟩ := List.mem_map.1 hy
    exact ⟨i, rfl⟩
  have hsole : c.Sole h := hs.sole.grows hg fun i l b _ _ ↦
    ⟨fun hy ↦ by simpa using hhandles hy, fun hy ↦ by simpa using hhandles hy⟩
  exact Leads.after hshare (hf _ h hg.toAdds (hs.withHeap ha hg.toAdds hsole) rfl)

/-! ## Arguments of calls -/

/-- What a step knows of the reference that it passes for an argument. -/
structure Received (c : Scene Obj) (xs : List Hold) (s : Session Obj) (a : Argument Obj)
    (r : Option HandleId) (h : Heap Obj) : Prop where
  begins : c.Begins xs (referenceHolds r ++ []) { s with heap := h }
  adds : s.heap.Adds h
  free : ∀ j, r = some j → ∀ l, ¬ c.tied j l
  follows : ∀ j, r = some j → ∀ w, h.valueOf? j = some w → s.Follows (s.brings a.source) w.holds h
  shows : s.argument? a = some (h.shownBy r) ∨ s.argument? a = none ∧ (h.shownBy r).list?.isSome

/-- What a step knows of all references that it passes.  They are held by others that may look. -/
structure Passed (c : Scene Obj) (s : Session Obj) (args : List (Argument Obj))
    (params : List (Option HandleId)) (os zs : List Hold) (h : Heap Obj) : Prop where
  begins : (c.withOutside os).Begins zs [] { s with heap := h }
  outside : ∀ x ∈ c.outside, x ∈ os
  adds : s.heap.Adds h
  free : ∀ j, some j ∈ params → Hold.handle j ∈ os ∧ ∀ l, ¬ c.tied j l
  follows : ∀ j, some j ∈ params → ∀ w, h.valueOf? j = some w →
    s.Follows (args.flatMap fun a ↦ s.brings a.source) w.holds h
  passes : s.Passes args h params

theorem Begins.passed_nil (hs : c.Begins xs [] s) : c.Passed s [] [] c.outside xs s.heap where
  begins := hs
  outside _ hx := hx
  adds := .refl _
  free _ hj := absurd hj List.not_mem_nil
  follows _ hj := absurd hj List.not_mem_nil
  passes := ⟨rfl, fun _ _ he ↦ nomatch he⟩

/-- A reference that is passed shows later on what it showed, and leads where its argument did. -/
theorem Received.later {a : Argument Obj} {r : Option HandleId} {h' : Heap Obj}
    (hr : c.Received xs s a r h) (hadds : h.Adds h') :
    h'.shownBy r = h.shownBy r ∧ ∀ j, r = some j → ∀ w, h'.valueOf? j = some w →
      s.Follows (s.brings a.source) w.holds h' := by
  have hsound := hr.begins.stands.here.sound
  have hthere {j : HandleId} (hj : r = some j) : (h.content? (.handle j)).isSome := by
    subst hj
    exact hr.begins.stands.isSome (.inl (List.mem_append_left _ (List.mem_singleton_self _)))
  refine ⟨hadds.shownBy hsound fun j hj ↦ hthere hj, fun j hj w hw ↦ ?_⟩
  have hw₀ := hadds.quiet.valueOf?_earlier hsound (hr.begins.stands.here.born (hthere hj)) hw
  obtain ⟨_, v, -, hb, hv⟩ := hr.begins.stands.here.exists_value (hthere hj)
  obtain rfl := Option.some.inj (hv.symm.trans hw₀)
  exact (hr.follows j hj v hw₀).quiet hsound (hr.begins.stands.here.isSome_of_value hb) hadds.quiet

/-- The first argument was received, and then the others were passed while it was held. -/
theorem Received.cons {a : Argument Obj} {r : Option HandleId} {args : List (Argument Obj)}
    {params : List (Option HandleId)} {os : List Hold} {h' : Heap Obj} (hs : c.Begins xs [] s)
    (hr : c.Received xs s a r h)
    (hrest : (c.withOutside (referenceHolds r ++ c.outside)).Passed { s with heap := h } args params
      os zs h') : c.Passed s (a :: args) (r :: params) os zs h' := by
  obtain ⟨hshows, hfollows⟩ := hr.later hrest.adds
  refine ⟨hrest.begins, fun x hx ↦ hrest.outside x (List.mem_append_right _ hx),
    hr.adds.trans hrest.adds, fun j hj ↦ ?_, fun j hj w hw ↦ ?_,
    congrArg Nat.succ hrest.passes.length, fun a' p ha hp ↦ ?_⟩
  · rcases List.mem_cons.1 hj with rfl | hj
    · exact ⟨hrest.outside _ (List.mem_append_left _ (List.mem_singleton_self _)), hr.free j rfl⟩
    · exact hrest.free j hj
  · rw [List.flatMap_cons]
    rcases List.mem_cons.1 hj with rfl | hj
    · exact (hfollows j rfl w hw).mono fun z hz ↦ List.mem_append_left _ hz
    · exact (hs.follows_arguments hr.begins.widen hr.adds (hrest.follows j hj w hw)).mono
        fun z hz ↦ List.mem_append_right _ hz
  · cases ha
    cases hp
    rw [hshows]
    exact hr.shows

/-- A reference register that is passed as an argument. -/
theorem Begins.receiveReference {α : Type} {name : String} {f : Option HandleId → SessionM Obj α}
    (hs : c.Begins xs [] s) (hloose : c.Loose s name)
    (hf : ∀ r h, c.Received xs s (.reference name) r h → c.Performs xs (f r) { s with heap := h }) :
    c.Performs xs (Session.shareReference name >>= f) s := by
  refine hs.shareReference fun r h hadds hbegins hjoin ↦ hf r h ?_
  have hr {j : HandleId} (hj : r = some j) : s.references.get? name = some (some j) :=
    Option.join_eq_some_iff.1 (hjoin.symm.trans hj)
  have hthere {j : HandleId} (hj : r = some j) : (s.heap.content? (.handle j)).isSome :=
    hs.isSome (Session.mem_holds_of_reference (hr hj))
  have hsound := hs.stands.here.sound
  refine ⟨hbegins, hadds, fun j hj ↦ hloose j (hr hj), fun j hj w hw ↦ ?_, .inl ?_⟩
  · have hw₀ := hadds.quiet.valueOf?_earlier hsound (hs.stands.here.born (hthere hj)) hw
    have hbrings : s.brings (.reference name) = w.holds := by
      rw [Session.brings, hr hj, Option.join_some, Option.bind_some, hw₀]
      rfl
    rw [Argument.source, hbrings]
    exact (Session.Follows.refl s w.holds).quiet hsound
      (hbrings ▸ hs.isSome_of_brings (.reference name)) hadds.quiet
  · rw [Session.argument?, ← hjoin, hadds.shownBy hsound fun j hj ↦ hthere hj]

/-- The value of an operand that is passed as an argument, in a new variable. -/
theorem Begins.receiveOperand {α : Type} {x : Operand Obj} {f : HandleId → SessionM Obj α}
    (hs : c.Begins xs [] s) (hx : c.Suits s x)
    (hf : ∀ i h, c.Received xs s (.operand x) (some i) h →
      c.Performs xs (f i) { s with heap := h }) :
    c.Performs xs (Session.operandCopy x >>= fun v ↦ Session.onHeap (Heap.bindNew v) >>= f) s := by
  refine hs.operandCopy hx fun v h hadds hbegins hm hoffers hfollows ↦ ?_
  refine Leads.bind (hbegins.stands.ends_onHeap (hbegins.stands.here.bindNew hm)) ?_
  rintro i _ ⟨h₁, rfl, ha, hg, hvalue, hnew⟩
  have hsole := hbegins.sole.grows_unset hbegins.stands.here hg
  refine hf i h₁ ⟨hbegins.withHeap ha.settle hg.toAdds hsole, hadds.trans hg.toAdds,
    fun j hj l ht ↦ ?_, fun j hj w hw ↦ ?_, ?_⟩
  · cases hj
    exact hbegins.stands.here.not_born hnew (tied_born ht).1
  · cases hj
    obtain rfl := Option.some.inj (hvalue.symm.trans hw)
    refine hfollows.quiet hbegins.stands.here.sound (fun y hy ↦ ?_) hg.quiet
    exact hbegins.stands.isSome (.inl (List.mem_append_left _ hy))
  · rw [Heap.shownBy, Option.map_some, Option.getD_some, Heap.shown_eq hvalue]
    exact hoffers

/-- **An operation with the arguments of a call.**  The induction is on the arguments: while the
first one is held, the others are brought in. -/
theorem Begins.withArguments {α : Type} {args : List (Argument Obj)}
    {act : List (Option HandleId) → SessionM Obj α} (hs : c.Begins xs [] s)
    (hargs : ∀ x, .operand x ∈ args → c.Suits s x)
    (hloose : ∀ name, .reference name ∈ args → c.Loose s name)
    (hact : ∀ params os zs h, c.Passed s args params os zs h →
      (c.withOutside os).Performs zs (act params) { s with heap := h }) :
    c.Performs xs (Session.withArguments args act) s := by
  induction args generalizing c xs s act with
  | nil => exact hact [] c.outside xs s.heap hs.passed_nil
  | cons arg args ih =>
    have hrest (r : Option HandleId) (h : Heap Obj) (hr : c.Received xs s arg r h) :
        c.Performs xs (Session.during (referenceHolds r)
          (Session.withArguments args fun rs ↦ act (r :: rs))) { s with heap := h } :=
      Performs.during <| ih hr.begins.widen
        (fun x hx ↦ (hargs x (List.mem_cons_of_mem _ hx)).later _ h)
        (fun name hname ↦ hloose name (List.mem_cons_of_mem _ hname))
        fun params os zs h' hpassed ↦ hact (r :: params) os zs h' (hr.cons hs hpassed)
    cases arg with
    | reference name => exact hs.receiveReference (hloose name List.mem_cons_self) hrest
    | operand x =>
      exact hs.receiveOperand (hargs x List.mem_cons_self) fun i h ↦ hrest (some i) h

end Scene
end ScriptHeap
