import ScriptHeap.Proofs.Heap.Serving
import ScriptHeap.Proofs.Session.Refusals

/-!
# Host objects of every kind

A host object says of which kind it is, and it may name a kind of the core.  Operations on a
variable look at the kind that is named in some places and at the value itself in others.  Where the
kind that an object names has no rules of its own, the object is treated as an object; where it has,
the object is taken for an array, a struct or a string, and what the operation was to do is not
done: a sum is not stored, a value that was to be an element is given back as if it were one, and a
call of a built-in method does not reach the object.

## What is here

* `Heap.ShowsObject` — a variable that shows a host object.
* `Heap.opposed`, `Heap.Swallows` — what an operator gives for an object, and where that is lost.
* `Heap.elementReply` — what the assignment of an element answers.
* `Heap.object_operations`, the payoff.
-/

set_option autoImplicit false
namespace ScriptHeap

variable {Obj : Type}

namespace Heap

variable {h g k : Heap Obj} {xs ys : List Hold} {i : HandleId} {v w : Value Obj}

section
variable [HostObject Obj]

/-! ## Host objects in variables -/

variable {o : HostValue Obj}

/-- Somebody outside has a variable that shows a host object. -/
structure ShowsObject (h : Heap Obj) (xs : List Hold) (i : HandleId) (o : HostValue Obj) :
    Prop where
  sound : h.Sound xs
  held : .handle i ∈ xs
  value : h.valueOf? i = some (.object o)

/-- Whatever is held from outside and does not lead to a variable shows what it showed. -/
def UntouchedPast (h : Heap Obj) (xs : List Hold) (i : HandleId) (g : Heap Obj) : Prop :=
  ∀ r : Root Obj, (∀ y ∈ r.holds, y ∈ xs) → ¬ r.Reaches h i → r.Same h g

theorem untouchedPast_of_at {hs : h.Sound xs} (ha : (Scene.onHandle hs i).At [] ys g) :
    h.UntouchedPast xs i g := by
  intro r hr hclear
  refine Root.same_of_shape fun y hy depth ↦ ?_
  have hapart : ¬ h.Reaches y (.handle i) := fun hreach ↦ hclear ⟨y, hy, hreach⟩
  have hremote : (Scene.onHandle hs i).Remote y := .onHandle hs (hr y hy) hapart
  refine shape_eq_of_clear (ha.kept y (hremote.looks g)) (fun j hj hreach ↦ ?_) depth
  exact (hapart ((show j = i from hj) ▸ hreach)).elim

omit [HostObject Obj] in
theorem Untouched.trans (hg : h.Untouched xs g) (hk : g.Untouched ys k) (hxs : xs ⊆ ys) :
    h.Untouched xs k :=
  fun r hr ↦ (hg r hr).trans (hk r fun y hy ↦ hxs (hr y hy))

/-- The own block of a variable that shows an object. -/
theorem own_object {c : Scene Obj} (ht : c.Target i) (hlax : c.Lax) (ha : c.At [] ys h)
    (hcalm : c.Calm h) (hv : h.valueOf? i = some (.object o)) :
    Serves (own i) h fun b g ↦ c.At [] ys g ∧ c.Owned g b (.object o) :=
  (Serves.of_ends (ht.own ha hcalm hv fun hone ↦ (hlax.not_single hone).elim) hlax.named
    (unhurried_own i)).mono (fun _ _ hh ↦ ⟨hh.1, hh.2.2.1⟩) fun _ _ hf ↦ hf

/-- The object written once more into its block. -/
theorem rewrite_object {c : Scene Obj} {b : BlockId} (ha : c.At [] ys h)
    (ho : c.Owned h b (.object o)) : c.At [] ys (h.withValue b (.object o)) := by
  refine (ha.withSame ho rfl (fun _ ↦ alike_of_content fun x ↦ ?_)
    (fun _ _ ↦ matched_scalar _) fun _ he ↦ he).1
  rw [content?, (changes_withValue ho.cell? _).cell]
  split
  · rename_i hx
    rw [hx, content?_block.2 ho.value]
    rfl
  · rfl

/-! ## Operators -/

/-- What an operator gives for a host object on its left. -/
def opposed (op : Operator) (o : HostValue Obj) : Value Obj → Value Obj
  | .error text => .error text
  | v => .undefinedPair op (.object o) v

theorem operate_object (op : Operator) (o : HostValue Obj) (v : Value Obj) (h : Heap Obj) :
    operate op (.object o) v h = .ok (opposed op o v) h := by
  have hnone (s : Scalar Obj) : Scalar.operate? op (.object o) s = none := by
    cases op <;> cases s <;> rfl
  cases v with
  | scalar s =>
    cases s with
    | error text => rfl
    | _ => exact congrArg (fun r ↦ EStateM.Result.ok r h) (by rw [simpleResult, hnone]; rfl)
  | array l => rfl
  | struct names l => rfl

theorem holds_opposed (op : Operator) (o : HostValue Obj) (v : Value Obj) :
    (opposed op o v).holds = [] := by
  unfold opposed
  split <;> rfl

/-- A sum is not stored: the object says that it is an array. -/
def Swallows (op : Operator) (o : HostValue Obj) (v : Value Obj) : Prop :=
  op = .add ∧ v.isError = false ∧ (Value.object o).kind = .array

/-- The condition under which something is added to an array in place. -/
theorem adds_iff {op : Operator} :
    (op = .add && !v.isError && (Value.object o).kind == .array) = true ↔ Swallows op o v := by
  simp [Swallows, and_assoc]

/-- **What an operator gives is stored** unless the object says that it is an array. -/
theorem ShowsObject.stored (ho : h.ShowsObject xs i o) {op : Operator} (hop : ¬ Swallows op o v) :
    Serves (operateInPlace op i v) h fun _ g ↦
      g.valueOf? i = some (opposed op o v) ∧ h.UntouchedPast xs i g := by
  have hread : (read i : HeapM Obj (Value Obj)) h = .ok (.object o) h := look_eq ho.value
  have hrun : operateInPlace op i v h = setValue i (opposed op o v) h := by
    refine (bind_of_ok hread).trans ?_
    rw [if_neg (mt adds_iff.1 hop)]
    exact (bind_of_ok hread).trans (bind_of_ok (operate_object op o v h))
  have ha : (Scene.onHandle ho.sound i).At [] ((opposed op o v).holds ++ []) h := by
    rw [holds_opposed]
    exact .onHandle ho.sound i
  have hplaced := ha.setValue (i := i) nofun ho.held ((Scene.Calm.onHandle ho.sound i).fullAt i) id
    (.of_nil (holds_opposed op o v) _ _) fun _ ↦ id
  have hshows := ha.setValue_shows (i := i) nofun ho.held
  have hboth := (hplaced fun hu ↦ hu.elim).and hshows
  refine Ends.congr hrun (Serves.of_ends (c := Scene.onHandle ho.sound i)
    (hboth.mono ?_ fun _ _ hf ↦ hf.1) trivial (unhurried_setValue i _))
  rintro _ g ⟨hat, hvalue, -⟩
  exact ⟨hvalue, untouchedPast_of_at (hat (Scene.free_of_blocked rfl h))⟩

/-- **A sum is lost** where the object says that it is an array. -/
theorem ShowsObject.swallowed (ho : h.ShowsObject xs i o) {op : Operator} (hv : h.Backed xs v)
    (hop : Swallows op o v) :
    Serves (operateInPlace op i v) h fun _ g ↦ h.Untouched xs g := by
  have hread : (read i : HeapM Obj (Value Obj)) h = .ok (.object o) h := look_eq ho.value
  let c := Scene.reading ho.sound i
  have ha : c.At [] [] h := .reading ho.sound i
  have hlax : c.Lax := .reading ho.sound i
  rw [operateInPlace]
  refine Ends.after hread ?_
  rw [if_pos (adds_iff.2 hop)]
  refine Ends.bind (Serves.of_ends (ha.addition hv False.elim) hlax.named (unhurried_addition v)) ?_
  rintro added h₁ ⟨ha₁, hadds, -⟩
  have hcalm : c.Calm h₁ := (Scene.Calm.reading ho.sound i).adds hadds fun j l ht ↦
    (hlax.not_tied j l ht).elim
  refine Ends.bind (ends_holding (own_object (.reading ho.sound ho.held) hlax ha₁.settleAll hcalm
    (hadds.valueOf? ho.sound ho.value))) ?_
  rintro b h₂ ⟨ha₂, howned⟩
  refine .after (look_eq howned.value) (Ends.bind ha₂.letGo.ends ?_)
  rintro - h₃ ⟨ha₃, -⟩
  exact .pure (untouched_of_at ha₃)

/-! ## Elements -/

/-- What the assignment of an element to a host object answers.  An object that says that it is an
array has no elements, and the value is given back as if it had been stored. -/
def elementReply (o : HostValue Obj) (index : Int32) (v : Value Obj) : Value Obj :=
  if (Value.object o).kind ≠ .array then
    .error (Operator.undefinedFor "[]" (Value.object o).kind.name)
  else
    match fromOne? index with
    | none => .error indexOutOfBounds
    | some place => if fillLimit < place then .error indexTooFar else v

/-- A new handle for an error. -/
theorem ShowsObject.answers (ho : h.ShowsObject xs i o) (text : String) :
    Serves (bindNew (.error text)) h fun r g ↦
      h.Untouched xs g ∧ g.valueOf? r = some (.error text) := by
  let c := Scene.reading ho.sound i
  have ha : c.At [] ((Value.error text : Value Obj).holds ++ []) h := .reading ho.sound i
  refine (Serves.of_ends (ha.bindNew nofun) trivial (unhurried_bindNew _)).mono ?_ fun _ _ hf ↦ hf
  rintro r g ⟨ha₁, -, hr, -⟩
  exact ⟨untouched_of_at ha₁.settle, hr⟩

/-- An object that says that it is an array gives a value back that was to be its element. -/
theorem ShowsObject.givesBack (ho : h.ShowsObject xs i o) (hv : h.Backed xs v)
    {next : BlockId → HandleId → HeapM Obj HandleId}
    (hnext : ∀ b r g, g.valueAt? b = some (.object o) → next b r g = .ok r g) :
    Serves (do
        let fresh ← bindNew (← copy v)
        let b ← holding [.handle fresh] (own i)
        next b fresh) h fun r g ↦
      h.Untouched xs g ∧
        ∀ depth, (g.valueOf? r).map (outline depth g) = some (outline depth h v) := by
  let c := Scene.reading ho.sound i
  have ha : c.At [] [] h := .reading ho.sound i
  have hthere := ha.isSome_of_given hv
  refine (ha.copy hthere).bind ?_
  rintro _ h₁ ⟨rfl, ha₁, hg₁⟩
  refine Ends.bind (Serves.of_ends (ha₁.bindNew nofun) trivial (unhurried_bindNew _)) ?_
  rintro e h₂ ⟨ha₂, hg₂, he, -⟩
  have hadds := hg₁.toAdds.trans hg₂.toAdds
  -- from here on nobody is to see a change of the new handle either
  have hs₂ : h₂.Sound (.handle e :: xs) := ha₂.settle.sound
  have ho₂ : h₂.ShowsObject (.handle e :: xs) i o :=
    ⟨hs₂, List.mem_cons_of_mem _ ho.held, hadds.valueOf? ho.sound ho.value⟩
  refine Ends.bind (ends_holding (own_object (.reading hs₂ ho₂.held) (.reading hs₂ i)
    (.reading hs₂ i) (.reading hs₂ i) ho₂.value)) ?_
  rintro b h₃ ⟨ha₃, howned⟩
  have hkept := untouched_of_at ha₃
  refine .of_ok (hnext b e h₃ howned.value)
    ⟨(untouched_of_at ha₂.settle).trans hkept (List.subset_cons_self _ _), ?_⟩
  intro depth
  have hsame : (h₃.valueOf? e).map (outline depth h₃) = (h₂.valueOf? e).map (outline depth h₂) :=
    hkept (.handle e) (fun y hy ↦ List.mem_singleton.1 hy ▸ List.mem_cons_self) depth
  rw [hsame, he, Option.map_some, hadds.outline ho.sound ha₂.sound hthere]

/-- **Nothing is stored** in a variable that shows an object when an element of it is assigned. -/
theorem ShowsObject.assignElement (ho : h.ShowsObject xs i o) (index : Int32)
    (hv : h.Backed xs v) (keep : Bool) :
    Serves (assignElement i index v keep) h fun r g ↦
      h.Untouched xs g ∧ ∀ depth, (g.valueOf? r).map (outline depth g) =
        some (outline depth h (elementReply o index v)) := by
  have hread : (read i : HeapM Obj (Value Obj)) h = .ok (.object o) h := look_eq ho.value
  have herror (text : String) : Serves (bindNew (.error text)) h fun r g ↦
      h.Untouched xs g ∧ ∀ depth, (g.valueOf? r).map (outline depth g) =
        some (outline depth h (.error text)) := by
    refine (ho.answers text).mono (fun r g hr ↦ ⟨hr.1, fun depth ↦ ?_⟩) fun _ _ hf ↦ hf
    rw [hr.2, Option.map_some, outline_scalar, outline_scalar]
  unfold Heap.assignElement elementReply
  refine .after hread ?_
  by_cases hkind : (Value.object o).kind = .array
  · rw [if_neg (not_not.2 hkind), if_neg (by simp [hkind])]
    cases hplace : fromOne? index with
    | none => exact herror _
    | some place =>
      refine .after hread (.after (a := 0) rfl ?_)
      dsimp only
      rw [Nat.sub_zero]
      split
      · exact herror _
      · refine ho.givesBack hv fun b r g hb ↦ ?_
        have hblock : (readBlock b : HeapM Obj (Value Obj)) g = .ok (.object o) g := look_eq hb
        exact bind_of_ok hblock
  · rw [if_pos hkind, if_pos (by simpa using hkind)]
    exact herror _

/-! ## Counting up and walking -/

/-- To count an object up changes nothing. -/
theorem ShowsObject.increment (ho : h.ShowsObject xs i o) :
    Serves (Heap.increment i) h fun _ g ↦ h.Untouched xs g := by
  have ha : (Scene.reading ho.sound i).At [] [] h := .reading ho.sound i
  rw [Heap.increment]
  refine .after (look_eq ho.value) ?_
  split
  · refine Ends.bind (own_object (.reading ho.sound ho.held) (.reading ho.sound i) ha
      (.reading ho.sound i) ho.value) ?_
    rintro b g ⟨ha₁, howned⟩
    exact .after (look_eq howned.value) (.of_ok rfl (untouched_of_at (rewrite_object ha₁ howned)))
  · exact .pure (untouched_of_at ha)

/-- There is nothing to walk over. -/
theorem ShowsObject.newCursor? (ho : h.ShowsObject xs i o) (bound : Option HandleId) :
    Serves (Heap.newCursor? i bound) h fun r g ↦ r = none ∧ h.Untouched xs g := by
  have ha : (Scene.reading ho.sound i).At [] [] h := .reading ho.sound i
  rw [Heap.newCursor?]
  refine .after (look_eq ho.value) ?_
  dsimp only
  split
  · refine Ends.bind (own_object (.reading ho.sound ho.held) (.reading ho.sound i) ha
      (.reading ho.sound i) ho.value) ?_
    rintro b g ⟨ha₁, howned⟩
    have hblock : (readBlock b : HeapM Obj (Value Obj)) g = .ok (.object o) g :=
      look_eq howned.value
    have hlist : ownListIn b g = .ok none g := bind_of_ok hblock
    exact .after hlist (.pure ⟨rfl, untouched_of_at ha₁⟩)
  · exact .pure ⟨rfl, untouched_of_at ha⟩

/-! ## Calls -/

/-- The kinds whose built-in methods are called for an object that names them. -/
def callKinds : List Kind :=
  [.array, .struct, .string]

/-- The methods that structs have and that answer for an object, too. -/
def structReplies : List Method :=
  [.exists, .erase, .keys]

/-- **A forced call** gives what the dispatch gives for the values of the arguments, or is refused
where that gives nothing.  What is said of the heap after the dispatch has to outlast the letting go
of these values. -/
theorem forcedCall {c : Scene Obj} (hlax : c.Lax) (ha : c.At [] [] h) (hcalm : c.Calm h)
    (hv : h.valueOf? i = some (.object o)) (m : Method) {caller : Caller Obj}
    (hparams : ∀ j, some j ∈ caller.params → .handle j ∈ c.outside)
    {P : Option (Value Obj) → Heap Obj → Prop}
    (hlasts : ∀ {r s t xs zs}, s.Sound xs → s.Released t zs → c.outside ⊆ zs → P r s → P r t)
    (hdispatch : ∀ g ys, c.At [] ((caller.params.map h.shownBy).flatMap Value.holds ++ ys) g →
      c.Calm g → g.valueOf? i = some (.object o) →
      Serves (dispatch i m (caller.params.map h.shownBy)) g fun r t ↦
        c.At [] ((r.map Value.holds).getD [] ++
          ((caller.params.map h.shownBy).flatMap Value.holds ++ ys)) t ∧ P r t) :
    Serves (Heap.callBuiltin i m caller true) h fun out t ↦
      c.At [] (Scene.outcomeHolds out ++ []) t ∧ ∃ r, P r t ∧
        out.result = r.elim (.error (.unsupported (Value.object o).kind m)) .ok := by
  have hargs := ha.argumentValues (x := .handle i) (fun j hj ↦ ⟨hparams j hj, hlax.not_tied j⟩)
    (fun _ _ _ _ hac ↦ (hlax.not_acyclic hac).elim) hcalm.sole
  rw [Heap.callBuiltin]
  refine .after (look_eq hv) (hargs.bind ?_)
  rintro args h₁ ⟨ha₁, hg₁, -, -, hsole₁, rfl⟩
  generalize caller.params.map h.shownBy = args at ha₁ hdispatch
  have hv₁ := hg₁.valueOf? hv
  have hcalm₁ := hcalm.adds hg₁.toAdds hsole₁
  -- the values of the arguments are held until there is an answer
  refine Ends.bind (ends_holding (?_ : Ends _ h₁ (fun out t ↦
    c.At [] (Scene.outcomeHolds out ++ (args.flatMap Value.holds ++ [])) t ∧ ∃ r, P r t ∧
      out.result = r.elim (.error (.unsupported (Value.object o).kind m)) .ok) _)) ?_
  · refine .after (look_eq hv₁) (Ends.bind (hdispatch h₁ [] ha₁ hcalm₁ hv₁) ?_)
    rintro r g ⟨ha₂, hp⟩
    cases r with
    | some w => exact .pure ⟨ha₂, some w, hp, rfl⟩
    | none => exact .pure ⟨ha₂, none, hp, rfl⟩
  · rintro out g ⟨ha₂, r, hp, hresult⟩
    obtain ⟨ha₃, hr⟩ := (ha₂.perm (List.perm_append_comm_assoc _ _ _)).release
    refine .after rfl (.pure ⟨ha₃, r, hlasts ha₂.sound hr (fun y hy ↦ ?_) hp, hresult⟩)
    exact List.mem_append_right _ (List.mem_append_right _ hy)

/-- A method of structs, called for an object. -/
theorem structMethod_object {c : Scene Obj} (hlax : c.Lax) (ha : c.At [] ys h)
    (hv : h.valueOf? i = some (.object o)) (m : Method) (args : List (Value Obj)) :
    Serves (structMethod i m args) h fun r g ↦
      c.At [] ((r.map Value.holds).getD [] ++ ys) g ∧ (r.isSome ↔ m ∈ structReplies) := by
  have hread : (read i : HeapM Obj (Value Obj)) h = .ok (.object o) h := look_eq hv
  have hscalar (hm : m ∈ structReplies) (s : Scalar Obj) :
      Serves (pure (some (.scalar s)) : HeapM Obj (Option (Value Obj))) h fun r g ↦
        c.At [] ((r.map Value.holds).getD [] ++ ys) g ∧ (r.isSome ↔ m ∈ structReplies) :=
    .pure ⟨ha, by simp [hm]⟩
  cases m with
  | «exists» =>
    unfold structMethod
    dsimp only
    split
    · exact .after hread (hscalar (by decide) _)
    · exact hscalar (by decide) _
    · exact hscalar (by decide) _
  | erase =>
    unfold structMethod
    dsimp only
    split
    · exact .after (bind_of_ok hread) (hscalar (by decide) _)
    · exact hscalar (by decide) _
    · exact hscalar (by decide) _
  | keys =>
    have hnone : c.At [] (([] : List (Value Obj)).flatMap Value.holds ++ ys) h := ha
    have hnew := Serves.of_ends (hnone.newArray nofun) hlax.named fun _ ↦ trivial
    refine .after hread (Ends.bind hnew fun v g hg ↦ .pure ⟨hg.1, by simp [structReplies]⟩)
  | size => exact .after hread (.pure ⟨ha, by simp [structReplies]⟩)
  | _ => exact .pure ⟨ha, by simp [structReplies]⟩

/-- An object answers as a struct does. -/
def RepliesAsStruct (o : HostValue Obj) (m : Method) : Prop :=
  (Value.object o).kind = .struct ∧ m ∈ structReplies

/-- **The object is not asked** by the method of another kind. -/
theorem dispatch_unasked {c : Scene Obj} (ht : c.Target i) (hlax : c.Lax) (ha : c.At [] ys h)
    (hcalm : c.Calm h) (hv : h.valueOf? i = some (.object o))
    (hkind : (Value.object o).kind ∈ callKinds) (m : Method) (args : List (Value Obj)) :
    Serves (dispatch i m args) h fun r g ↦
      c.At [] ((r.map Value.holds).getD [] ++ ys) g ∧ (r.isSome ↔ RepliesAsStruct o m) := by
  have hread : (read i : HeapM Obj (Value Obj)) h = .ok (.object o) h := look_eq hv
  unfold dispatch RepliesAsStruct
  refine .after hread (.after hread ?_)
  generalize (Value.object o).kind = kind at hkind
  cases kind with
  | array =>
    refine Ends.bind (own_object ht hlax ha hcalm hv) ?_
    rintro b g ⟨ha₁, howned⟩
    exact .after (look_eq howned.value) (.pure ⟨ha₁, by simp⟩)
  | struct =>
    exact (structMethod_object hlax ha hv m args).mono (fun r g hr ↦ by simpa using hr)
      fun _ _ hf ↦ hf
  | string => exact .pure ⟨ha, by simp⟩
  | _ => exact absurd hkind (by decide)

/-- What a call leaves that did not reach the object. -/
structure Unasked (c : Scene Obj) (ys : List Hold) (o : HostValue Obj) (m : Method)
    (out : CallOutcome Obj) (g : Heap Obj) : Prop where
  here : c.At [] (Scene.outcomeHolds out ++ ys) g
  replies : RepliesAsStruct o m → ∃ w, out.result = .ok w
  refuses : ¬ RepliesAsStruct o m → out.result = .error (.unsupported (Value.object o).kind m)

/-- **A forced call of a built-in method** does not reach an object that names a kind with methods.
-/
theorem ShowsObject.callBuiltin (ho : h.ShowsObject xs i o) (m : Method) {caller : Caller Obj}
    (hparams : ∀ j, some j ∈ caller.params → .handle j ∈ xs)
    (hkind : (Value.object o).kind ∈ callKinds) :
    Serves (callBuiltin i m caller true) h (Unasked (.reading ho.sound i) [] o m) := by
  have hlax : (Scene.reading ho.sound i).Lax := .reading ho.sound i
  refine (forcedCall (P := fun r _ ↦ r.isSome ↔ RepliesAsStruct o m) hlax (.reading ho.sound i)
    (.reading ho.sound i) ho.value m hparams (fun _ _ _ hp ↦ hp) fun g ys ha hcalm hv ↦
      dispatch_unasked (.reading ho.sound ho.held) hlax ha hcalm hv hkind m _).mono ?_
    fun _ _ hf ↦ hf
  rintro out t ⟨ha, r, hsome, hresult⟩
  refine ⟨ha, fun hreplies ↦ ?_, fun hnot ↦ ?_⟩
  · obtain ⟨w, rfl⟩ := Option.isSome_iff_exists.1 (hsome.2 hreplies)
    exact ⟨w, hresult⟩
  · obtain rfl := Option.not_isSome_iff_eq_none.1 (mt hsome.1 hnot)
    exact hresult

/-- What an object answers to a call of a method of its own. -/
def hostReply (o : HostValue Obj) (name : String) (args : List (Value Obj)) : Option (Value Obj) :=
  match (HostObject.call o.object name args).1 with
  | some (.scalar s) => some (.scalar s)
  | some (.argument n) => args[n]?
  | none => none

/-- An object after a call of a method of its own. -/
def afterCall (o : HostValue Obj) (name : String) (args : List (Value Obj)) : HostValue Obj :=
  { o with object := (HostObject.call o.object name args).2 }

/-- **The object is asked.** -/
theorem hostMethod_object {c : Scene Obj} {b : BlockId} (ha : c.At [] ys h) (hunseen : ¬ c.unseen)
    (ho : c.Owned h b (.object o)) (hi : h.blockOf? i = some b) (name : String)
    {args : List (Value Obj)} (hargs : ∀ w ∈ args, c.Given ys w) :
    Runs (hostMethod b name args) h fun r g ↦
      c.At [] ((r.map Value.holds).getD [] ++ ys) g ∧ r = hostReply o name args ∧
        g.valueOf? i = some (.object (afterCall o name args)) := by
  unfold hostMethod hostReply afterCall
  refine .after (look_eq ho.value) ?_
  dsimp only
  generalize HostObject.call o.object name args = answer
  obtain ⟨reply, object⟩ := answer
  obtain ⟨ha₁, howned, -⟩ := ha.withSame (w := .object { o with object := object }) ho rfl
    (fun hu ↦ (hunseen hu).elim) (fun _ _ ↦ matched_scalar _) fun _ he ↦ (nomatch he)
  have hblock : (h.withValue b (.object { o with object := object })).blockOf? i = some b := hi
  have hvalue : (h.withValue b (.object { o with object := object })).valueOf? i =
      some (.object { o with object := object }) := by
    rw [valueOf?, hblock, Option.bind_some, howned.value]
  refine .after (t := h.withValue b (.object { o with object := object })) rfl ?_
  cases reply with
  | none => exact .pure ⟨ha₁, rfl, hvalue⟩
  | some reply =>
    cases reply with
    | scalar s => exact .pure ⟨ha₁, rfl, hvalue⟩
    | argument n =>
      dsimp only
      cases harg : args[n]? with
      | none => exact .pure ⟨ha₁, rfl, hvalue⟩
      | some w =>
        refine (ha₁.copy (ha₁.isSome_of_given (hargs w (List.mem_of_getElem? harg)))).andThen ?_
        rintro _ g ⟨rfl, ha₂, hg₂⟩
        exact .pure ⟨ha₂, rfl, hg₂.valueOf? hvalue⟩

/-- **The object is asked** where no kind with methods is named. -/
theorem dispatch_asked {c : Scene Obj} (ht : c.Target i) (hlax : c.Lax) (hunseen : ¬ c.unseen)
    (ha : c.At [] ys h) (hcalm : c.Calm h) (hv : h.valueOf? i = some (.object o))
    (hkind : (Value.object o).kind ∉ callKinds) (m : Method) {args : List (Value Obj)}
    (hargs : ∀ w ∈ args, c.Given ys w) :
    Serves (dispatch i m args) h fun r g ↦
      c.At [] ((r.map Value.holds).getD [] ++ ys) g ∧ r = hostReply o m.name args ∧
        g.valueOf? i = some (.object (afterCall o m.name args)) := by
  have hown := Serves.of_ends (ha.own hcalm (ht.mem ys) (ht.free h) hv fun hone ↦
    (hlax.not_single hone).elim) hlax.named (unhurried_own i)
  refine Ends.congr (dispatch_object hv hkind) (Ends.bind hown ?_)
  rintro b g ⟨ha₁, -, hi, howned, -⟩
  exact (hostMethod_object ha₁ hunseen howned hi m.name hargs).ends

theorem lax_onHandle (hs : h.Sound xs) (i : HandleId) : (Scene.onHandle hs i).Lax :=
  ⟨trivial, id, id, fun _ _ ↦ id⟩

/-- What a call leaves that the object has answered. -/
structure Asked (c : Scene Obj) (ys : List Hold) (i : HandleId) (o : HostValue Obj) (m : Method)
    (args : List (Value Obj)) (out : CallOutcome Obj) (g : Heap Obj) : Prop where
  here : c.At [] (Scene.outcomeHolds out ++ ys) g
  result : out.result =
    (hostReply o m.name args).elim (.error (.unsupported (Value.object o).kind m)) .ok
  changed : g.valueOf? i = some (.object (afterCall o m.name args))

/-- **A forced call of a built-in method** reaches an object that names no kind with methods, under
the name of the method. -/
theorem ShowsObject.callObject (ho : h.ShowsObject xs i o) (m : Method) {caller : Caller Obj}
    (hparams : ∀ j, some j ∈ caller.params → .handle j ∈ xs)
    (hkind : (Value.object o).kind ∉ callKinds) :
    Serves (Heap.callBuiltin i m caller true) h
      (Asked (.onHandle ho.sound i) [] i o m (caller.params.map h.shownBy)) := by
  let args := caller.params.map h.shownBy
  refine (forcedCall (P := fun r g ↦ r = hostReply o m.name args ∧
      g.valueOf? i = some (.object (afterCall o m.name args))) (lax_onHandle ho.sound i)
    (.onHandle ho.sound i) (.onHandle ho.sound i) ho.value m hparams ?_ fun g ys ha hcalm hv ↦
      dispatch_asked ⟨ho.held, rfl, fun _ _ ↦ False.elim⟩ (lax_onHandle ho.sound i) id ha hcalm hv
        hkind m (Scene.given_of_arguments ys)).mono ?_ fun _ _ hf ↦ hf
  · rintro r s t _ _ hs hr hsub ⟨hreply, hvalue⟩
    exact ⟨hreply, hr.quiet.valueOf? hs hr.sound hvalue (hr.sound.isSome_of_mem (hsub ho.held))⟩
  · rintro out t ⟨ha, r, ⟨rfl, hvalue⟩, hresult⟩
    exact ⟨ha, hresult, hvalue⟩

/-! ## The payoff -/

/-- **Operations on a variable that shows a host object**, whatever kind the object names.

An operator in place stores what the operator gives, and touches nothing that does not lead to the
variable.  The assignment of an element, counting up and a walk change nothing at all, and the
assignment answers with an error.  A forced call of a built-in method is answered by the object,
under the name of the method, with the values of the arguments.

Three things differ where the object names a kind of the core.  A sum is lost where it names the
kind of arrays, and a value that was to be an element is given back there.  Calls do not reach an
object that names the kind of arrays, structs or strings: they are refused, or answered as by a
struct. -/
theorem object_operations (ho : h.ShowsObject xs i o) :
    (∀ op v, h.Backed xs v →
      operate op (.object o) v h = .ok (opposed op o v) h ∧
        (¬ Swallows op o v → Serves (operateInPlace op i v) h fun _ g ↦
          g.valueOf? i = some (opposed op o v) ∧ h.UntouchedPast xs i g) ∧
        (Swallows op o v → Serves (operateInPlace op i v) h fun _ g ↦ h.Untouched xs g)) ∧
      (∀ index v keep, h.Backed xs v →
        Serves (Heap.assignElement i index v keep) h fun r g ↦
          h.Untouched xs g ∧ ∀ depth, (g.valueOf? r).map (outline depth g) =
            some (outline depth h (elementReply o index v))) ∧
      Serves (Heap.increment i) h (fun _ g ↦ h.Untouched xs g) ∧
      (∀ bound, Serves (Heap.newCursor? i bound) h fun r g ↦ r = none ∧ h.Untouched xs g) ∧
      ∀ (m : Method) (caller : Caller Obj), (∀ j, some j ∈ caller.params → .handle j ∈ xs) →
        ((Value.object o).kind ∉ callKinds →
          Serves (Heap.callBuiltin i m caller true) h fun out g ↦
            out.result = (hostReply o m.name (caller.params.map h.shownBy)).elim
              (.error (.unsupported (Value.object o).kind m)) .ok ∧
            g.valueOf? i = some (.object (afterCall o m.name (caller.params.map h.shownBy))) ∧
            h.UntouchedPast xs i g) ∧
        ((Value.object o).kind ∈ callKinds →
          Serves (Heap.callBuiltin i m caller true) h fun out g ↦
            h.Untouched xs g ∧ (RepliesAsStruct o m → ∃ w, out.result = .ok w) ∧
              (¬ RepliesAsStruct o m →
                out.result = .error (.unsupported (Value.object o).kind m))) := by
  refine ⟨fun op v hv ↦ ⟨operate_object op o v h, ho.stored, ho.swallowed hv⟩,
    fun index v keep hv ↦ ho.assignElement index hv keep, ho.increment, ho.newCursor?,
    fun m caller hparams ↦ ⟨fun hkind ↦ ?_, fun hkind ↦ ?_⟩⟩
  · refine (ho.callObject m hparams hkind).mono (fun out g hasked ↦ ?_) fun _ _ hf ↦ hf
    exact ⟨hasked.result, hasked.changed, untouchedPast_of_at hasked.here⟩
  · refine (ho.callBuiltin m hparams hkind).mono (fun out g hunasked ↦ ?_) fun _ _ hf ↦ hf
    exact ⟨untouched_of_at hunasked.here, hunasked.replies, hunasked.refuses⟩

end

end Heap

namespace Session

/-- A counter that names a kind, in a variable. -/
def counterOf (kind : Kind) : Session SampleObject :=
  ((start ⟨false, ⟨4, none⟩⟩).run
    [.bind "h" (.literal (.scalar (.object ⟨default, .counter 1 kind false⟩)))]).2

/-- A counter that says that it is a number: the sum is an error, and that is stored.  It answers
when it is asked for its size. -/
theorem object_operations_number :
    (∃ g, Heap.operateInPlace .add ⟨0⟩ (.integer 1) (counterOf .integer).heap = .ok () g ∧
        g.valueOf? ⟨0⟩ = some (.error "Operator + undefined for Integer and Integer")) ∧
      ∃ out g, Heap.callBuiltin ⟨0⟩ .size plainCaller true (counterOf .integer).heap = .ok out g ∧
        out.result = .ok (.integer 1) := by
  have ho : (counterOf .integer).heap.ShowsObject (counterOf .integer).holds ⟨0⟩
      ⟨default, .counter 1 .integer false⟩ :=
    ⟨(books_start _).run _, by decide +kernel, by cbv⟩
  have hall := Heap.object_operations ho
  obtain ⟨_, g, hrun, hstored, -⟩ := ((hall.1 .add (.integer 1) (List.forall_mem_nil _)).2.1
    fun hlost ↦ absurd hlost.2.2 (by decide)).exists_ok (by decide +kernel)
  obtain ⟨out, g', hcall, hreply, -⟩ := ((hall.2.2.2.2 .size plainCaller
    fun _ hj ↦ absurd hj List.not_mem_nil).1 (by decide)).exists_ok (by decide +kernel)
  exact ⟨⟨g, hrun, hstored⟩, out, g', hcall, hreply⟩

/-- **A write is lost.**  A counter says that it is an array.  The operator gives an error for it,
but after the operator in place the variable shows the counter as before; a value that is to be its
first element is no error but comes back; and its own method is refused. -/
theorem sum_lost :
    Heap.operate .add (.object ⟨default, .counter 1 .array false⟩) (.integer 1)
          (counterOf .array).heap =
        .ok (.error "Operator + undefined for Array and Integer") (counterOf .array).heap ∧
      ((counterOf .array).step
          (.operateInPlace .add "h" (.literal (.scalar (.integer 1))))).2.heap.valueOf? ⟨0⟩ =
        some (.object ⟨default, .counter 1 .array false⟩) ∧
      ((counterOf .array).step
          (.assignElement "h" 1 (.literal (.scalar (.integer 7))) false "e")).2.heap.valueOf? ⟨1⟩ =
        some (.integer 7) ∧
      Heap.resultOf (Heap.callBuiltin ⟨0⟩ .size plainCaller true (counterOf .array).heap) =
        some none := by
  refine ⟨by cbv, by cbv, by cbv, by cbv⟩

end Session
end ScriptHeap
