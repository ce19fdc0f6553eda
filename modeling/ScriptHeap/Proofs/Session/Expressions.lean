import ScriptHeap.Proofs.Heap.Serving
import ScriptHeap.Proofs.Session.Refusals

/-!
# Errors in expressions

In an expression the operands of an operator are expressions themselves: the left one is evaluated,
then the right one, then the operator is applied.  An operand that is an error is the result of the
operator, the left one first, so the first error that comes up is the result of the whole
expression, whatever the operators above it are.  An error that is only an element of a container
does not count.

## What is here

* `Expression`, `Expression.evaluate` — expressions and their values.
* `Expression.Evaluates` — an evaluation with the values of all parts, in the order in which they
  are found.
* `Expression.DifferAbove` — expressions with other operators above one of their parts.
* `Value.Resembles` — values that differ in texts or in what their elements show.
* `Expression.evaluate_errors`, the payoff.
-/

set_option autoImplicit false
namespace ScriptHeap

variable {Obj : Type}

/-- Values, and operators between two expressions. -/
inductive Expression (Obj : Type) where
  | value (v : Value Obj)
  | apply (op : Operator) (left right : Expression Obj)

namespace Expression

/-- The side of an operator on which an operand stands. -/
inductive Side where
  | left
  | right
  deriving DecidableEq, Repr

/-- The way from an expression down to one of its parts. -/
abbrev Place : Type :=
  List Side

/-- The values that an expression is made of. -/
def values : Expression Obj → List (Value Obj)
  | .value v => [v]
  | .apply _ left right => left.values ++ right.values

/-- The places of all parts: those on the left of an operator, then those on the right, then the
operator itself. -/
def places : Expression Obj → List Place
  | .value _ => [[]]
  | .apply _ left right => left.places.map (.left :: ·) ++ right.places.map (.right :: ·) ++ [[]]

/-- The value of a part of an expression, with its place. -/
abbrev Entry (Obj : Type) : Type :=
  Place × Value Obj

/-- The entries of an operator: those of its left operand, those of its right operand, its own. -/
def joined (as bs : List (Entry Obj)) (w : Value Obj) : List (Entry Obj) :=
  as.map (fun x ↦ (.left :: x.1, x.2)) ++ bs.map (fun x ↦ (.right :: x.1, x.2)) ++ [([], w)]

/-- The first entry that is an error. -/
def firstError? (log : List (Entry Obj)) : Option (Entry Obj) :=
  log.find? (·.2.isError)

theorem firstError?_map (f : Place → Place) (log : List (Entry Obj)) :
    firstError? (log.map fun x ↦ (f x.1, x.2)) =
      (firstError? log).map fun x ↦ (f x.1, x.2) := by
  rw [firstError?, List.find?_map]
  rfl

/-- The first error under an operator is that of its left operand, then that of its right operand,
then its own. -/
theorem firstError?_joined (as bs : List (Entry Obj)) (w : Value Obj) :
    firstError? (joined as bs w) =
      ((firstError? as).map fun x ↦ (.left :: x.1, x.2)).or
        (((firstError? bs).map fun x ↦ (.right :: x.1, x.2)).or (firstError? [([], w)])) := by
  rw [← firstError?_map, ← firstError?_map, joined]
  simp only [firstError?, List.find?_append, Option.or_assoc]

section
variable [HostObject Obj]

/-- The value of an expression, for the caller to hold.  Operands are held until the operator has
been applied. -/
def evaluate : Expression Obj → HeapM Obj (Value Obj)
  | .value v => Heap.copy v
  | .apply op left right => do
    let a ← left.evaluate
    let b ← Heap.holding a.holds right.evaluate
    let w ← Heap.holding (a.holds ++ b.holds) (Heap.operate op a b)
    Heap.letGo (a.holds ++ b.holds)
    return w

/-- An expression has a value, and its parts have theirs, in the order of evaluation. -/
inductive Evaluates :
    Expression Obj → Heap Obj → Value Obj → List (Entry Obj) → Heap Obj → Prop
  | value {v w : Value Obj} {h g : Heap Obj} (hcopy : Heap.copy v h = .ok w g) :
      Evaluates (.value v) h w [([], w)] g
  | apply {op : Operator} {left right : Expression Obj} {a b w : Value Obj}
      {as bs : List (Entry Obj)} {h h₁ h₂ g : Heap Obj} (hleft : Evaluates left h a as h₁)
      (hright : Evaluates right h₁ b bs h₂) (hop : Heap.operate op a b h₂ = .ok w g) :
      Evaluates (.apply op left right) h w (joined as bs w) (g.release (a.holds ++ b.holds))

variable {e e' left right : Expression Obj} {h h' g g' : Heap Obj} {a b v w w' : Value Obj}
  {log log' : List (Entry Obj)} {p : Place} {x : Entry Obj}

/-! ### Evaluations -/

theorem Evaluates.evaluate_eq (he : e.Evaluates h w log g) : e.evaluate h = .ok w g := by
  induction he with
  | value hcopy => exact hcopy
  | apply hleft hright hop ihleft ihright =>
    refine (bind_of_ok ihleft).trans ((bind_of_ok (tryCatch_of_ok ihright)).trans ?_)
    exact (bind_of_ok (tryCatch_of_ok hop)).trans rfl

theorem exists_evaluates (he : e.evaluate h = .ok w g) : ∃ log, e.Evaluates h w log g := by
  induction e generalizing h w g with
  | value v => exact ⟨_, .value he⟩
  | apply op left right ihleft ihright =>
    obtain ⟨a, h₁, hleft, he⟩ := bind_eq_ok_iff.1 he
    obtain ⟨b, h₂, hright, he⟩ := bind_eq_ok_iff.1 he
    obtain ⟨w', h₃, hop, he⟩ := bind_eq_ok_iff.1 he
    obtain ⟨as, hleft⟩ := ihleft hleft
    obtain ⟨bs, hright⟩ := ihright (Heap.ok_of_holding hright)
    cases he
    exact ⟨_, .apply hleft hright (Heap.ok_of_holding hop)⟩

/-- Every part has an entry. -/
theorem Evaluates.places_eq (he : e.Evaluates h w log g) : log.map Prod.fst = e.places := by
  induction he with
  | value hcopy => rfl
  | apply hleft hright hop ihleft ihright =>
    simp [joined, places, ← ihleft, ← ihright, Function.comp_def]

/-! ### The first error -/

theorem operate_error (op : Operator) (text : String) (b : Value Obj) (h : Heap Obj) :
    Heap.operate op (.error text) b h = .ok (.error text) h :=
  rfl

theorem operate_noError (op : Operator) (ha : a.isError = false) (text : String) (h : Heap Obj) :
    Heap.operate op a (.error text) h = .ok (.error text) h := by
  cases a with
  | scalar s => cases s <;> first | rfl | cases ha
  | array l => rfl
  | struct names l => rfl

omit [HostObject Obj] in
theorem exists_error (hv : v.isError = true) : ∃ text, v = .error text := by
  unfold Value.isError at hv
  split at hv
  · exact ⟨_, rfl⟩
  · cases hv

/-- An operator whose left operand is an error gives that error, whichever operator it is. -/
theorem operate_of_isError (op : Operator) (ha : a.isError = true) (b : Value Obj) (h : Heap Obj) :
    Heap.operate op a b h = .ok a h := by
  obtain ⟨text, rfl⟩ := exists_error ha
  exact operate_error op text b h

/-- An operator of whose operands the right one alone is an error gives that error. -/
theorem operate_of_right_isError (op : Operator) (ha : a.isError = false) (hb : b.isError = true)
    (h : Heap Obj) : Heap.operate op a b h = .ok b h := by
  obtain ⟨text, rfl⟩ := exists_error hb
  exact operate_noError op ha text h

/-- **The first error is the result.** -/
theorem Evaluates.firstError?_eq (he : e.Evaluates h w log g) :
    (firstError? log).map Prod.snd = if w.isError then some w else none := by
  induction he with
  | @value v w h g hcopy =>
    cases hw : w.isError <;> simp [firstError?, hw]
  | @apply op left right a b w as bs h h₁ h₂ g hleft hright hop ihleft ihright =>
    rw [firstError?_joined]
    cases ha : a.isError with
    | true =>
      rw [operate_of_isError op ha] at hop
      cases hop
      rw [if_pos ha] at ihleft
      obtain ⟨x, hx, rfl⟩ := Option.map_eq_some_iff.1 ihleft
      simp [hx, ha]
    | false =>
      rw [if_neg (by simp [ha])] at ihleft
      rw [Option.map_eq_none_iff.1 ihleft]
      cases hb : b.isError with
      | true =>
        rw [operate_of_right_isError op ha hb] at hop
        cases hop
        rw [if_pos hb] at ihright
        obtain ⟨x, hx, rfl⟩ := Option.map_eq_some_iff.1 ihright
        simp [hx, hb]
      | false =>
        rw [if_neg (by simp [hb])] at ihright
        rw [Option.map_eq_none_iff.1 ihright]
        cases hw : w.isError <;> simp [firstError?, hw]

theorem Evaluates.isError_of_firstError? (he : e.Evaluates h w log g)
    (hx : firstError? log = some (p, v)) : w.isError = true ∧ v = w := by
  have hfirst := he.firstError?_eq
  rw [hx, Option.map_some] at hfirst
  split at hfirst
  · rename_i hw
    exact ⟨hw, Option.some.inj hfirst⟩
  · cases hfirst

theorem Evaluates.noError_of_firstError? (he : e.Evaluates h w log g)
    (hx : firstError? log = none) : w.isError = false := by
  have hfirst := he.firstError?_eq
  rw [hx, Option.map_none] at hfirst
  split at hfirst
  · cases hfirst
  · rename_i hw
    simpa using hw

/-! ### Operators above an error -/

/-- Two expressions are the same but for the operators above one of their parts. -/
inductive DifferAbove : Place → Expression Obj → Expression Obj → Prop
  | here (e : Expression Obj) : DifferAbove [] e e
  | left {p : Place} {e e' : Expression Obj} (op op' : Operator) (right : Expression Obj)
      (hleft : DifferAbove p e e') :
      DifferAbove (.left :: p) (.apply op e right) (.apply op' e' right)
  | right {p : Place} {e e' : Expression Obj} (op op' : Operator) (left : Expression Obj)
      (hright : DifferAbove p e e') :
      DifferAbove (.right :: p) (.apply op left e) (.apply op' left e')

/-- **Operators above the first error do not matter**: the evaluation is the same with others. -/
theorem Evaluates.differAbove (he : e.Evaluates h w log g) (hx : firstError? log = some (p, v))
    (hdiffer : DifferAbove p e e') : e'.Evaluates h w log g := by
  induction he generalizing p v e' with
  | value hcopy =>
    cases hdiffer
    exact .value hcopy
  | @apply op left right a b w as bs h h₁ h₂ g hleft hright hop ihleft ihright =>
    rw [firstError?_joined] at hx
    cases has : firstError? as with
    | some y =>
      obtain ⟨q, u⟩ := y
      obtain ⟨rfl, rfl⟩ : p = .left :: q ∧ v = u := by simpa [has, eq_comm] using hx
      obtain ⟨ha, rfl⟩ := hleft.isError_of_firstError? has
      cases hdiffer with
      | left op op' right hd =>
        rw [operate_of_isError op ha] at hop
        exact .apply (ihleft has hd) hright ((operate_of_isError op' ha b h₂).trans hop)
    | none =>
      have ha := hleft.noError_of_firstError? has
      cases hbs : firstError? bs with
      | some y =>
        obtain ⟨q, u⟩ := y
        obtain ⟨rfl, rfl⟩ : p = .right :: q ∧ v = u := by simpa [has, hbs, eq_comm] using hx
        obtain ⟨hb, rfl⟩ := hright.isError_of_firstError? hbs
        cases hdiffer with
        | right op op' left hd =>
          rw [operate_of_right_isError op ha hb] at hop
          exact .apply hleft (ihright hbs hd) ((operate_of_right_isError op' ha hb h₂).trans hop)
      | none =>
        obtain rfl : p = [] := by
          rw [has, hbs] at hx
          have hmem := List.mem_of_find?_eq_some hx
          exact congrArg Prod.fst (List.mem_singleton.1 hmem)
        cases hdiffer with
        | here => exact .apply hleft hright hop

/-! ### Errors inside containers -/

end

end Expression

/-- Two values are the same but for the text of a string and for what a container shows: its
elements may be errors in one and anything else in the other. -/
inductive Value.Resembles : Value Obj → Value Obj → Prop
  | scalar (s : Scalar Obj) : Resembles (.scalar s) (.scalar s)
  | string (s t : String) : Resembles (.string s) (.string t)
  | array (l m : ListId) : Resembles (.array l) (.array m)
  | struct (names names' : List String) (l m : ListId) :
      Resembles (.struct names l) (.struct names' m)

namespace Value.Resembles

variable {v w : Value Obj}

theorem refl (v : Value Obj) : v.Resembles v := by
  cases v with
  | scalar s => exact .scalar s
  | array l => exact .array l l
  | struct names l => exact .struct names names l l

theorem isError_eq (h : v.Resembles w) : v.isError = w.isError := by
  cases h <;> rfl

/-- An error resembles nothing but itself. -/
theorem eq_of_isError (h : v.Resembles w) (hv : v.isError = true) : v = w := by
  cases h with
  | scalar s => rfl
  | _ => cases hv

theorem typeName_eq [HostObject Obj] (h : v.Resembles w) : v.typeName = w.typeName := by
  cases h <;> rfl

end Value.Resembles

namespace Expression

/-- Two expressions are the same but for values that resemble each other. -/
inductive Resembles : Expression Obj → Expression Obj → Prop
  | value {v v' : Value Obj} (hv : v.Resembles v') : Resembles (.value v) (.value v')
  | apply {left left' right right' : Expression Obj} (op : Operator)
      (hleft : Resembles left left') (hright : Resembles right right') :
      Resembles (.apply op left right) (.apply op left' right')

section
variable [HostObject Obj] {e e' : Expression Obj} {h h' g g' : Heap Obj}
  {a a' b b' w w' : Value Obj}

theorem array_of_extended {l : ListId} {added : List HandleId}
    (hrun : Heap.extended l added h = .ok w g) : ∃ m, w = .array m := by
  obtain ⟨-, h₁, -, hrun⟩ := bind_eq_ok_iff.1 hrun
  obtain ⟨m, h₂, -, hrun⟩ := bind_eq_ok_iff.1 hrun
  obtain ⟨is, h₃, -, hrun⟩ := bind_eq_ok_iff.1 hrun
  obtain ⟨-, h₄, -, hrun⟩ := bind_eq_ok_iff.1 hrun
  cases hrun
  exact ⟨m, rfl⟩

/-- An operator that adds nothing to an array. -/
theorem operate_eq_simpleResult {op : Operator} (ha : a.isError = false) (hb : b.isError = false)
    (hplain : ∀ l, a = .array l → op ≠ .add) :
    Heap.operate op a b h = .ok (h.simpleResult op a b) h := by
  unfold Heap.operate
  split
  · cases ha
  · cases hb
  · rw [if_neg (hplain _ rfl)]
    rfl
  · rfl

/-- What an operator gives for two scalars, an error where it has no rule for them. -/
theorem scalarResult_resembles (op : Operator) {s s' t t' : Scalar Obj}
    (hs : (Value.scalar s).Resembles (.scalar s')) (ht : (Value.scalar t).Resembles (.scalar t')) :
    (h.simpleResult op (.scalar s) (.scalar t)).Resembles
      (h'.simpleResult op (.scalar s') (.scalar t')) := by
  cases hs with
  | scalar s =>
    cases ht with
    | scalar t => exact .refl _
    | string u u' => cases op <;> cases s <;> first | exact .string _ _ | exact .scalar _
  | string u u' =>
    cases ht with
    | scalar t => cases op <;> cases t <;> first | exact .string _ _ | exact .scalar _
    | string v v' => cases op <;> first | exact .string _ _ | exact .scalar _

theorem undefinedPair_resembles (op : Operator) (ha : a.Resembles a') (hb : b.Resembles b') :
    (Value.undefinedPair op a b).Resembles (.undefinedPair op a' b') := by
  rw [Value.undefinedPair, ha.typeName_eq, hb.typeName_eq]
  exact .scalar _

/-- What an operator gives for a scalar and a container: a text, or an error that names both kinds.
-/
theorem containerResult_resembles (op : Operator) {s s' : Scalar Obj}
    (hs : (Value.scalar s).Resembles (.scalar s')) (hb : b.Resembles b')
    (hlist : b.list?.isSome) :
    (h.simpleResult op (.scalar s) b).Resembles (h'.simpleResult op (.scalar s') b') := by
  have hundefined := undefinedPair_resembles op hs hb
  cases hb with
  | scalar t => cases hlist
  | string t t' => cases hlist
  | _ =>
    cases hs with
    | scalar s =>
      cases s with
      | string u =>
        simp only [Heap.simpleResult]
        split
        · exact .string _ _
        · exact hundefined
      | _ => exact hundefined
    | string u u' =>
      simp only [Heap.simpleResult]
      split
      · exact .string _ _
      · exact hundefined

theorem simpleResult_resembles (op : Operator) (ha : a.Resembles a') (hb : b.Resembles b') :
    (h.simpleResult op a b).Resembles (h'.simpleResult op a' b') := by
  have hundefined := undefinedPair_resembles op ha hb
  cases ha with
  | array l m => exact hundefined
  | struct names names' l m => exact hundefined
  | scalar s =>
    cases hb with
    | scalar t => exact scalarResult_resembles op (.scalar s) (.scalar t)
    | string u u' => exact scalarResult_resembles op (.scalar s) (.string u u')
    | array l m => exact containerResult_resembles op (.scalar s) (.array l m) rfl
    | struct ns ns' l m => exact containerResult_resembles op (.scalar s) (.struct ns ns' l m) rfl
  | string v v' =>
    cases hb with
    | scalar t => exact scalarResult_resembles op (.string v v') (.scalar t)
    | string u u' => exact scalarResult_resembles op (.string v v') (.string u u')
    | array l m => exact containerResult_resembles op (.string v v') (.array l m) rfl
    | struct ns ns' l m =>
      exact containerResult_resembles op (.string v v') (.struct ns ns' l m) rfl

/-- What is added to an array makes an array. -/
theorem array_of_add {l : ListId} (hb : b.isError = false)
    (hrun : Heap.operate .add (.array l) b h = .ok w g) : ∃ m, w = .array m := by
  have hjoin : (do Heap.extended l (← Heap.addition b)) h = .ok w g := by
    cases b with
    | scalar s => cases s <;> first | exact hrun | cases hb
    | array m => exact hrun
    | struct names m => exact hrun
  obtain ⟨added, h₁, -, hextended⟩ := bind_eq_ok_iff.1 hjoin
  exact array_of_extended hextended

/-- **An operator looks at the operands only**, not at what is in them. -/
theorem operate_resembles (op : Operator) (ha : a.Resembles a') (hb : b.Resembles b')
    (hrun : Heap.operate op a b h = .ok w g) (hrun' : Heap.operate op a' b' h' = .ok w' g') :
    w.Resembles w' := by
  cases herror : a.isError with
  | true =>
    obtain rfl := ha.eq_of_isError herror
    cases (operate_of_isError op herror b h).symm.trans hrun
    cases (operate_of_isError op herror b' h').symm.trans hrun'
    exact .refl _
  | false =>
    have herror' := ha.isError_eq.symm.trans herror
    cases hright : b.isError with
    | true =>
      obtain rfl := hb.eq_of_isError hright
      cases (operate_of_right_isError op herror hright h).symm.trans hrun
      cases (operate_of_right_isError op herror' hright h').symm.trans hrun'
      exact .refl _
    | false =>
      have hright' := hb.isError_eq.symm.trans hright
      by_cases hadd : op = .add ∧ ∃ l, a = .array l
      · obtain ⟨rfl, l, rfl⟩ := hadd
        cases ha with
        | array l m =>
          obtain ⟨n, rfl⟩ := array_of_add hright hrun
          obtain ⟨n', rfl⟩ := array_of_add hright' hrun'
          exact .array n n'
      · have hplain (l : ListId) (hl : a = .array l) : op ≠ .add := fun hop ↦ hadd ⟨hop, l, hl⟩
        have hplain' (l : ListId) (hl : a' = .array l) : op ≠ .add := by
          subst hl
          cases ha with
          | array m _ => exact hplain m rfl
        cases (operate_eq_simpleResult herror hright hplain).symm.trans hrun
        cases (operate_eq_simpleResult herror' hright' hplain').symm.trans hrun'
        exact simpleResult_resembles op ha hb

theorem Evaluates.resembles {log log' : List (Entry Obj)} (he : e.Evaluates h w log g)
    (he' : e'.Evaluates h' w' log' g') (hsame : e.Resembles e') : w.Resembles w' := by
  induction he generalizing e' h' w' log' g' with
  | value hcopy =>
    cases hsame with
    | value hv =>
      cases he' with
      | value hcopy' =>
        cases hcopy
        cases hcopy'
        exact hv
  | apply hleft hright hop ihleft ihright =>
    cases hsame with
    | apply op hl hr =>
      cases he' with
      | apply hleft' hright' hop' =>
        exact operate_resembles _ (ihleft hleft' hl) (ihright hright' hr) hop hop'

/-! ### Results -/

theorem unhurried_evaluate (e : Expression Obj) : Heap.Unhurried e.evaluate := by
  induction e with
  | value v => exact Heap.unhurried_copy v
  | apply op left right ihleft ihright =>
    refine ihleft.bind fun a ↦ (ihright.holding _).bind fun b ↦ ?_
    refine ((Heap.unhurried_operate op a b).holding _).bind fun w ↦ ?_
    exact Heap.Unhurried.bind (fun _ ↦ trivial) fun _ ↦ .pure w

theorem ample_evaluate (e : Expression Obj) : Ample e.evaluate := by
  induction e with
  | value v => exact ample_copy v
  | apply op left right ihleft ihright =>
    refine ihleft.bind fun a ↦ (ihright.holding _).bind fun b ↦ ?_
    refine ((ample_operate op a b).holding _).bind fun w ↦ ?_
    exact (Ample.letGo _).bind fun _ ↦ .pure w

/-- **An expression has a value**, whatever else is held, and evaluating it changes nothing. -/
theorem ends_evaluate {c : Scene Obj} {ys : List Hold} (hirregular : ¬ c.regular)
    (ha : c.At [] ys h) (hvalues : ∀ v ∈ e.values, c.Given ys v) :
    Ends e.evaluate h (fun w g ↦ c.At [] (w.holds ++ ys) g) (c.Faults [] ys) := by
  induction e generalizing h ys with
  | value v =>
    refine (ha.copy (ha.isSome_of_given (hvalues v (List.mem_singleton_self v)))).ends.mono ?_
      fun _ _ hf ↦ hf
    rintro _ g ⟨rfl, ha₁, -⟩
    exact ha₁
  | apply op left right ihleft ihright =>
    refine (ihleft ha fun v hv ↦ hvalues v (List.mem_append_left _ hv)).bind ?_
    intro a h₁ ha₁
    refine (Scene.At.holding (ihright ha₁ fun v hv ↦ ?_)).bind ?_
    · exact (hvalues v (List.mem_append_right _ hv)).mono fun y hy ↦ List.mem_append_right _ hy
    intro b h₂ ha₂
    have ha₂' : c.At [] ((a.holds ++ b.holds) ++ ys) h₂ :=
      ha₂.perm (by rw [← List.append_assoc]; exact List.perm_append_comm.append_right ys)
    have hgiven {v : Value Obj} (hv : v.holds ⊆ a.holds ++ b.holds) :
        c.Given ((a.holds ++ b.holds) ++ ys) v :=
      fun y hy ↦ .inl (List.mem_append_left _ (List.mem_append_left _ (hv hy)))
    refine (Scene.At.holding (ha₂'.operate
      (ha₂'.count_pos (hgiven (List.subset_append_left _ _)))
      (hgiven (List.subset_append_right _ _)) fun hr ↦ (hirregular hr).elim)).bind ?_
    rintro w h₃ ⟨ha₃, -⟩
    have ha₃' : c.At [] ((a.holds ++ b.holds) ++ (w.holds ++ ys)) h₃ :=
      ha₃.perm (List.perm_append_comm_assoc _ _ _)
    refine ha₃'.letGo.bind ?_
    rintro - h₄ ⟨ha₄, -⟩
    exact .pure ha₄

/-! ## The payoff -/

/-- **Errors in an expression.**  An expression always has a value, unless a pool has no block left,
and evaluating it changes nothing that anybody sees.  The value is an error exactly when that of
some part is, and then it is the first one that comes up: first the left operand, then the right
one, then the operator itself.  With any other operators above it the outcome is the same.

Whether the value is an error, and which one, does not depend on what is inside strings and
containers, so an error that is an element does not count. -/
theorem evaluate_errors {xs : List Hold} (hs : h.Sound xs) (e : Expression Obj)
    (hvalues : ∀ v ∈ e.values, h.Backed xs v) :
    Heap.Serves e.evaluate h (fun w g ↦ h.Untouched xs g ∧ ∃ log, e.Evaluates h w log g) ∧
      (h.Uncapped → ∃ w g, e.evaluate h = .ok w g) ∧
      ∀ w log g, e.Evaluates h w log g →
        e.evaluate h = .ok w g ∧ log.map Prod.fst = e.places ∧
          (w.isError = true ↔ ∃ x ∈ log, x.2.isError = true) ∧
          (∀ p v, firstError? log = some (p, v) →
            w = v ∧ ∀ e', DifferAbove p e e' → e'.evaluate h = .ok w g) ∧
          ∀ e' h' w' log' g', e.Resembles e' → e'.Evaluates h' w' log' g' → w.Resembles w' := by
  have hserves : Heap.Serves e.evaluate h
      (fun w g ↦ h.Untouched xs g ∧ ∃ log, e.Evaluates h w log g) := by
    -- which variable the scene is about does not matter: nothing is written
    have hends := ends_evaluate (c := .reading hs ⟨0⟩) id (.reading hs ⟨0⟩) hvalues
    refine (Heap.Serves.of_ends hends.known trivial (unhurried_evaluate e)).mono ?_ fun _ _ hf ↦ hf
    rintro w g ⟨ha, hrun⟩
    exact ⟨Heap.untouched_of_at ha, exists_evaluates hrun⟩
  refine ⟨hserves, fun huncapped ↦ ?_, fun w log g he ↦ ⟨he.evaluate_eq, he.places_eq, ?_,
    fun p v hfirst ↦ ?_, fun e' h' w' log' g' hsame he' ↦ he.resembles he' hsame⟩⟩
  · obtain ⟨w, g, hrun, -⟩ := hserves.exists_ok ((ample_evaluate e).not_exhausts huncapped)
    exact ⟨w, g, hrun⟩
  · cases hfirst : firstError? log with
    | some x =>
      exact iff_of_true (he.isError_of_firstError? hfirst).1
        ⟨x, List.mem_of_find?_eq_some hfirst,
          List.find?_some (p := fun y : Entry Obj ↦ y.2.isError) hfirst⟩
    | none =>
      refine iff_of_false (by simp [he.noError_of_firstError? hfirst]) ?_
      rintro ⟨x, hx, herror⟩
      exact List.find?_eq_none.1 hfirst x hx herror
  · refine ⟨(he.isError_of_firstError? hfirst).2.symm, fun e' hdiffer ↦ ?_⟩
    exact (he.differAbove hfirst hdiffer).evaluate_eq

end

end Expression

namespace Session

/-- An array with an error in it, in a variable and in a snapshot. -/
def errorInArray : Session SampleObject :=
  ((start ⟨false, ⟨4, none⟩⟩).run
    [.bind "h" (.literal (.array [.scalar (.error "inner")])), .snapshot "h" "g"]).2

/-- The array with one more element, times a quotient that there is none of. -/
def arrayTimesQuotient : Expression SampleObject :=
  .apply .mul (.apply .add (.value (.array ⟨0⟩)) (.value (.integer 1)))
    (.apply .div (.value (.integer 1)) (.value (.integer 0)))

/-- The error inside the array does not come up. -/
theorem evaluate_errors_inner :
    ∃ g, arrayTimesQuotient.evaluate errorInArray.heap = .ok (.error divideByZero) g ∧
      errorInArray.heap.Untouched errorInArray.holds g := by
  have hs : errorInArray.Books := (books_start _).run _
  have harray : errorInArray.heap.Backed errorInArray.holds (.array ⟨0⟩) := fun y hy ↦
    .inr ⟨⟨.array, ⟨0, 0⟩⟩, by decide +kernel, List.mem_singleton.1 hy ▸ (by decide +kernel)⟩
  have hvalues : ∀ v ∈ arrayTimesQuotient.values,
      errorInArray.heap.Backed errorInArray.holds v := by
    intro v hv
    have hv : v ∈ [.array ⟨0⟩, .integer 1, .integer 1, .integer 0] := hv
    simp only [List.mem_cons, List.not_mem_nil, or_false] at hv
    rcases hv with rfl | rfl | rfl | rfl
    · exact harray
    all_goals exact nofun
  have hall := Expression.evaluate_errors hs arrayTimesQuotient hvalues
  obtain ⟨w, g, hrun, huntouched, -⟩ := hall.1.exists_ok (by decide +kernel)
  have hvalue : ∃ g, arrayTimesQuotient.evaluate errorInArray.heap = .ok (.error divideByZero) g :=
    ⟨_, by cbv⟩
  obtain ⟨g', hrun'⟩ := hvalue
  cases hrun.symm.trans hrun'
  exact ⟨g, hrun, huntouched⟩

end Session
end ScriptHeap
