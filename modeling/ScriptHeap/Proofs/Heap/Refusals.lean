import ScriptHeap.Proofs.Heap.Calls
import ScriptHeap.Proofs.Heap.Editing
import ScriptHeap.Proofs.Heap.Lookups

/-!
# Calls that come to nothing

A kind implements some of the built-in methods, and a call of any other is refused, whatever the
arguments.  A call that is refused, or that answers with an error, has not got further than the
block of its own that a method of arrays works on, so nobody sees a change.

## What is here

* `Kind.implements` — the methods of a kind.
* `Heap.Unhurried` — operations that read nothing that is being written.
* `Scene.reading` — the scene of an operation that nobody is to see.
* `Heap.Unfailing` — operations that give no error.
* `Heap.Spares` — a method that leaves the heap as it is when it comes to nothing.
* `Scene.Target.dispatch_spares`, `Scene.Target.callBuiltin_spares` — methods chosen by kind, and
  calls.
-/

set_option autoImplicit false
namespace ScriptHeap

variable {Obj : Type} {α β : Type}

/-- Whether a kind has a built-in method. -/
def Kind.implements : Kind → Method → Bool
  | array, m => m ∈ [.size, .append, .insert, .erase, .exists, .reverse, .sort]
  | struct, m => m ∈ [.size, .exists, .erase, .keys]
  | string, m => m ∈ [.length, .upper, .lower, .find]
  | _, _ => false

/-- Any operation ends somewhere. -/
theorem ends_anyhow {ε σ : Type} (act : EStateM ε σ α) (s : σ) :
    Ends act s (fun _ _ ↦ True) fun _ _ ↦ True := by
  unfold Ends
  split <;> trivial

namespace Heap

/-! ## Operations that are never busy -/

/-- An operation reads no variable that is being written. -/
def Unhurried (act : HeapM Obj α) : Prop :=
  ∀ h, Ends act h (fun _ _ ↦ True) fun f _ ↦ f ≠ .busy

theorem Unhurried.bind {act : HeapM Obj α} {f : α → HeapM Obj β} (hact : Unhurried act)
    (hf : ∀ a, Unhurried (f a)) : Unhurried (act >>= f) :=
  fun h ↦ (hact h).bind fun a t _ ↦ hf a t

theorem Unhurried.pure (a : α) : Unhurried (pure a : HeapM Obj α) :=
  fun _ ↦ trivial

theorem unhurried_look (f : Heap Obj → Option α) : Unhurried (look f) := by
  intro h
  have hget : (get : HeapM Obj (Heap Obj)) h = .ok h h := rfl
  refine Ends.after hget ?_
  cases f h with
  | some a => exact .pure trivial
  | none => exact .throw (by decide)

variable [HostObject Obj]

theorem unhurried_allocate (v : Value Obj) : Unhurried (allocate v) := by
  intro h
  have hget : (get : HeapM Obj (Heap Obj)) h = .ok h h := rfl
  refine Ends.after hget ?_
  split
  · exact Ends.after hget (Ends.after rfl (.throw (by simp)))
  · exact trivial

/-- To make a block one's own reads nothing that is being written. -/
theorem unhurried_own (i : HandleId) : Unhurried (own i : HeapM Obj BlockId) := by
  refine (unhurried_look _).bind fun b ↦ Unhurried.bind (fun _ ↦ trivial) fun sole ↦ ?_
  split
  · exact .pure b
  · refine (unhurried_look _).bind fun v ↦ ?_
    refine Unhurried.bind (fun _ ↦ trivial) fun w ↦ (unhurried_allocate w).bind fun fresh ↦ ?_
    exact Unhurried.bind ((unhurried_look _).bind fun _ ↦ fun _ ↦ trivial) fun _ ↦ .pure fresh

/-! ## Methods that come to nothing -/

/-- A result of a method that came to nothing: there is none, or it is an error. -/
def Vain (r : Option (Value Obj)) : Prop :=
  ∀ v, r = some v → v.isError = true

/-- An operation has no error as its result. -/
def Unfailing (act : HeapM Obj (Value Obj)) (h : Heap Obj) : Prop :=
  Ends act h (fun v _ ↦ v.isError = false) fun _ _ ↦ True

omit [HostObject Obj] in
/-- Only the last operation gives the result. -/
theorem Unfailing.bind {act : HeapM Obj α} {f : α → HeapM Obj (Value Obj)} {h : Heap Obj}
    (hf : ∀ a t, Unfailing (f a) t) : Unfailing (act >>= f) h :=
  (ends_anyhow act h).bind fun a t _ ↦ hf a t

omit [HostObject Obj] in
theorem Unfailing.pure {v : Value Obj} (hv : v.isError = false) (h : Heap Obj) :
    Unfailing (pure v) h :=
  hv

/-- A method has a result if its kind implements it, and if that comes to nothing the heap is as it
was. -/
structure Spared (k : Kind) (m : Method) (h : Heap Obj) (r : Option (Value Obj)) (g : Heap Obj) :
    Prop where
  eq_none_iff : r = none ↔ k.implements m = false
  same : Vain r → g = h

/-- A method leaves the heap as it is when it comes to nothing, and always ends when its kind does
not implement it. -/
def Spares (k : Kind) (m : Method) (act : HeapM Obj (Option (Value Obj))) (h : Heap Obj) : Prop :=
  Ends act h (Spared k m h) fun _ _ ↦ k.implements m = true

section
variable {k : Kind} {m : Method} {h g : Heap Obj} {v : Value Obj}

omit [HostObject Obj]

/-- A result that is no error, whatever was done for it. -/
theorem Spared.of_answer (hk : k.implements m = true) (hv : v.isError = false) :
    Spared k m h (some v) g where
  eq_none_iff := by simp [hk]
  same hvain := by
    rw [hvain v rfl] at hv
    cases hv

theorem Spares.result (hk : k.implements m = true) (v : Value Obj) :
    Spares k m (pure (some v)) h :=
  .pure ⟨by simp [hk], fun _ ↦ rfl⟩

theorem Spares.refused (hk : k.implements m = false) :
    Spares k m (pure none : HeapM Obj (Option (Value Obj))) h :=
  .pure ⟨by simp [hk], fun _ ↦ rfl⟩

/-- What is done after a look that may fail. -/
theorem Spares.bind {act : HeapM Obj α} {f : α → HeapM Obj (Option (Value Obj))}
    (hk : k.implements m = true) (hf : ∀ a t, Ends (f a) t (Spared k m h) fun _ _ ↦ True) :
    Spares k m (act >>= f) h :=
  ((ends_anyhow act h).bind fun a t _ ↦ hf a t).mono (fun _ _ hh ↦ hh) fun _ _ _ ↦ hk

/-- A method that writes and then gives no error. -/
theorem Spares.writes {act : HeapM Obj (Value Obj)} (hk : k.implements m = true)
    (hact : Unfailing act h) : Spares k m (do return some (← act)) h :=
  Ends.bind (hact.mono (fun _ _ hv ↦ hv) fun _ _ _ ↦ hk) fun _ _ hv ↦ .pure (.of_answer hk hv)

end

theorem insertAt_unfailing (b : BlockId) (place : Nat) (v : Value Obj) (h : Heap Obj) :
    Unfailing (insertAt b place v) h := by
  rw [insertAt]
  refine .bind fun w _ ↦ .bind fun e _ ↦ .bind fun r _ ↦ ?_
  cases r with
  | none => exact .bind fun _ t ↦ .pure rfl t
  | some l => exact .bind fun is _ ↦ .bind fun _ t ↦ .pure rfl t

theorem reorder_unfailing (b : BlockId) (compares : Bool)
    (f : Heap Obj → List HandleId → List HandleId) (h : Heap Obj) :
    Unfailing (reorder b compares f) h := by
  rw [reorder]
  refine .bind fun r t ↦ ?_
  cases r with
  | none => exact .pure rfl t
  | some l =>
    refine .bind fun is _ ↦ ?_
    dsimp only
    split
    · exact .bind fun _ _ ↦ .bind fun _ _ ↦ .bind fun _ t ↦ .pure rfl t
    · exact .bind fun _ _ ↦ .bind fun _ t ↦ .pure rfl t

/-- **The methods of arrays** leave the heap as it is when they come to nothing. -/
theorem arrayMethod_spares (b : BlockId) (size : Nat) (m : Method) (args : List (Value Obj))
    (h : Heap Obj) : Spares .array m (arrayMethod b size m args) h := by
  cases m with
  | size => exact .result (by decide) _
  | append =>
    unfold arrayMethod
    dsimp only
    split
    · exact .writes (by decide) (insertAt_unfailing ..)
    · exact .result (by decide) _
  | insert =>
    unfold arrayMethod
    dsimp only
    split
    · split
      · exact .writes (by decide) (insertAt_unfailing ..)
      · exact .result (by decide) _
    · exact .result (by decide) _
    · exact .result (by decide) _
  | erase =>
    unfold arrayMethod
    dsimp only
    split
    · split
      · exact .bind (by decide) fun r t ↦ .after rfl (.pure (.of_answer (by decide) rfl))
      · exact .result (by decide) _
    · exact .result (by decide) _
    · exact .result (by decide) _
  | «exists» =>
    unfold arrayMethod
    dsimp only
    split <;> exact .result (by decide) _
  | reverse => exact .writes (by decide) (reorder_unfailing ..)
  | sort => exact .writes (by decide) (reorder_unfailing ..)
  | keys | length | upper | lower | find => exact .refused (by decide)

/-- To take a member out of a struct gives no error. -/
theorem removeMember_unfailing {i : HandleId} {names : List String} {l : ListId} {h : Heap Obj}
    (hv : h.valueOf? i = some (.struct names l)) (name : String) :
    Unfailing (removeMember i name) h := by
  rw [removeMember]
  refine Ends.after (look_eq hv) (Unfailing.bind fun b t ↦ ?_)
  split
  · exact .bind fun r _ ↦ .bind fun _ t ↦ .pure rfl t
  · exact .pure rfl t

/-- **The methods of structs** leave the heap as it is when they come to nothing. -/
theorem structMethod_spares {i : HandleId} {names : List String} {l : ListId} {h : Heap Obj}
    (hv : h.valueOf? i = some (.struct names l)) (m : Method) (args : List (Value Obj)) :
    Spares .struct m (structMethod i m args) h := by
  cases m with
  | size =>
    have hsize : Spares .struct .size (do
        return some (.integer (countNumber (← elements l).length))) h :=
      .bind (by decide) fun is t ↦ .pure (.of_answer (by decide) rfl)
    exact .after (look_eq hv) hsize
  | «exists» =>
    unfold structMethod
    dsimp only
    split
    · exact .after (look_eq hv) (Spares.result (by decide) _)
    · exact .result (by decide) _
    · exact .result (by decide) _
  | erase =>
    unfold structMethod
    dsimp only
    split
    · exact .writes (by decide) (removeMember_unfailing hv _)
    · exact .result (by decide) _
    · exact .result (by decide) _
  | keys =>
    exact Ends.after (look_eq hv) (Spares.writes (by decide)
      (.bind fun is _ ↦ .bind fun l t ↦ .pure rfl t))
  | append | insert | reverse | sort | length | upper | lower | find => exact .refused (by decide)

omit [HostObject Obj] in
theorem stringMethod_eq_none_iff (h : Heap Obj) (s : String) (m : Method)
    (args : List (Value Obj)) :
    stringMethod h s m args = none ↔ Kind.string.implements m = false := by
  cases m with
  | length | upper | lower => simp [stringMethod, Kind.implements]
  | find =>
    unfold stringMethod
    dsimp only
    split <;> simp [Kind.implements]
  | size | append | insert | erase | «exists» | reverse | sort | keys =>
    simp [stringMethod, Kind.implements]

/-! ## Calls -/

/-- A caller that answers no call itself. -/
def Caller.silent (params : List (Option HandleId)) : Caller Obj :=
  ⟨params, fun _ _ ↦ none⟩

/-- A call came to nothing: it failed, or its result is an error. -/
def CallOutcome.Vain (o : CallOutcome Obj) : Prop :=
  ∀ v, o.result = .ok v → v.isError = true

/-- A call fails exactly where the kind does not implement the method, and says so. -/
structure CallOutcome.Refuses (o : CallOutcome Obj) (k : Kind) (m : Method) : Prop where
  iff : o.result = .error (.unsupported k m) ↔ k.implements m = false
  only : ∀ f, o.result = .error f → f = .unsupported k m

/-- A pool had no block left. -/
def OutOfBlocks (f : Fault) : Prop :=
  ∃ pool capacity, f = .exhausted pool capacity

end Heap

namespace Scene

variable [HostObject Obj] {h : Heap Obj} {xs ys : List Hold} {i : HandleId} {v : Value Obj}
  {c : Scene Obj}

/-- The scene of an operation on a variable after which nobody is to see a change. -/
def reading (hs : h.Sound xs) (i : HandleId) : Scene Obj :=
  { onHandle hs i with
    reads := True
    unseen := True }

/-- Nothing is asked of a heap in a scene but that structs have no elements without a name where one
is taken out, and no variable is to keep its list. -/
structure Lax (c : Scene Obj) : Prop where
  named : c.named
  not_single : ¬ c.single
  not_acyclic : ¬ c.acyclic
  not_tied : ∀ i l, ¬ c.tied i l

theorem Lax.reading (hs : h.Sound xs) (i : HandleId) : (Scene.reading hs i).Lax :=
  ⟨trivial, id, id, fun _ _ ↦ id⟩

theorem At.reading (hs : h.Sound xs) (i : HandleId) : (Scene.reading hs i).At [] [] h :=
  .start (.refl _)

theorem Calm.reading (hs : h.Sound xs) (i : HandleId) : (Scene.reading hs i).Calm h :=
  calm_before fun _ _ ↦ False.elim

theorem Target.reading (hs : h.Sound xs) (hi : .handle i ∈ xs) : (Scene.reading hs i).Target i :=
  ⟨hi, rfl, fun _ _ ↦ False.elim⟩

/-- The own block of a variable is there unless a pool has no block left for it. -/
theorem Target.own_spares (ht : c.Target i) (ha : c.At [] ys h) (hcalm : c.Calm h)
    (hlax : c.Lax) (hv : h.valueOf? i = some v) :
    Ends (Heap.own i) h (fun b g ↦ c.At [] ys g ∧ g.valueAt? b = some v)
      fun f _ ↦ Heap.OutOfBlocks f := by
  refine ((ht.own ha hcalm hv fun hs ↦ (hlax.not_single hs).elim).and (Heap.unhurried_own i h)).mono
    (fun b g hown ↦ ⟨hown.1.1, hown.1.2.2.1.value⟩) ?_
  rintro f t ⟨⟨-, hf⟩, hbusy⟩
  cases f with
  | exhausted pool capacity => exact ⟨pool, capacity, rfl⟩
  | busy => exact (hbusy rfl).elim
  | unnamedPlace place names => exact (hf hlax.named).elim
  | nullReference => exact hf.elim
  | dangling => exact hf.elim

/-- **The built-in method of a variable** has a result exactly where the kind of the variable
implements it.  Where it comes to nothing, nothing was done but to make a block the variable's own;
where the kind does not implement it, no more than that can go wrong. -/
theorem Target.dispatch_spares (ht : c.Target i) (ha : c.At [] ys h) (hcalm : c.Calm h)
    (hlax : c.Lax) (hv : h.valueOf? i = some v) (hobject : ∀ o, v ≠ .object o) (m : Method)
    (args : List (Value Obj)) :
    Ends (Heap.dispatch i m args) h
      (fun r g ↦ (r = none ↔ v.kind.implements m = false) ∧ (Heap.Vain r → c.At [] ys g))
      fun f _ ↦ v.kind.implements m = false → Heap.OutOfBlocks f := by
  have hread : (Heap.read i : HeapM Obj (Value Obj)) h = .ok v h := Heap.look_eq hv
  cases v with
  | array l =>
    rw [Heap.dispatch]
    refine .after hread (.after hread ?_)
    refine Ends.bind ((ht.own_spares ha hcalm hlax hv).mono (fun _ _ hh ↦ hh)
      fun _ _ hf _ ↦ hf) ?_
    rintro b g ⟨ha₁, hb⟩
    refine .after (Heap.look_eq hb) ?_
    obtain ⟨is, his, -⟩ :=
      ha₁.exists_elements (ha₁.isSome_of_value hb _ (List.mem_singleton_self _))
    refine .after (Heap.look_eq his) ((Heap.arrayMethod_spares b is.length m args g).mono ?_ ?_)
    · exact fun r t hspared ↦ ⟨hspared.eq_none_iff, fun hvain ↦ hspared.same hvain ▸ ha₁⟩
    · exact fun f t hk hno ↦ absurd (hk.symm.trans hno) (by decide)
  | struct names l =>
    rw [Ends, Heap.dispatch_struct hv, ← Ends]
    refine (Heap.structMethod_spares hv m args).mono ?_ ?_
    · exact fun r t hspared ↦ ⟨hspared.eq_none_iff, fun hvain ↦ hspared.same hvain ▸ ha⟩
    · exact fun f t hk hno ↦ absurd (hk.symm.trans hno) (by decide)
  | scalar s =>
    have hnothing (hact : Heap.dispatch i m args h = .ok none h)
        (hk : s.kind.implements m = false) :
        Ends (Heap.dispatch i m args) h
          (fun r g ↦ (r = none ↔ s.kind.implements m = false) ∧ (Heap.Vain r → c.At [] ys g))
          fun f _ ↦ s.kind.implements m = false → Heap.OutOfBlocks f :=
      .of_ok hact ⟨by simp [hk], fun _ ↦ ha⟩
    cases s with
    | string text =>
      exact .of_ok (Heap.dispatch_string hv m args)
        ⟨Heap.stringMethod_eq_none_iff h text m args, fun _ ↦ ha⟩
    | object o => exact (hobject o rfl).elim
    | uninit | integer _ | double _ | error _ | pointer _ =>
      refine hnothing ?_ rfl
      rw [Heap.dispatch]
      exact (bind_of_ok hread).trans (bind_of_ok hread)

/-- What a call leaves that may have come to nothing. -/
structure Declined (c : Scene Obj) (k : Kind) (m : Method) (ys : List Hold)
    (o : Heap.CallOutcome Obj) (g : Heap Obj) : Prop where
  refuses : o.Refuses k m
  spared : o.Vain → c.At [] ys g

/-- **A call that comes to nothing** leaves what it found. -/
theorem Target.callBuiltin_spares (ht : c.Target i) (ha : c.At [] ys h) (hcalm : c.Calm h)
    (hlax : c.Lax) (hv : h.valueOf? i = some v) (hobject : ∀ o, v ≠ .object o) (m : Method)
    {params : List (Option HandleId)} (hparams : ∀ j, some j ∈ params → Hold.handle j ∈ c.outside)
    (force : Bool) :
    Ends (Heap.callBuiltin i m (.silent params) force) h (c.Declined v.kind m ys)
      fun f _ ↦ v.kind.implements m = false → Heap.OutOfBlocks f := by
  have hread : (Heap.read i : HeapM Obj (Value Obj)) h = .ok v h := Heap.look_eq hv
  have hsilent : (if force then none else
      (Heap.Caller.silent params : Heap.Caller Obj).answer? v m) = none := by
    cases force <;> rfl
  have hargs : Runs (Heap.argumentValues params) h fun args h₁ ↦
      c.At [] (args.flatMap Value.holds ++ ys) h₁ ∧ (h.Grows h₁ fun _ ↦ True) ∧ c.Sole h₁ := by
    refine (ha.argumentValues (x := .handle i) (fun j hj ↦ ?_) (fun _ _ _ _ hac ↦ ?_)
      hcalm.sole).mono fun args h₁ hh ↦ ⟨hh.here, hh.grows, hh.sole⟩
    · exact ⟨List.mem_append_right _ (hparams j hj), hlax.not_tied j⟩
    · exact (hlax.not_acyclic hac).elim
  rw [Heap.callBuiltin]
  refine .after hread ?_
  simp only [hsilent]
  refine hargs.bind ?_
  rintro args h₁ ⟨ha₁, hg₁, hsole₁⟩
  have hv₁ := hg₁.valueOf? hv
  refine Ends.bind (Heap.ends_holding (?_ : Ends _ h₁
    (c.Declined v.kind m (args.flatMap Value.holds ++ ys)) _)) fun o h₂ hdeclined ↦
      .after rfl (.pure ⟨hdeclined.refuses, fun hvain ↦ (hdeclined.spared hvain).release.1⟩)
  refine .after (Heap.look_eq hv₁) ((ht.dispatch_spares ha₁ (hcalm.adds hg₁.toAdds hsole₁) hlax
    hv₁ hobject m args).bind ?_)
  rintro r h₂ ⟨hnone, hspared⟩
  cases r with
  | some w =>
    refine .pure ⟨⟨by simp [← hnone], fun f hf ↦ ?_⟩, fun hvain ↦ hspared fun u hu ↦ ?_⟩
    · cases hf
    · exact hvain u (congrArg Except.ok (Option.some.inj hu))
  | none =>
    refine .pure ⟨⟨by simp [← hnone], fun f hf ↦ (Except.error.inj hf).symm⟩, fun _ ↦ ?_⟩
    refine hspared fun u hu ↦ ?_
    cases hu

end Scene
end ScriptHeap
