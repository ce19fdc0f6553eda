import ScriptHeap.Host.Sample
import ScriptHeap.Proofs.Heap.Refusals
import ScriptHeap.Proofs.Session.CallByName
import ScriptHeap.Proofs.Session.Frame

/-!
# Calls that change nothing

A call of a method that only reads, and a call that fails or answers with an error, may well give a
variable a block of its own.  Whatever is held from outside shows the same afterwards all the same:
the variable, the arguments, and everything else.  A call is refused for want of the method exactly
where the kind of the variable does not implement it, and a name that stands for no method is
refused at once.

## What is here

* `Heap.Invokes` — the ways to call a built-in method.
* `Heap.Untouched` — what is held from outside shows what it showed.
* `Heap.call_spares`, the payoff.
-/

set_option autoImplicit false
namespace ScriptHeap

namespace Heap

variable {Obj : Type} [HostObject Obj] {h g : Heap Obj} {xs ys : List Hold} {i : HandleId}
  {v : Value Obj} {m : Method} {params : List (Option HandleId)}
  {act : HeapM Obj (CallOutcome Obj)}

/-- The ways to call a built-in method of a variable: the method, or a spelling of its name. -/
inductive Invokes (i : HandleId) (m : Method) (caller : Caller Obj) :
    HeapM Obj (CallOutcome Obj) → Prop
  | builtin (force : Bool) : Invokes i m caller (callBuiltin i m caller force)
  | named {name : String} (hm : Method.ofName? name = some m) :
    Invokes i m caller (callMethod i name caller)

/-- Whatever is held from outside shows what it showed, all the way down. -/
def Untouched (h : Heap Obj) (xs : List Hold) (g : Heap Obj) : Prop :=
  ∀ r : Root Obj, (∀ y ∈ r.holds, y ∈ xs) → r.Same h g

omit [HostObject Obj] in
theorem Untouched.of_alike (hs : h.Sound xs) (ha : h.Alike g) (hg : g.Sound (ys ++ xs)) :
    h.Untouched xs g := by
  refine fun r hr ↦ Root.same_of_shape fun y hy ↦ ?_
  exact (ha y (hs.born_of_mem (hr y hy)) (hg.isSome_of_mem (List.mem_append_right _ (hr y hy)))).2

theorem untouched_of_at {hs : h.Sound xs} (ha : (Scene.reading hs i).At [] ys g) :
    h.Untouched xs g :=
  .of_alike hs (ha.shown trivial) ha.sound

/-- A call of a method that only reads changes nothing, wherever it ends. -/
theorem callBuiltin_reads (hs : h.Sound xs) (hi : .handle i ∈ xs)
    (hparams : ∀ j, some j ∈ params → .handle j ∈ xs) (hv : h.valueOf? i = some v)
    (hobject : ∀ o, v ≠ .object o) (hm : m.mutates = false) (force : Bool) :
    Ends (callBuiltin i m (.silent params) force) h (fun _ g ↦ h.Untouched xs g)
      fun _ g ↦ h.Untouched xs g := by
  have hunchanged : v.UnchangedBy m.name := by
    refine ⟨fun m' hm' ↦ ?_, fun o ho ↦ (hobject o ho).elim⟩
    obtain rfl := Option.some.inj ((Method.ofName?_name m).symm.trans hm')
    exact hm
  have hleads : (Scene.reading hs i).Leads (callBuiltin i m (.silent params) force) h
      ((Scene.reading hs i).Answered [] []) ((Scene.reading hs i).Faults [] []) := by
    refine (Scene.Target.reading hs hi).callBuiltin (.reading hs i) (.reading hs i) m force
      (fun j hj ↦ ⟨List.mem_append_right _ (hparams j hj), fun _ ↦ id⟩) nofun
      (fun _ w hw ↦ Option.some.inj (hv.symm.trans hw) ▸ hunchanged) (fun _ _ _ _ ↦ False.elim) ?_
    rintro rfl
    cases hm
  exact (hleads fun _ ↦ .inl trivial).mono (fun o g ha ↦ untouched_of_at ha.1)
    fun f g ha ↦ untouched_of_at ha.1

/-- Every way to call a built-in method is the call of that method. -/
theorem Invokes.exists_eq {caller : Caller Obj} (hact : Invokes i m caller act)
    (hv : h.valueOf? i = some v) (hobject : ∀ o, v ≠ .object o) :
    ∃ force, act h = callBuiltin i m caller force h := by
  cases hact with
  | builtin force => exact ⟨force, rfl⟩
  | named hm =>
    exact ⟨false, callMethod_eq hm (fun o ho ↦ hobject o (Option.some.inj (hv.symm.trans ho))) _⟩

theorem callMethod_unknown {name : String} (hname : Method.ofName? name = none)
    (hv : h.valueOf? i = some v) (hobject : ∀ o, v ≠ .object o) (caller : Caller Obj) :
    callMethod i name caller h = .ok ⟨none, .error (.unknown v.kind name)⟩ h := by
  have hread : (read i : HeapM Obj (Value Obj)) h = .ok v h := look_eq hv
  rw [callMethod, bind_of_ok hread]
  split
  · rename_i o
    exact (hobject o rfl).elim
  · rw [hname]
    rfl

/-- **Calls that change nothing.**  A built-in method is called, with arguments of any number and
kind that may be missing or the variable itself, on a variable that is no host object, and the
script does not answer in its place.  If the method only reads, or the call fails or answers with an
error, then everything that is held from outside shows what it showed.  The call fails as not
supported exactly if the kind of the variable does not implement the method, unless a pool has no
block left, and it fails in no other way.  A name that stands for no method is refused, and nothing
is done. -/
theorem call_spares (hs : h.Sound xs) (hi : .handle i ∈ xs)
    (hparams : ∀ j, some j ∈ params → .handle j ∈ xs) (hv : h.valueOf? i = some v)
    (hobject : ∀ o, v ≠ .object o) :
    (∀ act, Invokes i m (.silent params) act →
        (∀ o g, act h = .ok o g →
          (o.result = .error (.unsupported v.kind m) ↔ v.kind.implements m = false) ∧
            (∀ f, o.result = .error f → f = .unsupported v.kind m) ∧
            (m.mutates = false ∨ o.Vain → h.Untouched xs g)) ∧
          (m.mutates = false → ∀ f g, act h = .error f g → h.Untouched xs g) ∧
          (v.kind.implements m = false → ¬ Exhausts act h →
            ∃ o g, act h = .ok o g ∧ o.result = .error (.unsupported v.kind m))) ∧
      ∀ name, Method.ofName? name = none →
        callMethod i name (.silent params) h = .ok ⟨none, .error (.unknown v.kind name)⟩ h := by
  refine ⟨fun act hact ↦ ?_, fun name hname ↦ callMethod_unknown hname hv hobject _⟩
  obtain ⟨force, hcall⟩ := hact.exists_eq hv hobject
  have hreads (hm : m.mutates = false) := callBuiltin_reads hs hi hparams hv hobject hm force
  have hspares := (Scene.Target.reading hs hi).callBuiltin_spares (.reading hs i) (.reading hs i)
    (.reading hs i) hv hobject m hparams force
  simp only [Exhausts, hcall]
  cases hrun : callBuiltin i m (.silent params) force h with
  | ok o g =>
    obtain ⟨hrefuses, hvain⟩ := hspares.get hrun
    refine ⟨fun o' g' he ↦ ?_, fun _ f' g' he ↦ ?_, fun hk _ ↦ ⟨o, g, rfl, hrefuses.iff.2 hk⟩⟩
    · cases he
      refine ⟨hrefuses.iff, hrefuses.only, ?_⟩
      rintro (hm | hv')
      · exact (hreads hm).get hrun
      · exact untouched_of_at (hvain hv')
    · cases he
  | error f g =>
    rw [Ends, hrun] at hspares
    refine ⟨fun o' g' he ↦ ?_, fun hm f' g' he ↦ ?_, fun hk hnot ↦ ?_⟩
    · cases he
    · cases he
      have hread := hreads hm
      rwa [Ends, hrun] at hread
    · obtain ⟨pool, capacity, rfl⟩ := hspares hk
      exact (hnot ⟨pool, capacity, g, rfl⟩).elim

end Heap

namespace Session

/-- An array is to be put into itself at a place that is no number: it gives an error and stays as
it is. -/
theorem call_spares_array :
    ∃ o g, Heap.callMethod ⟨2⟩ "insert" (.silent [some ⟨3⟩, some ⟨2⟩]) arrayAndCounter.heap =
        .ok o g ∧ o.result.toOption = some (.error indexNotInteger) ∧
      arrayAndCounter.heap.Untouched arrayAndCounter.holds g := by
  have hs : arrayAndCounter.Books := (books_start _).run _
  have hv : arrayAndCounter.heap.valueOf? ⟨2⟩ = some (.array ⟨0⟩) := by cbv
  have hparams : ∀ j, some j ∈ [some (⟨3⟩ : HandleId), some ⟨2⟩] →
      .handle j ∈ arrayAndCounter.holds := by
    intro j hj
    simp only [List.mem_cons, Option.some.injEq, List.not_mem_nil, or_false] at hj
    rcases hj with rfl | rfl <;> decide +kernel
  have hresult : Heap.resultOf (Heap.callMethod ⟨2⟩ "insert" (.silent [some ⟨3⟩, some ⟨2⟩])
      arrayAndCounter.heap) = some (some (.error indexNotInteger)) := by
    cbv
  have hcall := (Heap.call_spares (m := .insert) hs (by decide +kernel) hparams hv
    (fun o ↦ by simp)).1 _ (.named (show Method.ofName? "insert" = some .insert by decide))
  cases hrun : Heap.callMethod ⟨2⟩ "insert" (.silent [some ⟨3⟩, some ⟨2⟩])
      arrayAndCounter.heap with
  | ok o g =>
    rw [hrun] at hresult
    have hanswer : o.result.toOption = some (.error indexNotInteger) := Option.some.inj hresult
    refine ⟨o, g, rfl, hanswer, (hcall.1 o g hrun).2.2 (.inr fun v hv ↦ ?_)⟩
    rw [hv] at hanswer
    obtain rfl := Option.some.inj hanswer
    rfl
  | error f g =>
    rw [hrun] at hresult
    cases hresult

/-- An array that shares its block with a snapshot, and no block for another array. -/
def crowded : Session SampleObject :=
  ((start ⟨false, ⟨1, some 1⟩⟩).run
    [.bind "h" (.literal (.array [.scalar (.integer 1)])), .snapshot "h" "g"]).2

/-- A call that ought to be refused needs a block first. -/
theorem refusal_exhausted :
    crowded.heap.valueOf? ⟨1⟩ = some (.array ⟨0⟩) ∧ Kind.array.implements .keys = false ∧
      Exhausts (Heap.callBuiltin ⟨1⟩ .keys (.silent []) false) crowded.heap := by
  refine ⟨by cbv, rfl, by decide +kernel⟩

end Session
end ScriptHeap
