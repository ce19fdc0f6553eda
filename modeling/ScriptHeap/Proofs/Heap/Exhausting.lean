import ScriptHeap.Proofs.Heap.Scene

/-!
# Operations that end for want of a block

An operation that writes makes all the blocks that it needs before it writes.  When a pool has none
left it ends there, and nobody sees a change: to know this it is enough to follow the operation up
to its write, after which it cannot end like that any more.

## What is here

* `Exhausts` — an operation ends because a pool has no block left.
* `Scene.Leads` — an operation that may write, though not where it turns out to end like that and
  nobody is to see a change; with a rule for each way to put operations together.
-/

set_option autoImplicit false
namespace ScriptHeap

variable {σ α β : Type}

/-- An operation ends because a pool has no block left. -/
def Exhausts (act : EStateM Fault σ α) (s : σ) : Prop :=
  ∃ pool capacity t, act s = .error (.exhausted pool capacity) t

section
variable {act : EStateM Fault σ α} {f : α → EStateM Fault σ β} {s t : σ} {a : α}

theorem not_exhausts_of_ok (hact : act s = .ok a t) : ¬ Exhausts act s := by
  rintro ⟨pool, capacity, u, he⟩
  cases hact.symm.trans he

instance : Decidable (Exhausts act s) :=
  match hact : act s with
  | .error (.exhausted pool capacity) t => isTrue ⟨pool, capacity, t, hact⟩
  | .error .nullReference _ | .error (.unnamedPlace _ _) _ | .error .busy _ | .error .dangling _ =>
    isFalse fun ⟨_, _, _, he⟩ ↦ nomatch hact.symm.trans he
  | .ok _ _ => isFalse fun ⟨_, _, _, he⟩ ↦ nomatch hact.symm.trans he

/-- Whatever was to come after it. -/
theorem Exhausts.bind (he : Exhausts act s) : Exhausts (act >>= f) s := by
  obtain ⟨pool, capacity, t, hact⟩ := he
  exact ⟨pool, capacity, t, bind_of_error hact⟩

theorem Exhausts.after (he : Exhausts (f a) t) (hact : act s = .ok a t) :
    Exhausts (act >>= f) s := by
  obtain ⟨pool, capacity, u, he⟩ := he
  exact ⟨pool, capacity, u, (bind_of_ok hact).trans he⟩

/-- What comes after an operation that had a result. -/
theorem Exhausts.next (he : Exhausts (act >>= f) s) (hact : act s = .ok a t) :
    Exhausts (f a) t := by
  obtain ⟨pool, capacity, u, he⟩ := he
  exact ⟨pool, capacity, u, (bind_of_ok hact).symm.trans he⟩

theorem not_exhausts_look {Obj α : Type} {f : Heap Obj → Option α} (h : Heap Obj) :
    ¬ Exhausts (Heap.look f) h := by
  rintro ⟨pool, capacity, t, he⟩
  have hget : (get : HeapM Obj (Heap Obj)) h = .ok h h := rfl
  rw [Heap.look, bind_of_ok hget] at he
  cases hf : f h with
  | some a =>
    rw [hf] at he
    cases he
  | none =>
    rw [hf] at he
    cases he

/-- If what comes after does not end like that, the operation did. -/
theorem Exhausts.first (he : Exhausts (act >>= f) s)
    (hf : ∀ a t, act s = .ok a t → ¬ Exhausts (f a) t) : Exhausts act s := by
  cases hact : act s with
  | ok a t => exact (hf a t hact (he.next hact)).elim
  | error e t =>
    obtain ⟨pool, capacity, u, he⟩ := he
    cases (bind_of_error hact).symm.trans he
    exact ⟨pool, capacity, t, hact⟩

/-- Errors that are dealt with by other errors of the same kind. -/
theorem Exhausts.of_tryCatch {g : Fault → EStateM Fault σ α} (he : Exhausts (tryCatch act g) s)
    (hg : ∀ e t, ∃ u, g e t = .error e u) : Exhausts act s := by
  obtain ⟨pool, capacity, u, he⟩ := he
  cases hact : act s with
  | ok a t => cases (tryCatch_of_ok hact).symm.trans he
  | error e t =>
    obtain ⟨v, hv⟩ := hg e t
    cases ((tryCatch_of_error hact).trans hv).symm.trans he
    exact ⟨pool, capacity, t, hact⟩

/-- An operation that never ends like that. -/
def Frugal (act : EStateM Fault σ α) : Prop :=
  ∀ s, ¬ Exhausts act s

theorem Frugal.pure (a : α) : Frugal (pure a : EStateM Fault σ α) :=
  fun _ ↦ not_exhausts_of_ok rfl

theorem Frugal.bind (hact : Frugal act) (hf : ∀ a, Frugal (f a)) : Frugal (act >>= f) :=
  fun s he ↦ hact s (he.first fun a t _ ↦ hf a t)

end

namespace Scene

variable {Obj : Type} [HostObject Obj] {c : Scene Obj} {act : EStateM Fault σ α}
  {f : α → EStateM Fault σ β} {s t : σ}
  {a : α} {good good' : α → σ → Prop} {bad bad' : Fault → σ → Prop} {next : β → σ → Prop}

/-- Where nothing else can go wrong, an operation that does not end for want of a block has a
result. -/
theorem runs_of_faults {act : HeapM Obj α} {h : Heap Obj} {good : α → Heap Obj → Prop}
    {made : List HandleId} {ys : List Hold} (hact : Ends act h good (c.Faults made ys))
    (hac : c.acyclic) (hnamed : c.named) (hnot : ¬ Exhausts act h) : Runs act h good := by
  unfold Ends at hact
  split at hact
  · rename_i a t hrun
    exact ⟨a, t, hrun, hact⟩
  · rename_i f t hrun
    obtain ⟨-, hf⟩ := hact
    cases f with
    | exhausted pool capacity => exact (hnot ⟨pool, capacity, t, hrun⟩).elim
    | busy => exact (hf hac).elim
    | unnamedPlace place names => exact (hf hnamed).elim
    | nullReference => exact hf.elim
    | dangling => exact hf.elim

/-- An operation that may write: where nobody is to see a change, it must be one that only reads or
one that ends for want of a block. -/
def Leads (c : Scene Obj) (act : EStateM Fault σ α) (s : σ) (good : α → σ → Prop)
    (bad : Fault → σ → Prop) : Prop :=
  (c.unseen → c.reads ∨ Exhausts act s) → Ends act s good bad

theorem Leads.of_ends (hact : Ends act s good bad) : c.Leads act s good bad :=
  fun _ ↦ hact

/-- An operation that cannot end for want of a block any more. -/
theorem Leads.of_not_exhausts (hnot : ¬ Exhausts act s)
    (hact : (c.unseen → c.reads) → Ends act s good bad) : c.Leads act s good bad :=
  fun hwhy ↦ hact fun hu ↦ (hwhy hu).resolve_right hnot

theorem Leads.of_ok (hact : act s = .ok a t) (ha : (c.unseen → c.reads) → good a t) :
    c.Leads act s good bad :=
  .of_not_exhausts (not_exhausts_of_ok hact) fun hreads ↦ .of_ok hact (ha hreads)

theorem Leads.mono (hact : c.Leads act s good bad) (hgood : ∀ a t, good a t → good' a t)
    (hbad : ∀ e t, bad e t → bad' e t) : c.Leads act s good' bad' :=
  fun hwhy ↦ (hact hwhy).mono hgood hbad

theorem Leads.known (hact : c.Leads act s good bad) :
    c.Leads act s (fun a t ↦ good a t ∧ act s = .ok a t) bad :=
  fun hwhy ↦ (hact hwhy).known

/-- One operation after another that did not write. -/
theorem Leads.bind (hact : Ends act s good bad) (hf : ∀ a t, good a t → c.Leads (f a) t next bad) :
    c.Leads (act >>= f) s next bad :=
  fun hwhy ↦ hact.known.bind fun a t ⟨ha, hrun⟩ ↦
    hf a t ha fun hu ↦ (hwhy hu).imp_right fun he ↦ he.next hrun

/-- What comes after an operation whose outcome is known. -/
theorem Leads.after (hact : act s = .ok a t) (hf : c.Leads (f a) t next bad) :
    c.Leads (act >>= f) s next bad :=
  fun hwhy ↦ .after hact (hf fun hu ↦ (hwhy hu).imp_right fun he ↦ he.next hact)

/-- An operation that writes, and what comes after it. -/
theorem Leads.andThen (hact : c.Leads act s good bad)
    (hnot : ∀ a t, act s = .ok a t → ¬ Exhausts (f a) t)
    (hf : ∀ a t, good a t → Ends (f a) t next bad) : c.Leads (act >>= f) s next bad :=
  fun hwhy ↦ (hact fun hu ↦ (hwhy hu).imp_right fun he ↦ he.first hnot).bind hf

end Scene
end ScriptHeap
