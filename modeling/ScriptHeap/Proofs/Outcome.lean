import Mathlib.Order.Defs.Unbundled

/-!
# Outcomes of operations

An operation either ends with a result or fails, and leaves a state behind in both cases.  What it
may end in is said by a condition for each of the two; an operation made of others ends well when
they do, one after the other.

## What is here

* `bind_eq_ok_iff` — two operations one after the other succeed when both do.
* `Ends`, `Runs` — an operation ends in certain states, and one that cannot fail does; with a rule
  for each way to put operations together.
* `Within` — an operation that ends in a state related to the one where it began, with such rules.
-/

set_option autoImplicit false
namespace ScriptHeap

variable {ε σ α β : Type}

theorem bind_eq_ok_iff {act : EStateM ε σ α} {f : α → EStateM ε σ β} {s u : σ} {b : β} :
    (act >>= f) s = .ok b u ↔ ∃ a t, act s = .ok a t ∧ f a t = .ok b u := by
  change EStateM.bind act f s = _ ↔ _
  unfold EStateM.bind
  cases act s with
  | ok a t =>
    refine ⟨fun h ↦ ⟨a, t, rfl, h⟩, ?_⟩
    rintro ⟨_, _, ⟨⟩, h⟩
    exact h
  | error e t => simp

theorem bind_of_ok {act : EStateM ε σ α} {f : α → EStateM ε σ β} {s t : σ} {a : α}
    (h : act s = .ok a t) : (act >>= f) s = f a t := by
  change EStateM.bind act f s = _
  rw [EStateM.bind, h]

theorem bind_of_error {act : EStateM ε σ α} {f : α → EStateM ε σ β} {s t : σ} {e : ε}
    (h : act s = .error e t) : (act >>= f) s = .error e t := by
  change EStateM.bind act f s = _
  rw [EStateM.bind, h]

theorem tryCatch_of_ok {act : EStateM ε σ α} {f : ε → EStateM ε σ α} {s t : σ} {a : α}
    (h : act s = .ok a t) : tryCatch act f s = .ok a t := by
  change EStateM.tryCatch act f s = _
  delta EStateM.tryCatch
  simp only [h]

theorem tryCatch_of_error {act : EStateM ε σ α} {f : ε → EStateM ε σ α} {s t : σ} {e : ε}
    (h : act s = .error e t) : tryCatch act f s = f e t := by
  change EStateM.tryCatch act f s = _
  delta EStateM.tryCatch
  simp only [h]
  rfl

/-- Where errors are only passed on, a result is that of the operation itself. -/
theorem ok_of_tryCatch {act : EStateM ε σ α} {g : ε → EStateM ε σ α} {s t : σ} {a : α}
    (hrun : tryCatch act g s = .ok a t) (hg : ∀ e t, ∃ u, g e t = .error e u) :
    act s = .ok a t := by
  cases hact : act s with
  | ok b u => exact (tryCatch_of_ok hact).symm.trans hrun
  | error e u =>
    obtain ⟨v, hv⟩ := hg e u
    cases ((tryCatch_of_error hact).trans hv).symm.trans hrun

/-! ## Where operations end -/

/-- An operation ends with a result and a state, or an error and a state, that meet a condition. -/
def Ends (act : EStateM ε σ α) (s : σ) (good : α → σ → Prop) (bad : ε → σ → Prop) : Prop :=
  match act s with
  | .ok a t => good a t
  | .error e t => bad e t

/-- An operation ends with a result and a state that meet a condition. -/
def Runs (act : EStateM ε σ α) (s : σ) (good : α → σ → Prop) : Prop :=
  ∃ a t, act s = .ok a t ∧ good a t

variable {act : EStateM ε σ α} {s t : σ} {a : α} {e : ε} {good good' : α → σ → Prop}
  {bad bad' : ε → σ → Prop} {f : α → EStateM ε σ β} {next : β → σ → Prop}

theorem Ends.of_ok (h : act s = .ok a t) (ha : good a t) : Ends act s good bad := by
  rw [Ends, h]
  exact ha

theorem Ends.of_error (h : act s = .error e t) (he : bad e t) : Ends act s good bad := by
  rw [Ends, h]
  exact he

theorem Ends.congr {act' : EStateM ε σ α} (hact : act s = act' s) (h : Ends act' s good bad) :
    Ends act s good bad := by
  rwa [Ends, hact]

theorem Runs.ends (h : Runs act s good) : Ends act s good bad := by
  obtain ⟨a, t, hact, ha⟩ := h
  exact .of_ok hact ha

/-- What is known of an operation whose outcome is known. -/
theorem Ends.get (h : Ends act s good bad) (hact : act s = .ok a t) : good a t := by
  rwa [Ends, hact] at h

theorem Ends.mono (h : Ends act s good bad) (hgood : ∀ a t, good a t → good' a t)
    (hbad : ∀ e t, bad e t → bad' e t) : Ends act s good' bad' := by
  unfold Ends at h ⊢
  split at h
  · exact hgood _ _ h
  · exact hbad _ _ h

/-- Two conditions on the same outcome. -/
theorem Ends.and (h : Ends act s good bad) (h' : Ends act s good' bad') :
    Ends act s (fun a t ↦ good a t ∧ good' a t) fun e t ↦ bad e t ∧ bad' e t := by
  cases hact : act s with
  | ok a t =>
    rw [Ends, hact] at h h'
    exact .of_ok hact ⟨h, h'⟩
  | error e t =>
    rw [Ends, hact] at h h'
    exact .of_error hact ⟨h, h'⟩

/-- A second condition on the results that may not be asked for. -/
theorem Ends.andIf {p : Prop} (h : Ends act s good bad)
    (h' : p → Ends act s good' fun _ _ ↦ True) :
    Ends act s (fun a t ↦ good a t ∧ (p → good' a t)) bad := by
  by_cases hp : p
  · exact (h.and (h' hp)).mono (fun _ _ ha ↦ ha.imp_right fun ha _ ↦ ha) fun _ _ he ↦ he.1
  · exact h.mono (fun _ _ ha ↦ ⟨ha, fun hp' ↦ (hp hp').elim⟩) fun _ _ he ↦ he

theorem Runs.mono (h : Runs act s good) (hgood : ∀ a t, good a t → good' a t) :
    Runs act s good' := by
  obtain ⟨a, t, hact, ha⟩ := h
  exact ⟨a, t, hact, hgood a t ha⟩

/-- What an operation ends with is its result. -/
theorem Ends.known (h : Ends act s good bad) :
    Ends act s (fun a t ↦ good a t ∧ act s = .ok a t) bad := by
  unfold Ends at h ⊢
  split at h
  · rename_i a t hact
    exact ⟨h, hact⟩
  · exact h

/-- One operation after another. -/
theorem Ends.bind (h : Ends act s good bad) (hf : ∀ a t, good a t → Ends (f a) t next bad) :
    Ends (act >>= f) s next bad := by
  unfold Ends at h
  split at h
  · rename_i a t hact
    rw [Ends, bind_of_ok hact]
    exact hf a t h
  · rename_i e t hact
    exact .of_error (bind_of_error hact) h

@[inherit_doc Ends.bind]
theorem Runs.bind (h : Runs act s good) (hf : ∀ a t, good a t → Ends (f a) t next bad) :
    Ends (act >>= f) s next bad :=
  Ends.bind h.ends hf

@[inherit_doc Ends.bind]
theorem Runs.andThen (h : Runs act s good) (hf : ∀ a t, good a t → Runs (f a) t next) :
    Runs (act >>= f) s next := by
  obtain ⟨a, t, hact, ha⟩ := h
  obtain ⟨b, u, hb, hu⟩ := hf a t ha
  exact ⟨b, u, (bind_of_ok hact).trans hb, hu⟩

/-- What comes after an operation whose outcome is known. -/
theorem Ends.after (h : act s = .ok a t) (hf : Ends (f a) t next bad) :
    Ends (act >>= f) s next bad := by
  rw [Ends, bind_of_ok h]
  exact hf

@[inherit_doc Ends.after]
theorem Runs.after (h : act s = .ok a t) (hf : Runs (f a) t next) : Runs (act >>= f) s next := by
  obtain ⟨b, u, hb, hu⟩ := hf
  exact ⟨b, u, (bind_of_ok h).trans hb, hu⟩

theorem Ends.pure (h : good a s) : Ends (pure a : EStateM ε σ α) s good bad :=
  h

theorem Runs.pure (h : good a s) : Runs (pure a : EStateM ε σ α) s good :=
  ⟨a, s, rfl, h⟩

theorem Ends.throw (h : bad e s) : Ends (throw e : EStateM ε σ α) s good bad :=
  h

/-- An operation whose errors are dealt with. -/
theorem Ends.tryCatch {g : ε → EStateM ε σ α} (h : Ends act s good bad)
    (hg : ∀ e t, bad e t → Ends (g e) t good bad') : Ends (tryCatch act g) s good bad' := by
  unfold Ends at h
  split at h
  · rename_i a t hact
    exact .of_ok (tryCatch_of_ok hact) h
  · rename_i e t hact
    rw [Ends, tryCatch_of_error hact]
    exact hg e t h

/-! ## Operations between related states -/

/-- An operation ends in a state related to the one where it began, also where it ends with an
error. -/
def Within (R : σ → σ → Prop) (act : EStateM ε σ α) : Prop :=
  ∀ s, Ends act s (fun _ t ↦ R s t) fun _ t ↦ R s t

namespace Within

variable {γ : Type} {R : σ → σ → Prop}

/-- The state after an operation that has a result. -/
theorem of_ok (hact : Within R act) (hrun : act s = .ok a t) : R s t := by
  have hs := hact s
  rwa [Ends, hrun] at hs

/-- The state after an operation that ends with an error. -/
theorem of_error (hact : Within R act) (hrun : act s = .error e t) : R s t := by
  have hs := hact s
  rwa [Ends, hrun] at hs

/-- A change of the state between related ones. -/
theorem modifyGet {g : σ → α × σ} (hg : ∀ s, R s (g s).2) :
    Within R (modifyGet g : EStateM ε σ α) :=
  fun s ↦ .of_ok rfl (hg s)

theorem modify {g : σ → σ} (hg : ∀ s, R s (g s)) : Within R (modify g : EStateM ε σ PUnit) :=
  modifyGet hg

variable [IsPreorder σ R]

theorem pure (a : α) : Within R (pure a : EStateM ε σ α) :=
  fun s ↦ .pure (refl_of R s)

theorem throw (e : ε) : Within R (throw e : EStateM ε σ α) :=
  fun s ↦ .throw (refl_of R s)

/-- What would come after an error does not matter. -/
theorem throwThen (e : ε) (f : α → EStateM ε σ β) :
    Within R ((MonadExcept.throw e : EStateM ε σ α) >>= f) :=
  fun s ↦ .of_error rfl (refl_of R s)

theorem get : Within R (get : EStateM ε σ σ) :=
  fun s ↦ .of_ok rfl (refl_of R s)

/-- One operation after another, where the result of the first is known. -/
theorem bindKnown (hact : Within R act) (hf : ∀ s a t, act s = .ok a t → Within R (f a)) :
    Within R (act >>= f) :=
  fun s ↦ Ends.bind (hact s).known fun a t ⟨ht, hrun⟩ ↦
    (hf s a t hrun t).mono (fun _ _ hu ↦ trans_of R ht hu) fun _ _ hu ↦ trans_of R ht hu

theorem bind (hact : Within R act) (hf : ∀ a, Within R (f a)) : Within R (act >>= f) :=
  hact.bindKnown fun _ a _ _ ↦ hf a

theorem tryCatch {g : ε → EStateM ε σ α} (hact : Within R act) (hg : ∀ e, Within R (g e)) :
    Within R (tryCatch act g) :=
  fun s ↦ Ends.tryCatch (hact s) fun e t ht ↦
    (hg e t).mono (fun _ _ hu ↦ trans_of R ht hu) fun _ _ hu ↦ trans_of R ht hu

theorem mapM {g : γ → EStateM ε σ α} (hg : ∀ x, Within R (g x)) (xs : List γ) :
    Within R (xs.mapM g) := by
  induction xs with
  | nil => exact .pure []
  | cons x xs ih =>
    rw [List.mapM_cons]
    exact (hg x).bind fun _ ↦ ih.bind fun _ ↦ .pure _

end Within

end ScriptHeap
