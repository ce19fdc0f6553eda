import ScriptHeap.Host.Sample
import ScriptHeap.Proofs.Files.Inspecting
import ScriptHeap.Proofs.Queue

/-!
# Files inspected by another thread

One thread, the loader, inspects files and pushes what came of each to a queue; at its end it pushes
a mark, also when it panics.  Another thread, the collector, takes from the queue what is there,
going to sleep when nothing is, until it gets the mark.  Their critical sections come one after
another in any order.

What holds in every state is one equation: what the collector took and what is in the queue is what
came of the files that are done, and then the mark if the loader is at its end.

## What is here

* `Loading` — the two threads and their queue.
* `Loading.Step`, `Loading.Runs` — one critical section, and a sequence of them.
* `Loading.Kept` — the invariant; `Loading.Step.kept`, `Loading.Runs.kept` — it is kept.
* `Loading.Kept.enabled_loader`, `Loading.Kept.enabled_collector` — as long as it is not at its end
  the loader can go on, and then the collector can.
* `Loading.Fair`, `Loading.Fair.ends` — the collector comes to its end.
* `Loading.collects_in_order` — nothing is lost or put out of order, and what the command prints.
-/

set_option autoImplicit false
namespace ScriptHeap

/-- The two threads. -/
inductive Party where
  | loader
  | collector
  deriving DecidableEq

/-- The threads that inspect files, and the queue between them. -/
structure Loading (Obj : Type) where
  /-- The queue.  An entry is what came of a file; none marks the end. -/
  exchange : Exchange Party (Option (Inspected Obj))
  /-- The heap as the files that are done left it. -/
  heap : Heap Obj
  /-- The paths that are not done.  The loader works on the first of them. -/
  left : List String
  /-- Whether the loader is at its end. -/
  finished : Bool
  /-- What the collector took. -/
  results : List (Inspected Obj)
  /-- Whether the collector is at its end. -/
  ended : Bool

namespace Loading

/-- What a thread does in one critical section. -/
inductive Move where
  /-- The loader pushes what came of a file. -/
  | load
  /-- The loader has done all files and pushes the mark. -/
  | finish
  /-- The loader panics at a file, and the mark is pushed. -/
  | panic
  /-- The collector takes what came of a file. -/
  | take
  /-- The collector gets anything else. -/
  | stop
  /-- The collector finds nothing and goes to sleep. -/
  | sleep
  /-- A sleeper wakes although nobody notified it. -/
  | stir
  deriving DecidableEq

/-- The thread that moves. -/
def Move.party? : Move → Option Party
  | load | finish | panic => some .loader
  | take | stop | sleep => some .collector
  | stir => none

variable {Obj : Type} [HostObject Obj] {read : String → Except FileProblem (List UInt8)}

/-- One critical section.  The loader may panic at a file for whatever reason; it has to where a
pool runs out, since then the file has no result. -/
inductive Step (read : String → Except FileProblem (List UInt8)) :
    Loading Obj → Move → Loading Obj → Prop where
  | load {s : Loading Obj} {e : Exchange Party (Option (Inspected Obj))} {path : String}
    {rest : List String} {r : Inspected Obj} {h : Heap Obj} (hfinished : s.finished = false)
    (hleft : s.left = path :: rest) (hfile : inspectFile read path s.heap = .ok r h)
    (hpush : s.exchange.Step (.pushed .loader (some r)) e) :
    Step read s .load { s with exchange := e, heap := h, left := rest }
  | finish {s : Loading Obj} {e : Exchange Party (Option (Inspected Obj))}
    (hfinished : s.finished = false) (hleft : s.left = [])
    (hpush : s.exchange.Step (.pushed .loader none) e) :
    Step read s .finish { s with exchange := e, finished := true }
  | panic {s : Loading Obj} {e : Exchange Party (Option (Inspected Obj))}
    (hfinished : s.finished = false) (hleft : s.left ≠ [])
    (hpush : s.exchange.Step (.pushed .loader none) e) :
    Step read s .panic { s with exchange := e, finished := true }
  | take {s : Loading Obj} {e : Exchange Party (Option (Inspected Obj))} {r : Inspected Obj}
    (hended : s.ended = false)
    (hlook : s.exchange.Step (.looked .collector (some (.item (some r)))) e) :
    Step read s .take { s with exchange := e, results := s.results ++ [r] }
  | stop {s : Loading Obj} {e : Exchange Party (Option (Inspected Obj))}
    {w : Waited (Option (Inspected Obj))} (hended : s.ended = false)
    (hw : ∀ r, w ≠ .item (some r)) (hlook : s.exchange.Step (.looked .collector (some w)) e) :
    Step read s .stop { s with exchange := e, ended := true }
  | sleep {s : Loading Obj} {e : Exchange Party (Option (Inspected Obj))} (hended : s.ended = false)
    (hlook : s.exchange.Step (.looked .collector none) e) :
    Step read s .sleep { s with exchange := e }
  | stir {s : Loading Obj} {e : Exchange Party (Option (Inspected Obj))} {p : Party}
    (hstir : s.exchange.Step (.stirred p) e) : Step read s .stir { s with exchange := e }

/-- A sequence of critical sections. -/
inductive Runs (read : String → Except FileProblem (List UInt8)) :
    Loading Obj → List Move → Loading Obj → Prop where
  | refl (s : Loading Obj) : Runs read s [] s
  | step {s t u : Loading Obj} {m : Move} {ms : List Move} (hm : Step read s m t)
    (hms : Runs read t ms u) : Runs read s (m :: ms) u

/-- The beginning, with files to inspect. -/
def start (h : Heap Obj) (paths : List String) : Loading Obj :=
  ⟨.start, h, paths, false, [], false⟩

variable {s t : Loading Obj} {m : Move} {ms : List Move} {h₀ : Heap Obj} {paths : List String}

/-! ## What every state keeps -/

/-- The mark, if there is one. -/
def mark {α : Type} : Bool → List (Option α)
  | true => [none]
  | false => []

/-- What every state keeps: nobody cancels the queue, the loader never waits, and what was taken and
what is in the queue is what came of the files that are done, and the mark. -/
structure Kept (read : String → Except FileProblem (List UInt8)) (h₀ : Heap Obj)
    (paths : List String) (s : Loading Obj) : Prop where
  not_canceled : s.exchange.queue.canceled = false
  alert : s.exchange.Alert
  free : s.exchange.Free .loader
  done : ∃ done rs, done ++ s.left = paths ∧ (done.mapM (inspectFile read)) h₀ = .ok rs s.heap ∧
    s.results.map some ++ mark s.ended ++ s.exchange.queue.items = rs.map some ++ mark s.finished

theorem kept_start (h₀ : Heap Obj) (paths : List String) :
    (start h₀ paths).Kept read h₀ paths where
  not_canceled := rfl
  alert := Exchange.alert_start
  free := ⟨Finset.notMem_empty _, Finset.notMem_empty _⟩
  done := ⟨[], [], rfl, rfl, rfl⟩

/-- What happens to the queue in one critical section: nobody cancels it, and the loader does not
look. -/
theorem Step.exists_event (hm : Step read s m t) : ∃ e, s.exchange.Step e t.exchange ∧
    (∀ p, e ≠ .canceled p) ∧ ∀ r, e ≠ .looked .loader r := by
  cases hm with
  | load _ _ _ hpush => exact ⟨_, hpush, by simp⟩
  | finish _ _ hpush => exact ⟨_, hpush, by simp⟩
  | panic _ _ hpush => exact ⟨_, hpush, by simp⟩
  | take _ hlook => exact ⟨_, hlook, by simp⟩
  | stop _ _ hlook => exact ⟨_, hlook, by simp⟩
  | sleep _ hlook => exact ⟨_, hlook, by simp⟩
  | stir hstir => exact ⟨_, hstir, by simp⟩

/-- One critical section keeps what was taken and what is in the queue. -/
theorem Step.done (hm : Step read s m t) (hk : s.Kept read h₀ paths) :
    ∃ done rs, done ++ t.left = paths ∧ (done.mapM (inspectFile read)) h₀ = .ok rs t.heap ∧
      t.results.map some ++ mark t.ended ++ t.exchange.queue.items =
        rs.map some ++ mark t.finished := by
  obtain ⟨done, rs, hpaths, hrun, hsent⟩ := hk.done
  cases hm with
  | @load e path rest r h hfinished hleft hfile hpush =>
    refine ⟨done ++ [path], rs ++ [r], ?_, mapM_concat_eq_ok_iff.2 ⟨rs, _, r, hrun, hfile, rfl⟩, ?_⟩
    · rw [← hpaths, hleft, List.append_assoc, List.singleton_append]
    · simp only [hfinished, mark, List.append_nil] at hsent ⊢
      rw [hpush.items_of_pushed, ← List.append_assoc, hsent, List.map_append, List.map_singleton]
  | finish hfinished _ hpush | panic hfinished _ hpush =>
    refine ⟨done, rs, hpaths, hrun, ?_⟩
    simp only [hfinished, mark, List.append_nil] at hsent ⊢
    rw [hpush.items_of_pushed, ← List.append_assoc, hsent]
  | take hended hlook =>
    refine ⟨done, rs, hpaths, hrun, ?_⟩
    simp only [hended, mark, List.append_nil] at hsent ⊢
    rw [← hsent, hlook.items_of_item, List.map_append, List.map_singleton, List.append_assoc,
      List.singleton_append]
  | stop hended hw hlook =>
    obtain ⟨a, rfl⟩ := hlook.exists_item hk.not_canceled
    cases a with
    | some r => exact (hw r rfl).elim
    | none =>
      refine ⟨done, rs, hpaths, hrun, ?_⟩
      simp only [hended, mark, List.append_nil] at hsent ⊢
      rw [← hsent, hlook.items_of_item, List.append_assoc, List.singleton_append]
  | sleep _ hlook => exact ⟨done, rs, hpaths, hrun, by rw [hlook.items_of_none]; exact hsent⟩
  | stir hstir => exact ⟨done, rs, hpaths, hrun, by rw [hstir.items_of_stirred]; exact hsent⟩

/-- **One critical section** keeps all of it. -/
theorem Step.kept (hm : Step read s m t) (hk : s.Kept read h₀ paths) : t.Kept read h₀ paths := by
  obtain ⟨e, he, hcancel, hlook⟩ := hm.exists_event
  exact ⟨he.not_canceled hk.not_canceled hcancel, he.alert hk.alert, he.free hk.free hlook,
    hm.done hk⟩

/-- So does a run. -/
theorem Runs.kept (hms : Runs read s ms t) (hk : s.Kept read h₀ paths) :
    t.Kept read h₀ paths := by
  induction hms with
  | refl => exact hk
  | step hm _ ih => exact ih (hm.kept hk)

theorem Runs.concat {u : Loading Obj} (hms : Runs read s ms t) (hm : Step read t m u) :
    Runs read s (ms ++ [m]) u := by
  induction hms with
  | refl => exact .step hm (.refl _)
  | step hfirst _ ih => exact .step hfirst (ih hm)

/-! ## Panic -/

/-- The loader came to its end before all files were done. -/
def Failed (s : Loading Obj) : Prop :=
  s.finished = true ∧ s.left ≠ []

theorem Step.failed_iff (hm : Step read s m t) : t.Failed ↔ s.Failed ∨ m = .panic := by
  cases hm <;> simp_all [Failed]

theorem Runs.failed_iff (hms : Runs read s ms t) : t.Failed ↔ s.Failed ∨ .panic ∈ ms := by
  induction hms with
  | refl => simp
  | step hm _ ih => rw [ih, hm.failed_iff, List.mem_cons, or_assoc, eq_comm]

/-! ## At the end -/

theorem map_some_append_none_inj {α : Type} {as bs : List α} {xs ys : List (Option α)}
    (h : as.map some ++ none :: xs = bs.map some ++ none :: ys) : as = bs ∧ xs = ys := by
  induction as generalizing bs with
  | nil => cases bs <;> simp_all
  | cons a as ih =>
    cases bs with
    | nil => simp at h
    | cons b bs =>
      obtain ⟨hab, hrest⟩ := List.cons.inj h
      obtain ⟨rfl, rfl⟩ := ih hrest
      cases hab
      exact ⟨rfl, rfl⟩

/-- **When the collector is at its end**, the loader is, too, and the collector has what came of the
files that are done. -/
theorem Kept.results (hk : s.Kept read h₀ paths) (hended : s.ended = true) :
    s.finished = true ∧ ∃ done, done ++ s.left = paths ∧
      (done.mapM (inspectFile read)) h₀ = .ok s.results s.heap := by
  obtain ⟨done, rs, hpaths, hrun, hsent⟩ := hk.done
  rw [hended, mark, List.append_assoc, List.singleton_append] at hsent
  cases hfinished : s.finished with
  | false =>
    rw [hfinished, mark, List.append_nil] at hsent
    have hmem : none ∈ rs.map some := hsent ▸ List.mem_append_right _ List.mem_cons_self
    simp at hmem
  | true =>
    rw [hfinished, mark] at hsent
    obtain ⟨hrs, -⟩ := map_some_append_none_inj hsent
    exact ⟨rfl, done, hpaths, hrs ▸ hrun⟩

/-! ## Going on -/

/-- A thread can do something. -/
def Enabled (read : String → Except FileProblem (List UInt8)) (p : Party) (s : Loading Obj) :
    Prop :=
  ∃ m t, m.party? = some p ∧ Step read s m t

/-- As long as it is not at its end, **the loader can go on**. -/
theorem Kept.enabled_loader (hk : s.Kept read h₀ paths) (hfinished : s.finished = false) :
    Enabled read .loader s := by
  have hpush (a : Option (Inspected Obj)) : ∃ e, s.exchange.Step (.pushed .loader a) e :=
    ⟨_, .push hk.free subset_rfl id⟩
  obtain ⟨e, he⟩ := hpush none
  cases hleft : s.left with
  | nil => exact ⟨.finish, _, rfl, .finish hfinished hleft he⟩
  | cons path rest =>
    exact ⟨.panic, _, rfl, .panic hfinished (by rw [hleft]; exact List.cons_ne_nil _ _) he⟩

/-- When the loader is at its end and the collector is not, the mark is in the queue. -/
theorem Kept.items_ne_nil (hk : s.Kept read h₀ paths) (hfinished : s.finished = true)
    (hended : s.ended = false) : s.exchange.queue.items ≠ [] := by
  obtain ⟨done, rs, -, -, hsent⟩ := hk.done
  intro hnil
  rw [hfinished, hended, hnil, mark, mark, List.append_nil, List.append_nil] at hsent
  have hmem : none ∈ s.results.map some := hsent ▸ List.mem_append_right _ List.mem_cons_self
  simp at hmem

/-- Nobody sleeps while something is in the queue. -/
theorem Kept.awake (hk : s.Kept read h₀ paths) (hitems : s.exchange.queue.items ≠ []) :
    .collector ∉ s.exchange.asleep := by
  intro hasleep
  have hpos : 0 < s.exchange.woken.card :=
    (List.length_pos_iff.2 hitems).trans_le (hk.alert.awaited ⟨_, hasleep⟩)
  obtain ⟨p, hp⟩ := Finset.card_pos.1 hpos
  cases p with
  | loader => exact hk.free.2 hp
  | collector => exact Finset.disjoint_left.1 hk.alert.disjoint hasleep hp

/-- When the loader is at its end, **the collector can go on** as long as it is not at its own. -/
theorem Kept.enabled_collector (hk : s.Kept read h₀ paths) (hfinished : s.finished = true)
    (hended : s.ended = false) : Enabled read .collector s := by
  have hitems := hk.items_ne_nil hfinished hended
  obtain ⟨a, rest, hqueue⟩ := List.exists_cons_of_ne_nil hitems
  have hlook := Exchange.Step.leave (hk.awake hitems)
    (Queue.popWait?_eq_some_iff.2 (.inr ⟨a, rest, hk.not_canceled, hqueue, rfl, rfl⟩))
  cases a with
  | some r => exact ⟨.take, _, rfl, .take hended hlook⟩
  | none => exact ⟨.stop, _, rfl, .stop hended (by simp) hlook⟩

/-- At both ends nobody goes on. -/
theorem not_enabled {p : Party} (hfinished : s.finished = true) (hended : s.ended = true) :
    ¬ Enabled read p s := by
  rintro ⟨m, t, hparty, hm⟩
  cases hm <;> simp_all [Move.party?]

/-! ## Coming to an end -/

/-- An execution without end, in which also nothing may happen for a while.  A thread that can go on
at any time from some moment on goes on some time. -/
structure Fair (read : String → Except FileProblem (List UInt8)) (σ : Nat → Loading Obj) :
    Prop where
  next : ∀ n, σ (n + 1) = σ n ∨ ∃ m, Step read (σ n) m (σ (n + 1))
  fair : ∀ p n, (∀ k, n ≤ k → Enabled read p (σ k)) →
    ∃ k, n ≤ k ∧ ∃ m, m.party? = some p ∧ Step read (σ k) m (σ (k + 1))

variable {σ : Nat → Loading Obj}

theorem Fair.runs (hσ : Fair read σ) (n : Nat) : ∃ ms, Runs read (σ 0) ms (σ n) := by
  induction n with
  | zero => exact ⟨[], .refl _⟩
  | succ n ih =>
    obtain ⟨ms, hms⟩ := ih
    rcases hσ.next n with hsame | ⟨m, hm⟩
    · exact ⟨ms, hsame ▸ hms⟩
    · exact ⟨_, hms.concat hm⟩

/-- **A goal is reached** when a thread can go on until then and comes nearer whenever it does, and
the other one does not lead away from it. -/
theorem Fair.reaches (hσ : Fair read σ) (p : Party) (goal : Loading Obj → Prop)
    (rank : Loading Obj → Nat) (n : Nat)
    (henabled : ∀ k, n ≤ k → ¬ goal (σ k) → Enabled read p (σ k))
    (hstep : ∀ k m, n ≤ k → ¬ goal (σ k) → Step read (σ k) m (σ (k + 1)) →
      goal (σ (k + 1)) ∨ rank (σ (k + 1)) ≤ rank (σ k) ∧
        (m.party? = some p → rank (σ (k + 1)) < rank (σ k))) :
    ∃ k, n ≤ k ∧ goal (σ k) := by
  by_contra hnever
  have hnot (k : Nat) (hk : n ≤ k) : ¬ goal (σ k) := fun hgoal ↦ hnever ⟨k, hk, hgoal⟩
  have hle (j k : Nat) (hj : n ≤ j) (hjk : j ≤ k) : rank (σ k) ≤ rank (σ j) := by
    induction k, hjk using Nat.le_induction with
    | base => exact Nat.le_refl _
    | succ k hjk ih =>
      have hk := hj.trans hjk
      rcases hσ.next k with hsame | ⟨m, hm⟩
      · exact hsame ▸ ih
      · rcases hstep k m hk (hnot k hk) hm with hgoal | ⟨hrank, -⟩
        · exact (hnot (k + 1) (Nat.le_succ_of_le hk) hgoal).elim
        · exact hrank.trans ih
  have hless (j : Nat) (hj : n ≤ j) : ∃ k, n ≤ k ∧ rank (σ k) < rank (σ j) := by
    obtain ⟨k, hjk, m, hparty, hm⟩ :=
      hσ.fair p j fun k hk ↦ henabled k (hj.trans hk) (hnot k (hj.trans hk))
    have hk := hj.trans hjk
    rcases hstep k m hk (hnot k hk) hm with hgoal | ⟨-, hrank⟩
    · exact (hnot (k + 1) (Nat.le_succ_of_le hk) hgoal).elim
    · exact ⟨k + 1, Nat.le_succ_of_le hk, (hrank hparty).trans_le (hle j k hj hjk)⟩
  have hfalse (r j : Nat) (hj : n ≤ j) (hr : rank (σ j) ≤ r) : False := by
    induction r generalizing j with
    | zero =>
      obtain ⟨k, -, hrank⟩ := hless j hj
      omega
    | succ r ih =>
      obtain ⟨k, hk, hrank⟩ := hless j hj
      exact ih k hk (by omega)
  exact hfalse _ n (Nat.le_refl n) (Nat.le_refl _)

theorem Step.finished (hm : Step read s m t) (hs : s.finished = true) : t.finished = true := by
  cases hm <;> first | rfl | exact hs

/-- The loader gets on with the files. -/
theorem Step.left_le (hm : Step read s m t) : t.finished = true ∨
    t.left.length ≤ s.left.length ∧
      (m.party? = some .loader → t.left.length < s.left.length) := by
  cases hm with
  | load _ hleft => exact .inr ⟨by simp [hleft], fun _ ↦ by simp [hleft]⟩
  | finish | panic => exact .inl rfl
  | take | stop | sleep | stir => exact .inr ⟨Nat.le_refl _, fun h ↦ nomatch h⟩

/-- When nothing comes any more the collector gets on with what is in the queue. -/
theorem Step.items_le (hm : Step read s m t) (hfinished : s.finished = true)
    (hitems : s.exchange.queue.items ≠ []) : t.ended = true ∨
    t.exchange.queue.items.length ≤ s.exchange.queue.items.length ∧
      (m.party? = some .collector →
        t.exchange.queue.items.length < s.exchange.queue.items.length) := by
  cases hm with
  | load hnot | finish hnot | panic hnot =>
    rw [hfinished] at hnot
    cases hnot
  | take _ hlook =>
    have hlength := congrArg List.length hlook.items_of_item
    rw [List.length_cons] at hlength
    exact .inr ⟨by simp only; omega, fun _ ↦ by simp only; omega⟩
  | stop => exact .inl rfl
  | sleep _ hlook =>
    cases hlook with
    | wait _ hq => exact (hitems (Queue.popWait?_eq_none_iff.1 hq).2).elim
  | stir hstir =>
    exact .inr ⟨(congrArg List.length hstir.items_of_stirred).le, fun h ↦ nomatch h⟩

/-- **The collector comes to its end**, whether the loader panics or not. -/
theorem Fair.ends (hσ : Fair read σ) (hstart : σ 0 = start h₀ paths) :
    ∃ n, (σ n).ended = true := by
  have hkept (n : Nat) : (σ n).Kept read h₀ paths := by
    obtain ⟨ms, hms⟩ := hσ.runs n
    exact hms.kept (hstart ▸ kept_start h₀ paths)
  obtain ⟨n, -, hfinished⟩ := hσ.reaches .loader (·.finished = true) (·.left.length) 0
    (fun k _ hnot ↦ (hkept k).enabled_loader (Bool.eq_false_iff.2 hnot))
    fun k m _ _ hm ↦ hm.left_le
  have hstays (k : Nat) (hk : n ≤ k) : (σ k).finished = true := by
    induction k, hk using Nat.le_induction with
    | base => exact hfinished
    | succ k _ ih =>
      rcases hσ.next k with hsame | ⟨m, hm⟩
      · exact hsame ▸ ih
      · exact hm.finished ih
  obtain ⟨k, -, hended⟩ := hσ.reaches .collector (·.ended = true)
    (·.exchange.queue.items.length) n
    (fun k hk hnot ↦ (hkept k).enabled_collector (hstays k hk) (Bool.eq_false_iff.2 hnot))
    fun k m hk hnot hm ↦ hm.items_le (hstays k hk)
      ((hkept k).items_ne_nil (hstays k hk) (Bool.eq_false_iff.2 hnot))
  exact ⟨k, hended⟩

/-! ## What is collected -/

/-- The results are what came of certain files one after another, and tell what these files hold. -/
structure Collected (read : String → Except FileProblem (List UInt8)) (h₀ : Heap Obj)
    (done : List String) (s : Loading Obj) : Prop where
  results : (done.mapM (inspectFile read)) h₀ = .ok s.results s.heap
  tells : List.Forall₂ (Tells read s.heap) s.results done

theorem Runs.collected {xs : List Hold} (hs : h₀.Sound xs) (hms : Runs read (start h₀ paths) ms s)
    (hended : s.ended = true) : ∃ done, done ++ s.left = paths ∧ s.Collected read h₀ done ∧
      (s.left ≠ [] ↔ .panic ∈ ms) := by
  obtain ⟨hfinished, done, hpaths, hrun⟩ := (hms.kept (kept_start h₀ paths)).results hended
  obtain ⟨-, htells, -⟩ := tells_mapM hs hrun
  have hfailed := hms.failed_iff
  refine ⟨done, hpaths, ⟨hrun, htells⟩, ?_⟩
  simpa [Failed, hfinished, start] using hfailed

/-- **Nothing is lost and all is in order**, whatever the interleaving.  If the loader does not
panic, the collector ends with one result for each path, in order, which tells what the file holds;
this is what comes of the files one after another.  If the loader panics at a path, the collector
ends with the results of the paths before it.  In both cases it comes to its end.  So the command
that shows files prints one line for each file that holds a datum and one error for each other one,
and it fails exactly when there is one of these. -/
theorem collects_in_order {xs : List Hold} (hs : h₀.Sound xs)
    (read : String → Except FileProblem (List UInt8)) (paths : List String) :
    (∀ ms s, Runs read (start h₀ paths) ms s → s.ended = true →
      (.panic ∉ ms → s.Collected read h₀ paths ∧
        inspectAll read paths h₀ = .ok s.results s.heap) ∧
      (.panic ∈ ms → ∃ done path rest, paths = done ++ path :: rest ∧ s.left = path :: rest ∧
        s.Collected read h₀ done ∧ ∀ fault h, inspectFile read path s.heap = .error fault h →
          inspectAll read paths h₀ = .ok s.results h)) ∧
    (∀ σ, σ 0 = start h₀ paths → Fair read σ →
      ∃ n ms, Runs read (start h₀ paths) ms (σ n) ∧ (σ n).ended = true) ∧
    ∀ surroundings files, Command.run surroundings (.inspect files) =
        { code := if (files.filterMap (Command.badLine? surroundings.read)).isEmpty then 0 else 1
          output := String.join (files.filterMap (Command.goodLine? surroundings.read))
          errors := String.join (files.filterMap (Command.badLine? surroundings.read))
          written := none } ∧
      ((Command.run surroundings (.inspect files)).code = 0 ↔
        ∀ path ∈ files, ∃ d : Datum Empty, fileDatum surroundings.read path = .ok d) := by
  refine ⟨fun ms s hms hended ↦ ?_, fun σ hstart hσ ↦ ?_, fun surroundings files ↦
    ⟨Command.showFiles_eq surroundings files, Command.showFiles_code surroundings files⟩⟩
  · obtain ⟨done, hpaths, hcollected, hpanic⟩ := hms.collected hs hended
    refine ⟨fun hnot ↦ ?_, fun hmem ↦ ?_⟩
    · have hleft : s.left = [] := not_not.1 (hpanic.not.2 hnot)
      rw [hleft, List.append_nil] at hpaths
      subst hpaths
      exact ⟨hcollected, inspectAll_eq hcollected.results⟩
    · obtain ⟨path, rest, hleft⟩ := List.exists_cons_of_ne_nil (hpanic.2 hmem)
      rw [hleft] at hpaths
      refine ⟨done, path, rest, hpaths.symm, hleft, hcollected, fun fault h hfault ↦ ?_⟩
      rw [← hpaths]
      simpa using inspectAll_append hcollected.results (inspectAll_fault hfault)
  · obtain ⟨n, hended⟩ := hσ.ends hstart
    obtain ⟨ms, hms⟩ := hσ.runs n
    exact ⟨n, ms, hstart ▸ hms, hended⟩

/-! ## Two files -/

/-- A file that holds a number; no other can be read. -/
def numberFile (path : String) : Except FileProblem (List UInt8) :=
  if path = "n.bin" then .ok [3, 7, 0, 0, 0] else .error .notFound

/-- What comes of it. -/
def loadedNumber : Inspected SampleObject :=
  ("n.bin", .ok (.scalar (.integer 7)))

/-- What comes of a file that cannot be read. -/
def loadedNothing : Inspected SampleObject :=
  ("m.bin", .error (.file "m.bin" .notFound))

/-- The threads in the middle of this: nothing is brought into the heap. -/
def amid (items : List (Option (Inspected SampleObject))) (asleep woken : Finset Party)
    (left : List String) (finished : Bool) (results : List (Inspected SampleObject))
    (ended : Bool) : Loading SampleObject :=
  ⟨⟨⟨items, false⟩, asleep, woken⟩, .empty .standard, left, finished, results, ended⟩

/-- The collector comes first and has to wait. -/
def execution : Nat → Loading SampleObject
  | 0 => amid [] ∅ ∅ ["n.bin", "m.bin"] false [] false
  | 1 => amid [] {.collector} ∅ ["n.bin", "m.bin"] false [] false
  | 2 => amid [some loadedNumber] ∅ {.collector} ["m.bin"] false [] false
  | 3 => amid [] ∅ ∅ ["m.bin"] false [loadedNumber] false
  | 4 => amid [some loadedNothing] ∅ ∅ [] false [loadedNumber] false
  | 5 => amid [some loadedNothing, none] ∅ ∅ [] true [loadedNumber] false
  | 6 => amid [none] ∅ ∅ [] true [loadedNumber, loadedNothing] false
  | _ => amid [] ∅ ∅ [] true [loadedNumber, loadedNothing] true

/-- What happens in it. -/
def executed : List Move :=
  [.sleep, .load, .take, .load, .finish, .take, .stop]

/-- A push for which nobody waits. -/
theorem step_pushed (items : List (Option (Inspected SampleObject)))
    (a : Option (Inspected SampleObject)) :
    (⟨⟨items, false⟩, ∅, ∅⟩ : Exchange Party _).Step (.pushed .loader a)
      ⟨⟨items ++ [a], false⟩, ∅, ∅⟩ :=
  .push ⟨Finset.notMem_empty _, Finset.notMem_empty _⟩ subset_rfl id

theorem step_execution (n : Nat) (hn : n < executed.length) :
    Step numberFile (execution n) executed[n] (execution (n + 1)) := by
  have hwoken : (⟨⟨[], false⟩, {.collector}, ∅⟩ : Exchange Party _).Step
      (.pushed .loader (some loadedNumber)) ⟨⟨[some loadedNumber], false⟩, ∅, {.collector}⟩ :=
    .push ⟨by decide, Finset.notMem_empty _⟩ subset_rfl id
  match n, hn with
  | 0, _ => exact .sleep rfl (.wait (Finset.notMem_empty _) rfl)
  | 1, _ => exact .load rfl rfl rfl hwoken
  | 2, _ => exact .take rfl (.leave (Finset.notMem_empty _) rfl)
  | 3, _ => exact .load rfl rfl rfl (step_pushed _ _)
  | 4, _ => exact .finish rfl rfl (step_pushed _ _)
  | 5, _ => exact .take rfl (.leave (Finset.notMem_empty _) rfl)
  | 6, _ => exact .stop rfl (by simp) (.leave (Finset.notMem_empty _) rfl)

theorem runs_execution : Runs numberFile (execution 0) executed (execution 7) :=
  .step (step_execution 0 (by decide)) <| .step (step_execution 1 (by decide)) <|
    .step (step_execution 2 (by decide)) <| .step (step_execution 3 (by decide)) <|
    .step (step_execution 4 (by decide)) <| .step (step_execution 5 (by decide)) <|
    .step (step_execution 6 (by decide)) (.refl _)

theorem fair_execution : Fair numberFile execution where
  next n := by
    by_cases hn : n < executed.length
    · exact .inr ⟨_, step_execution n hn⟩
    · obtain ⟨k, rfl⟩ := Nat.exists_eq_add_of_le' (Nat.le_of_not_lt hn)
      exact .inl rfl
  fair p n hp := (not_enabled rfl rfl (hp (n + 7) (Nat.le_add_right n 7))).elim

/-- The loader panics at the second file. -/
theorem runs_panic : Runs numberFile (start (.empty .standard) ["n.bin", "m.bin"])
    [.load, .panic, .take, .stop] (amid [] ∅ ∅ ["m.bin"] true [loadedNumber] true) := by
  refine .step (t := amid [some loadedNumber] ∅ ∅ ["m.bin"] false [] false)
    (.load rfl rfl rfl (step_pushed _ _)) ?_
  refine .step (t := amid [some loadedNumber, none] ∅ ∅ ["m.bin"] true [] false)
    (.panic rfl (List.cons_ne_nil _ _) (step_pushed _ _)) ?_
  refine .step (t := amid [none] ∅ ∅ ["m.bin"] true [loadedNumber] false)
    (.take rfl (.leave (Finset.notMem_empty _) rfl)) ?_
  exact .step (.stop rfl (by simp) (.leave (Finset.notMem_empty _) rfl)) (.refl _)

/-- Without a panic both results are collected in order, with it the first one; and the execution
that begins like that ends. -/
theorem collects_in_order_twoFiles :
    (Heap.empty .standard : Heap SampleObject).Sound [] ∧
    (Runs numberFile (start (.empty .standard) ["n.bin", "m.bin"]) executed (execution 7) ∧
      inspectAll numberFile ["n.bin", "m.bin"] (.empty .standard) =
        .ok [loadedNumber, loadedNothing] (.empty .standard)) ∧
    (∃ s, Runs numberFile (start (.empty .standard) ["n.bin", "m.bin"])
        [.load, .panic, .take, .stop] s ∧ s.results = [loadedNumber] ∧
      ∃ done path rest, ["n.bin", "m.bin"] = done ++ path :: rest ∧ s.left = path :: rest ∧
        s.Collected numberFile (.empty .standard) done) ∧
    Fair numberFile execution ∧
      ∃ n ms, Runs numberFile (start (.empty .standard) ["n.bin", "m.bin"]) ms (execution n) ∧
        (execution n).ended = true := by
  have hs : (Heap.empty .standard : Heap SampleObject).Sound [] := Heap.sound_empty _
  obtain ⟨hruns, hfair, -⟩ := collects_in_order hs numberFile ["n.bin", "m.bin"]
  obtain ⟨done, path, rest, hpaths, hleft, hcollected, -⟩ :=
    (hruns _ _ runs_panic rfl).2 (by decide)
  exact ⟨hs, ⟨runs_execution, ((hruns _ _ runs_execution rfl).1 (by decide)).2⟩,
    ⟨_, runs_panic, rfl, done, path, rest, hpaths, hleft, hcollected⟩, fair_execution,
    hfair _ rfl fair_execution⟩

end Loading
end ScriptHeap
