import Mathlib.Data.Finset.Card
import ScriptHeap.Queue

/-!
# A queue between threads

Threads share a queue under one lock, and consumers that find nothing go to sleep until they are
notified.  Each operation is one critical section, so what happens to a queue is a sequence of
events: the operations of any number of threads one after another, in any order.  A consumer in the
middle of waiting looks at the queue once, goes to sleep if it has to, is woken by a push, by a
cancellation or by nothing at all, and looks again some time after that.

## What is here

* `Exchange` — a queue, the consumers that are asleep, and those that were woken but have not looked
  again yet.
* `Exchange.Step`, `Exchange.Runs` — what happens in one critical section, and in a sequence of
  them.
* `Exchange.fifo` — **nothing is lost, doubled or put out of order**, and after a cancellation
  nobody waits for items any more while those that are there can still be taken.
* `Exchange.no_lost_wakeup` — **whenever a consumer sleeps**, each item in the queue has a woken
  consumer on its way.
* `Exchange.runs_pushToWaiting`, `Exchange.runs_cancelWaiting` — what a single waiting consumer
  gets, as `Queue.pushToWaiting` and `Queue.cancelWaiting` have it.
-/

set_option autoImplicit false
namespace ScriptHeap

/-! ## Looking at a queue -/

namespace Queue

variable {α : Type} {q q' : Queue α} {w : Waited α}

/-- What a look of a waiting consumer gives: refusal comes first, then the first item. -/
theorem popWait?_eq_some_iff : q.popWait? = some (w, q') ↔
    (q.canceled = true ∧ w = .canceled ∧ q' = q) ∨
      ∃ a rest, q.canceled = false ∧ q.items = a :: rest ∧ w = .item a ∧
        q' = { q with items := rest } := by
  obtain ⟨items, canceled⟩ := q
  cases canceled <;> cases items <;> simp [popWait?, eq_comm, and_comm]

theorem popWait?_eq_none_iff : q.popWait? = none ↔ q.canceled = false ∧ q.items = [] := by
  obtain ⟨items, canceled⟩ := q
  cases canceled <;> cases items <;> simp [popWait?]

theorem tryPop_items (q : Queue α) : q.tryPop.1.toList ++ q.tryPop.2.items = q.items := by
  obtain ⟨items, canceled⟩ := q
  cases items <;> simp [tryPop]

@[simp] theorem tryPop_canceled (q : Queue α) : q.tryPop.2.canceled = q.canceled := by
  obtain ⟨items, canceled⟩ := q
  cases items <;> rfl

theorem tryPop_length_le (q : Queue α) : q.tryPop.2.items.length ≤ q.items.length := by
  have h := congrArg List.length q.tryPop_items
  simp only [List.length_append] at h
  omega

end Queue

/-! ## Events and critical sections -/

/-- What happens to a queue, and by which thread. -/
inductive QueueEvent (ι α : Type) where
  | pushed (i : ι) (a : α)
  /-- A look at the queue that does not wait. -/
  | polled (i : ι) (r : Option α)
  /-- A look of a consumer that waits.  When it gets nothing it goes to sleep. -/
  | looked (i : ι) (r : Option (Waited α))
  | canceled (i : ι)
  /-- A sleeper wakes although nobody notified it. -/
  | stirred (i : ι)
  deriving DecidableEq

namespace QueueEvent

variable {ι α : Type}

/-- The item that goes into the queue. -/
def arriving? : QueueEvent ι α → Option α
  | pushed _ a => some a
  | _ => none

/-- The item that is handed out. -/
def leaving? : QueueEvent ι α → Option α
  | polled _ r => r
  | looked _ (some (.item a)) => some a
  | _ => none

/-- The item that a certain thread puts into the queue. -/
def arrivingFrom? [DecidableEq ι] (j : ι) : QueueEvent ι α → Option α
  | pushed i a => if i = j then some a else none
  | _ => none

end QueueEvent

section
variable {ι α : Type}

/-- The items that went into a queue, in this order. -/
def arrived (es : List (QueueEvent ι α)) : List α :=
  es.filterMap QueueEvent.arriving?

/-- The items that were handed out, in this order. -/
def handedOut (es : List (QueueEvent ι α)) : List α :=
  es.filterMap QueueEvent.leaving?

/-- The items of one producer. -/
def arrivedFrom [DecidableEq ι] (j : ι) (es : List (QueueEvent ι α)) : List α :=
  es.filterMap (QueueEvent.arrivingFrom? j)

@[simp] theorem arrived_nil : arrived ([] : List (QueueEvent ι α)) = [] := rfl

@[simp] theorem handedOut_nil : handedOut ([] : List (QueueEvent ι α)) = [] := rfl

@[simp] theorem arrived_cons (e : QueueEvent ι α) (es : List (QueueEvent ι α)) :
    arrived (e :: es) = e.arriving?.toList ++ arrived es := by
  cases h : e.arriving? <;> simp [arrived, h]

@[simp] theorem handedOut_cons (e : QueueEvent ι α) (es : List (QueueEvent ι α)) :
    handedOut (e :: es) = e.leaving?.toList ++ handedOut es := by
  cases h : e.leaving? <;> simp [handedOut, h]

@[simp] theorem arrivedFrom_cons [DecidableEq ι] (j : ι) (e : QueueEvent ι α)
    (es : List (QueueEvent ι α)) :
    arrivedFrom j (e :: es) = (e.arrivingFrom? j).toList ++ arrivedFrom j es := by
  cases h : e.arrivingFrom? j <;> simp [arrivedFrom, h]

end

/-- A queue with the consumers that wait for its items. -/
structure Exchange (ι α : Type) where
  queue : Queue α
  /-- The consumers that are asleep. -/
  asleep : Finset ι
  /-- The consumers that were woken and have not looked at the queue since. -/
  woken : Finset ι

namespace Exchange

variable {ι α : Type} [DecidableEq ι]

/-- An empty queue that nobody waits for. -/
def start : Exchange ι α :=
  ⟨.empty, ∅, ∅⟩

/-- A thread that is not in the middle of waiting. -/
def Free (s : Exchange ι α) (i : ι) : Prop :=
  i ∉ s.asleep ∧ i ∉ s.woken

instance (s : Exchange ι α) (i : ι) : Decidable (s.Free i) :=
  inferInstanceAs (Decidable (i ∉ s.asleep ∧ i ∉ s.woken))

/-- One critical section. -/
inductive Step : Exchange ι α → QueueEvent ι α → Exchange ι α → Prop where
  /-- A push wakes at least one sleeper, if there is one. -/
  | push {s : Exchange ι α} {i : ι} {a : α} {notified : Finset ι} (hi : s.Free i)
      (hsub : notified ⊆ s.asleep) (hone : s.asleep.Nonempty → notified.Nonempty) :
      Step s (.pushed i a) ⟨s.queue.push a, s.asleep \ notified, s.woken ∪ notified⟩
  | tryPop {s : Exchange ι α} {i : ι} (hi : s.Free i) :
      Step s (.polled i s.queue.tryPop.1) { s with queue := s.queue.tryPop.2 }
  /-- A consumer that waits, whether it has just come or was woken, gets an answer. -/
  | leave {s : Exchange ι α} {i : ι} {w : Waited α} {q : Queue α} (hi : i ∉ s.asleep)
      (hq : s.queue.popWait? = some (w, q)) :
      Step s (.looked i (some w)) ⟨q, s.asleep, s.woken.erase i⟩
  /-- It gets none and goes to sleep. -/
  | wait {s : Exchange ι α} {i : ι} (hi : i ∉ s.asleep) (hq : s.queue.popWait? = none) :
      Step s (.looked i none) ⟨s.queue, insert i s.asleep, s.woken.erase i⟩
  /-- A cancellation wakes all sleepers. -/
  | cancel {s : Exchange ι α} {i : ι} (hi : s.Free i) :
      Step s (.canceled i) ⟨s.queue.cancel, ∅, s.woken ∪ s.asleep⟩
  | stir {s : Exchange ι α} {i : ι} (hi : i ∈ s.asleep) :
      Step s (.stirred i) ⟨s.queue, s.asleep.erase i, insert i s.woken⟩

/-- A sequence of critical sections. -/
inductive Runs : Exchange ι α → List (QueueEvent ι α) → Exchange ι α → Prop where
  | refl (s : Exchange ι α) : Runs s [] s
  | step {s t u : Exchange ι α} {e : QueueEvent ι α} {es : List (QueueEvent ι α)}
      (he : Step s e t) (hes : Runs t es u) : Runs s (e :: es) u

variable {s t u : Exchange ι α} {e : QueueEvent ι α} {es es₁ es₂ : List (QueueEvent ι α)}

/-- A run goes through the states after each part of it. -/
theorem Runs.split (h : Runs s (es₁ ++ es₂) u) : ∃ t, Runs s es₁ t ∧ Runs t es₂ u := by
  induction es₁ generalizing s with
  | nil => exact ⟨s, .refl s, h⟩
  | cons e es₁ ih =>
    rcases h with _ | ⟨he, hes⟩
    obtain ⟨t, h₁, h₂⟩ := ih hes
    exact ⟨t, .step he h₁, h₂⟩

/-- What every step keeps, every run keeps. -/
theorem Runs.invariant {P : Exchange ι α → Prop} (hP : ∀ s e t, Step s e t → P s → P t)
    (h : Runs s es t) (hs : P s) : P t := by
  induction h with
  | refl => exact hs
  | step he _ ih => exact ih (hP _ _ _ he hs)

/-- A queue that is not canceled stays so unless somebody cancels it. -/
theorem Step.not_canceled (h : Step s e t) (hs : s.queue.canceled = false)
    (he : ∀ i, e ≠ .canceled i) : t.queue.canceled = false := by
  cases h with
  | push => exact hs
  | tryPop => exact (Queue.tryPop_canceled _).trans hs
  | leave _ hq =>
    rcases Queue.popWait?_eq_some_iff.1 hq with ⟨_, -, rfl⟩ | ⟨_, _, _, -, -, rfl⟩ <;> exact hs
  | wait => exact hs
  | cancel => exact (he _ rfl).elim
  | stir => exact hs

/-- A thread gets into the middle of waiting by its own look only. -/
theorem Step.free {i : ι} (h : Step s e t) (hi : s.Free i) (he : ∀ r, e ≠ .looked i r) :
    t.Free i := by
  obtain ⟨hasleep, hwoken⟩ := hi
  cases h with
  | push _ hsub =>
    refine ⟨fun hmem ↦ hasleep (Finset.mem_sdiff.1 hmem).1, fun hmem ↦ ?_⟩
    exact (Finset.mem_union.1 hmem).elim hwoken fun hmem ↦ hasleep (hsub hmem)
  | tryPop => exact ⟨hasleep, hwoken⟩
  | leave => exact ⟨hasleep, fun hmem ↦ hwoken (Finset.mem_of_mem_erase hmem)⟩
  | wait =>
    refine ⟨fun hmem ↦ ?_, fun hmem ↦ hwoken (Finset.mem_of_mem_erase hmem)⟩
    rcases Finset.mem_insert.1 hmem with rfl | hmem
    · exact he none rfl
    · exact hasleep hmem
  | cancel =>
    refine ⟨Finset.notMem_empty i, fun hmem ↦ ?_⟩
    exact (Finset.mem_union.1 hmem).elim hwoken hasleep
  | stir hj =>
    refine ⟨fun hmem ↦ hasleep (Finset.mem_of_mem_erase hmem), fun hmem ↦ ?_⟩
    rcases Finset.mem_insert.1 hmem with rfl | hmem
    · exact hasleep hj
    · exact hwoken hmem

/-! ## First in, first out -/

/-- One critical section takes items from the front and puts items last. -/
theorem Step.items (h : Step s e t) :
    e.leaving?.toList ++ t.queue.items = s.queue.items ++ e.arriving?.toList := by
  rcases h with _ | _ | ⟨_, hq⟩ | _ | _ | _
  · simp [QueueEvent.arriving?, QueueEvent.leaving?, Queue.push]
  · simpa [QueueEvent.arriving?, QueueEvent.leaving?] using s.queue.tryPop_items
  · rcases Queue.popWait?_eq_some_iff.1 hq with ⟨_, rfl, rfl⟩ | ⟨a, rest, _, hitems, rfl, rfl⟩
    · simp [QueueEvent.arriving?, QueueEvent.leaving?]
    · simp [QueueEvent.arriving?, QueueEvent.leaving?, hitems]
  · simp [QueueEvent.arriving?, QueueEvent.leaving?]
  · simp [QueueEvent.arriving?, QueueEvent.leaving?, Queue.cancel]
  · simp [QueueEvent.arriving?, QueueEvent.leaving?]

theorem Step.items_of_pushed {i : ι} {a : α} (h : Step s (.pushed i a) t) :
    t.queue.items = s.queue.items ++ [a] := by
  simpa [QueueEvent.arriving?, QueueEvent.leaving?] using h.items

theorem Step.items_of_item {i : ι} {a : α} (h : Step s (.looked i (some (.item a))) t) :
    s.queue.items = a :: t.queue.items := by
  simpa [QueueEvent.arriving?, QueueEvent.leaving?] using h.items.symm

theorem Step.items_of_none {i : ι} (h : Step s (.looked i none) t) :
    t.queue.items = s.queue.items := by
  simpa [QueueEvent.arriving?, QueueEvent.leaving?] using h.items

theorem Step.items_of_stirred {i : ι} (h : Step s (.stirred i) t) :
    t.queue.items = s.queue.items := by
  simpa [QueueEvent.arriving?, QueueEvent.leaving?] using h.items

/-- So does a run. -/
theorem Runs.items (h : Runs s es t) :
    handedOut es ++ t.queue.items = s.queue.items ++ arrived es := by
  induction h with
  | refl => simp
  | @step s t u e es he _ ih =>
    rw [handedOut_cons, arrived_cons, List.append_assoc, ih, ← List.append_assoc, he.items,
      List.append_assoc]

/-- The items of one producer are those among all items that can be told to be its own. -/
theorem filter_arrived {j : ι} {own : α → Bool}
    (hown : ∀ i a, .pushed i a ∈ es → (own a = true ↔ i = j)) :
    (arrived es).filter own = arrivedFrom j es := by
  induction es with
  | nil => rfl
  | cons e es ih =>
    have hrest := ih fun i a h ↦ hown i a (List.mem_cons_of_mem _ h)
    rw [arrived_cons, arrivedFrom_cons, List.filter_append, hrest]
    cases e with
    | pushed i a =>
      have ha := hown i a List.mem_cons_self
      by_cases hij : i = j
      · simp [QueueEvent.arriving?, QueueEvent.arrivingFrom?, hij, ha.2 hij]
      · have hno : own a = false := by simpa [hij] using ha
        simp [QueueEvent.arriving?, QueueEvent.arrivingFrom?, hij, hno]
    | _ => simp [QueueEvent.arriving?, QueueEvent.arrivingFrom?]

/-! ## After a cancellation -/

/-- Nobody sleeps and waiting is refused. -/
structure Closed (s : Exchange ι α) : Prop where
  canceled : s.queue.canceled = true
  asleep : s.asleep = ∅

theorem Step.closed_of_canceled {i : ι} (h : Step s (.canceled i) t) : t.Closed := by
  rcases h with _ | _ | _ | _ | _ | _
  exact ⟨rfl, rfl⟩

theorem Step.closed (h : Step s e t) (hs : s.Closed) : t.Closed := by
  obtain ⟨hc, ha⟩ := hs
  rcases h with _ | _ | ⟨_, hq⟩ | ⟨_, hq⟩ | _ | ⟨hi⟩
  · exact ⟨hc, by simp [ha]⟩
  · exact ⟨by simpa using hc, ha⟩
  · rcases Queue.popWait?_eq_some_iff.1 hq with ⟨_, _, rfl⟩ | ⟨_, _, hno, _⟩
    · exact ⟨hc, ha⟩
    · simp [hc] at hno
  · simp [Queue.popWait?_eq_none_iff, hc] at hq
  · exact ⟨rfl, rfl⟩
  · simp [ha] at hi

/-- Who looks at a closed queue to wait for an item is refused at once. -/
theorem Step.refused {i : ι} {r : Option (Waited α)} (h : Step s (.looked i r) t)
    (hs : s.Closed) : r = some .canceled := by
  rcases h with _ | _ | ⟨_, hq⟩ | ⟨_, hq⟩ | _ | _
  · rcases Queue.popWait?_eq_some_iff.1 hq with ⟨_, rfl, _⟩ | ⟨_, _, hno, _⟩
    · rfl
    · simp [hs.canceled] at hno
  · simp [Queue.popWait?_eq_none_iff, hs.canceled] at hq

/-- Who gets an answer from a queue that is not canceled gets an item. -/
theorem Step.exists_item {i : ι} {w : Waited α} (h : Step s (.looked i (some w)) t)
    (hs : s.queue.canceled = false) : ∃ a, w = .item a := by
  cases h with
  | leave _ hq =>
    rcases Queue.popWait?_eq_some_iff.1 hq with ⟨hc, -, -⟩ | ⟨a, -, -, -, rfl, -⟩
    · simp [hs] at hc
    · exact ⟨a, rfl⟩

/-- To cancel a second time changes nothing. -/
theorem Step.eq_of_canceled {i : ι} (h : Step s (.canceled i) t) (hs : s.Closed) : t = s := by
  rcases h with _ | _ | _ | _ | _ | _
  obtain ⟨⟨items, canceled⟩, asleep, woken⟩ := s
  obtain ⟨hc, ha⟩ := hs
  simp only at hc ha
  simp [Queue.cancel, hc, ha]

theorem Runs.refused (h : Runs s es t) (hs : s.Closed) {i : ι} {r : Option (Waited α)}
    (hr : .looked i r ∈ es) : r = some .canceled := by
  induction h with
  | refl => simp at hr
  | step he _ ih =>
    rcases List.mem_cons.1 hr with rfl | hr
    · exact he.refused hs
    · exact ih (he.closed hs) hr

/-- A thread that does not wait can take all items one by one. -/
theorem runs_drain {i : ι} (hi : s.Free i) :
    Runs s (s.queue.items.map fun a ↦ .polled i (some a))
      { s with queue := { s.queue with items := [] } } := by
  obtain ⟨⟨items, canceled⟩, asleep, woken⟩ := s
  induction items with
  | nil => exact .refl _
  | cons a rest ih => exact .step (.tryPop hi) (ih hi)

/-- What holds from a cancellation on: nobody who waits gets an item or falls asleep, the queue
stays canceled, another cancellation changes nothing, and the items can still be taken. -/
structure Over (later : List (QueueEvent ι α)) (s : Exchange ι α) : Prop where
  refused : ∀ i r, .looked i r ∈ later → r = some .canceled
  canceled : s.queue.canceled = true
  again : ∀ i t, Step s (.canceled i) t → t = s
  available : ∀ i, s.Free i → Runs s (s.queue.items.map fun a ↦ .polled i (some a))
    { s with queue := { s.queue with items := [] } }

theorem Runs.closed_of_canceled {i : ι} (h : Runs s (es₁ ++ .canceled i :: es₂) t) :
    ∃ u, u.Closed ∧ Runs u es₂ t := by
  obtain ⟨_, -, hrest⟩ := h.split
  rcases hrest with _ | ⟨hcancel, hafter⟩
  exact ⟨_, hcancel.closed_of_canceled, hafter⟩

theorem Runs.over {i : ι} (h : Runs s (es₁ ++ .canceled i :: es₂) t) : Over es₂ t := by
  obtain ⟨u, hu, hafter⟩ := h.closed_of_canceled
  have ht : t.Closed := hafter.invariant (fun _ _ _ ↦ Step.closed) hu
  exact ⟨fun _ _ ↦ hafter.refused hu, ht.canceled, fun _ _ hagain ↦ hagain.eq_of_canceled ht,
    fun _ hi ↦ runs_drain hi⟩

/-- **First in, first out, whatever the interleaving.**  What was handed out so far, followed by
what is still in the queue, is what went in, in this order; so it is for the items of each producer.
After a cancellation no waiting consumer gets an item, although the items stay. -/
theorem fifo (h : Runs start es s) :
    handedOut es ++ s.queue.items = arrived es ∧
      (∀ (j : ι) (own : α → Bool), (∀ i a, .pushed i a ∈ es → (own a = true ↔ i = j)) →
        (handedOut es).filter own ++ s.queue.items.filter own = arrivedFrom j es) ∧
      ∀ es₁ i es₂, es = es₁ ++ .canceled i :: es₂ → Over es₂ s := by
  have hitems : handedOut es ++ s.queue.items = arrived es := h.items
  refine ⟨hitems, fun j own hown ↦ ?_, ?_⟩
  · rw [← List.filter_append, hitems, filter_arrived hown]
  · rintro es₁ i es₂ rfl
    exact h.over

/-- A consumer is woken by a push but comes too late; it waits again and is refused in the end,
while an item is still there. -/
def lateConsumer : List (QueueEvent Nat String) :=
  [.looked 1 none, .pushed 0 "a", .polled 2 (some "a"), .looked 1 none, .pushed 0 "b", .canceled 0,
    .looked 1 (some .canceled)]

theorem runs_lateConsumer : Runs start lateConsumer ⟨⟨["b"], true⟩, ∅, ∅⟩ := by
  have hsub : ({1} : Finset Nat) ⊆ {1} := subset_rfl
  have hone : ({1} : Finset Nat).Nonempty := ⟨1, by decide⟩
  refine .step (t := ⟨.empty, {1}, ∅⟩) (.wait (by decide) rfl) ?_
  refine .step (t := ⟨⟨["a"], false⟩, ∅, {1}⟩) (.push (by decide) hsub fun _ ↦ hone) ?_
  refine .step (t := ⟨.empty, ∅, {1}⟩) (.tryPop (by decide)) ?_
  refine .step (t := ⟨.empty, {1}, ∅⟩) (.wait (by decide) rfl) ?_
  refine .step (t := ⟨⟨["b"], false⟩, ∅, {1}⟩) (.push (by decide) hsub fun _ ↦ hone) ?_
  refine .step (t := ⟨⟨["b"], true⟩, ∅, {1}⟩) (.cancel (by decide)) ?_
  exact .step (.leave (by decide) rfl) (.refl _)

theorem fifo_lateConsumer :
    Runs start lateConsumer ⟨⟨["b"], true⟩, ∅, ∅⟩ ∧
      handedOut lateConsumer ++ ["b"] = arrived lateConsumer ∧
      Over [.looked 1 (some .canceled)] (⟨⟨["b"], true⟩, ∅, ∅⟩ : Exchange Nat String) :=
  have h := fifo runs_lateConsumer
  ⟨runs_lateConsumer, h.1, h.2.2 (lateConsumer.take 5) 0 _ rfl⟩

/-! ## No lost wake-up -/

/-- What every critical section keeps: nobody sleeps and is woken at once, nobody sleeps on a
canceled queue, and while somebody sleeps there are as many woken consumers as items. -/
structure Alert (s : Exchange ι α) : Prop where
  disjoint : Disjoint s.asleep s.woken
  canceled : s.queue.canceled = true → s.asleep = ∅
  awaited : s.asleep.Nonempty → s.queue.items.length ≤ s.woken.card

omit [DecidableEq ι] in
theorem alert_start : (start : Exchange ι α).Alert :=
  ⟨Finset.disjoint_empty_left _, fun _ ↦ rfl, fun h ↦ (Finset.not_nonempty_empty h).elim⟩

/-- At least one sleeper was notified, so there is one more woken consumer for the new item. -/
theorem Alert.push {a : α} {notified : Finset ι} (hs : s.Alert) (hsub : notified ⊆ s.asleep)
    (hone : s.asleep.Nonempty → notified.Nonempty) :
    Alert ⟨s.queue.push a, s.asleep \ notified, s.woken ∪ notified⟩ where
  disjoint := by
    refine Finset.disjoint_union_right.2 ⟨hs.disjoint.mono_left Finset.sdiff_subset, ?_⟩
    exact Finset.sdiff_disjoint
  canceled hc := by simp [hs.canceled hc]
  awaited hsleep := by
    have hbefore : s.asleep.Nonempty := hsleep.mono Finset.sdiff_subset
    have hcard := Finset.card_union_of_disjoint (hs.disjoint.mono_left hsub).symm
    have hpos := (hone hbefore).card_pos
    have hle := hs.awaited hbefore
    simp only [Queue.push, List.length_append, List.length_singleton]
    omega

/-- The consumer that takes an item may be a woken one, which then is no longer on its way. -/
theorem Alert.leave {i : ι} {w : Waited α} {q : Queue α} (hs : s.Alert)
    (hq : s.queue.popWait? = some (w, q)) : Alert ⟨q, s.asleep, s.woken.erase i⟩ where
  disjoint := hs.disjoint.mono_right (Finset.erase_subset i _)
  canceled hc := by
    rcases Queue.popWait?_eq_some_iff.1 hq with ⟨_, _, rfl⟩ | ⟨_, _, hno, _, _, rfl⟩
    · exact hs.canceled hc
    · simp [hno] at hc
  awaited hsleep := by
    rcases Queue.popWait?_eq_some_iff.1 hq with ⟨hc, _⟩ | ⟨a, rest, _, hitems, _, rfl⟩
    · simp [hs.canceled hc] at hsleep
    · have hle := hs.awaited hsleep
      have hcard := Finset.pred_card_le_card_erase (s := s.woken) (a := i)
      simp only [hitems, List.length_cons] at hle
      simp only
      omega

theorem Alert.wait {i : ι} (hs : s.Alert) (hq : s.queue.popWait? = none) :
    Alert ⟨s.queue, insert i s.asleep, s.woken.erase i⟩ where
  disjoint := by
    refine Finset.disjoint_insert_left.2 ⟨Finset.notMem_erase i _, ?_⟩
    exact hs.disjoint.mono_right (Finset.erase_subset i _)
  canceled hc := by simp [(Queue.popWait?_eq_none_iff.1 hq).1] at hc
  awaited _ := by simp [(Queue.popWait?_eq_none_iff.1 hq).2]

theorem Alert.stir {i : ι} (hs : s.Alert) (hi : i ∈ s.asleep) :
    Alert ⟨s.queue, s.asleep.erase i, insert i s.woken⟩ where
  disjoint := by
    refine Finset.disjoint_insert_right.2 ⟨Finset.notMem_erase i _, ?_⟩
    exact hs.disjoint.mono_left (Finset.erase_subset i _)
  canceled hc := by simp [hs.canceled hc]
  awaited hsleep := by
    have hle := hs.awaited ⟨i, hi⟩
    have hcard := Finset.card_le_card (Finset.subset_insert i s.woken)
    exact hle.trans hcard

/-- **One critical section** keeps that. -/
theorem Step.alert (h : Step s e t) (hs : s.Alert) : t.Alert := by
  rcases h with ⟨_, hsub, hone⟩ | _ | ⟨_, hq⟩ | ⟨_, hq⟩ | _ | hi
  · exact hs.push hsub hone
  · refine ⟨hs.disjoint, fun hc ↦ hs.canceled (by simpa using hc), fun hsleep ↦ ?_⟩
    exact s.queue.tryPop_length_le.trans (hs.awaited hsleep)
  · exact hs.leave hq
  · exact hs.wait hq
  · exact ⟨Finset.disjoint_empty_left _, fun _ ↦ rfl, fun h ↦ (Finset.not_nonempty_empty h).elim⟩
  · exact hs.stir hi

/-- **No wake-up is lost.**  While a consumer sleeps, there are at most as many items as consumers
that were woken and have not looked yet; so no item waits while every consumer sleeps.  After a
cancellation nobody is asleep or falls asleep. -/
theorem no_lost_wakeup (h : Runs start es s) :
    (s.asleep.Nonempty → s.queue.items.length ≤ s.woken.card) ∧
      (s.asleep.Nonempty → s.queue.items ≠ [] → s.woken.Nonempty) ∧
      ∀ es₁ i es₂, es = es₁ ++ .canceled i :: es₂ →
        s.asleep = ∅ ∧ ∀ j, .looked j none ∉ es₂ := by
  have hs : s.Alert := h.invariant (fun _ _ _ ↦ Step.alert) alert_start
  refine ⟨hs.awaited, fun hsleep hitems ↦ ?_, ?_⟩
  · refine Finset.card_pos.1 ((List.length_pos_iff.2 hitems).trans_le (hs.awaited hsleep))
  · rintro es₁ i es₂ rfl
    refine ⟨hs.canceled h.over.canceled, fun j hj ↦ ?_⟩
    simpa using h.over.refused j none hj

theorem no_lost_wakeup_twoConsumers :
    Runs start [.looked 1 none, .looked 2 none, .pushed 0 "a"]
        (⟨⟨["a"], false⟩, {2}, {1}⟩ : Exchange Nat String) ∧
      (⟨⟨["a"], false⟩, {2}, {1}⟩ : Exchange Nat String).asleep.Nonempty ∧
      (["a"] : List String).length ≤ ({1} : Finset Nat).card := by
  have hsub : ({1} : Finset Nat) ⊆ {2, 1} := by decide
  have hruns : Runs start [.looked 1 none, .looked 2 none, .pushed 0 "a"]
      (⟨⟨["a"], false⟩, {2}, {1}⟩ : Exchange Nat String) := by
    refine .step (t := ⟨.empty, {1}, ∅⟩) (.wait (by decide) rfl) ?_
    refine .step (t := ⟨.empty, {2, 1}, ∅⟩) (.wait (by decide) rfl) ?_
    exact .step (.push (by decide) hsub fun _ ↦ ⟨1, by decide⟩) (.refl _)
  exact ⟨hruns, ⟨2, by decide⟩, (no_lost_wakeup hruns).1 ⟨2, by decide⟩⟩

/-! ## A single waiting consumer -/

/-- What a consumer gets that waits for an item while another thread pushes one. -/
theorem runs_pushToWaiting {q : Queue α} {i j : ι} (a : α) (hij : j ≠ i)
    (hq : q.popWait? = none) :
    Runs ⟨q, {i}, ∅⟩ [.pushed j a, .looked i (some (q.pushToWaiting a).1)]
      ⟨(q.pushToWaiting a).2, ∅, ∅⟩ := by
  obtain ⟨items, canceled⟩ := q
  obtain ⟨rfl, rfl⟩ := Queue.popWait?_eq_none_iff.1 hq
  have hfree : Free (⟨⟨[], false⟩, {i}, ∅⟩ : Exchange ι α) j := by simp [Free, hij]
  have hpush := Step.push (a := a) hfree (subset_refl {i}) fun h ↦ h
  have hleave : Step (⟨⟨[a], false⟩, ∅, {i}⟩ : Exchange ι α) (.looked i (some (.item a)))
      ⟨⟨[], false⟩, ∅, ({i} : Finset ι).erase i⟩ := .leave (Finset.notMem_empty i) rfl
  rw [Finset.sdiff_self, Finset.empty_union] at hpush
  rw [Finset.erase_singleton] at hleave
  exact .step hpush (.step hleave (.refl _))

/-- What it gets when another thread cancels the queue. -/
theorem runs_cancelWaiting {q : Queue α} {i j : ι} (hij : j ≠ i) (hq : q.popWait? = none) :
    Runs ⟨q, {i}, ∅⟩ [.canceled j, .looked i (some q.cancelWaiting.1)]
      ⟨q.cancelWaiting.2, ∅, ∅⟩ := by
  obtain ⟨items, canceled⟩ := q
  obtain ⟨rfl, rfl⟩ := Queue.popWait?_eq_none_iff.1 hq
  have hfree : Free (⟨⟨[], false⟩, {i}, ∅⟩ : Exchange ι α) j := by simp [Free, hij]
  have hcancel := Step.cancel hfree
  have hleave : Step (⟨⟨[], true⟩, ∅, {i}⟩ : Exchange ι α) (.looked i (some .canceled))
      ⟨⟨[], true⟩, ∅, ({i} : Finset ι).erase i⟩ := .leave (Finset.notMem_empty i) rfl
  rw [Finset.empty_union] at hcancel
  rw [Finset.erase_singleton] at hleave
  exact .step hcancel (.step hleave (.refl _))

end Exchange
end ScriptHeap
