import ScriptHeap.Proofs.Session.Books
import ScriptHeap.Host.Sample

/-!
# What a step leaves alone

In a session that steps have led to, a step changes what is seen through the variable it works on,
and the element that it was asked to write to.  Whatever else a script can look at shows what it
showed before, all the way down; and if the step only reads, so does that variable.

## What is here

* `Root` — what a script can look at: a handle, a stored value or a block.
* `Root.Same` — a root shows the same in two heaps.
* `Session.step_keeps` — a root from which the variable of a step is not reached, and any root when
  the step only reads.
-/

set_option autoImplicit false
namespace ScriptHeap

variable {Obj : Type}

/-! ## Roots -/

/-- What a script can look at. -/
inductive Root (Obj : Type) where
  | handle (i : HandleId)
  | stored (x : Stored Obj)
  | block (b : BlockId)

namespace Root

variable {r : Root Obj} {h h' : Heap Obj}

/-- The cells that a root looks from. -/
def holds : Root Obj → List Hold
  | .handle i => [.handle i]
  | .stored x => x.holds
  | .block b => [.block b]

/-- The value that a root shows. -/
def value? (h : Heap Obj) : Root Obj → Option (Value Obj)
  | .handle i => h.valueOf? i
  | .stored (.own v) => some v
  | .stored (.snapshot b) => h.valueAt? b
  | .block b => h.valueAt? b

/-- A handle is reached from a root. -/
def Reaches (r : Root Obj) (h : Heap Obj) (i : HandleId) : Prop :=
  ∃ x ∈ r.holds, h.Reaches x (.handle i)

/-- A root shows the same in two heaps, down to every depth. -/
def Same (r : Root Obj) (h h' : Heap Obj) : Prop :=
  ∀ depth, (r.value? h').map (Heap.outline depth h') = (r.value? h).map (Heap.outline depth h)

theorem Same.refl (r : Root Obj) (h : Heap Obj) : r.Same h h :=
  fun _ ↦ rfl

theorem Same.trans {h'' : Heap Obj} (hs : r.Same h h') (hs' : r.Same h' h'') : r.Same h h'' :=
  fun depth ↦ (hs' depth).trans (hs depth)

theorem Same.symm (hs : r.Same h h') : r.Same h' h :=
  fun depth ↦ (hs depth).symm

theorem toList_inj {α : Type} {a b : Option α} (h : a.toList = b.toList) : a = b := by
  cases a <;> cases b <;> simp_all

/-- A root shows the same when the cells that it looks from do. -/
theorem same_of_shape
    (hr : ∀ x ∈ r.holds, ∀ depth, Heap.shape depth h' x = Heap.shape depth h x) :
    r.Same h h' := by
  intro depth
  cases r with
  | handle i => exact toList_inj (hr _ (List.mem_singleton_self _) depth)
  | block b => exact toList_inj (hr _ (List.mem_singleton_self _) depth)
  | stored x =>
    cases x with
    | snapshot b => exact toList_inj (hr _ (List.mem_singleton_self _) depth)
    | own v =>
      refine congrArg some (Heap.outline_of_list (fun l hl ↦ hr _ ?_) depth)
      show Hold.list l ∈ v.holds
      exact Heap.list_mem_holds hl

end Root

namespace Session

/-- A session has a root: the handle is there, or it stands in a register. -/
def Has (s : Session Obj) : Root Obj → Prop
  | .handle i => (s.heap.handle? i).isSome
  | .stored x => x ∈ s.values.contents
  | .block b => b ∈ s.blocks.contents

variable {s : Session Obj} {r : Root Obj}

/-- What a root looks from is a handle that is there, or it is held by a register. -/
theorem Has.stays (hr : s.Has r) {y : Hold} (hy : y ∈ r.holds) :
    (y ∈ s.holds ∧ ∀ i, y ≠ .handle i) ∨
      ∃ i, y = .handle i ∧ r = .handle i ∧ (s.heap.content? y).isSome := by
  cases r with
  | handle i =>
    obtain rfl := List.mem_singleton.1 hy
    obtain ⟨cell, hcell⟩ := Option.isSome_iff_exists.1 hr
    refine .inr ⟨i, rfl, rfl, ?_⟩
    rw [Heap.content?, Heap.cell?, hcell]
    rfl
  | stored v =>
    refine .inl ⟨?_, fun i hi ↦ ?_⟩
    · refine List.mem_append_left _ (List.mem_append_left _ (List.mem_append_right _ ?_))
      exact List.mem_flatMap.2 ⟨v, hr, hy⟩
    · cases v with
      | snapshot b => cases hi.symm.trans (List.mem_singleton.1 hy)
      | own v =>
        have hcount := Heap.Sound.count_handle_holds v i
        have hpos := List.count_pos_iff.2 (hi ▸ hy : Hold.handle i ∈ v.holds)
        omega
  | block b =>
    obtain rfl := List.mem_singleton.1 hy
    refine .inl ⟨?_, fun i hi ↦ by cases hi⟩
    refine List.mem_append_left _ (List.mem_append_right _ ?_)
    exact List.mem_map.2 ⟨b, hr, rfl⟩

theorem Has.isSome (hs : s.Books) (hr : s.Has r) {y : Hold} (hy : y ∈ r.holds) :
    (s.heap.content? y).isSome := by
  rcases hr.stays hy with ⟨hmem, -⟩ | ⟨i, -, -, hk⟩
  · exact hs.isSome_of_mem hmem
  · exact hk

end Session
/-! ## Steps -/

variable [HostObject Obj]

namespace Session

variable {s : Session Obj} {r : Root Obj} {x : Step Obj}

/-- Others look to the end of a step from a root that stays. -/
theorem Has.lasts (hs : s.Books) (hr : s.Has r) (hr' : (s.step x).2.Has r)
    (hassigned : ∀ e, s.assigned? x = some e → r = .handle e → s.heap.uses (.handle e) = 0) :
    ∀ y ∈ r.holds, (Scene.ofStep hs x).Lasts (s.step x).2.holds (s.step x).2.heap y := by
  intro y hy
  obtain ⟨k, hk⟩ := Option.isSome_iff_exists.1 (hr.isSome hs hy)
  obtain ⟨n, hn⟩ := Heap.exists_cell?_of_content? hk
  have hborn := Heap.born_of_cell? hs.tidy hn
  rcases hr.stays hy with ⟨hmem, hother⟩ | ⟨i, rfl, rfl, -⟩
  · refine ⟨fun i hi ↦ (hother i hi).elim, hborn, ?_⟩
    rcases hr'.stays hy with ⟨hmem', -⟩ | ⟨i, hi, -⟩
    · exact .inl ⟨hmem, hmem'⟩
    · exact (hother i hi).elim
  · refine ⟨fun j hj hassign ↦ ?_, hborn, ?_⟩
    · cases hj
      exact hassigned i hassign rfl
    · rcases hr'.stays hy with ⟨-, hother⟩ | ⟨-, -, -, hk'⟩
      · exact (hother i rfl).elim
      · exact .inr ⟨⟨i, rfl⟩, hk'⟩

/-- A root shows the same after a step when the variable of the step does, if that is reached. -/
theorem Books.same_step (hs : s.Books) (hr : s.Has r) (hr' : (s.step x).2.Has r)
    (hassigned : ∀ e, s.assigned? x = some e → r = .handle e → s.heap.uses (.handle e) = 0)
    (htarget : ∀ i, s.target? x = some i → r.Reaches s.heap i →
      (Root.handle i).Same s.heap (s.step x).2.heap) :
    r.Same s.heap (s.step x).2.heap := by
  have hd := (Scene.settled_step hs x).done
  refine Root.same_of_shape fun y hy depth ↦ ?_
  refine Heap.shape_eq_of_clear (hd.kept y (hr.lasts hs hr' hassigned y hy)) ?_ depth
  intro i hi hreach d
  exact congrArg Option.toList (htarget i hi ⟨y, hy, hreach⟩ d)

/-- **What a step leaves alone.**  In a session that steps have led to, a root from which the
variable of a step is not reached shows the same after the step, all the way down; the one exception
is the element that the step was asked to write to.  After a step that only reads, every root shows
the same. -/
theorem step_keeps (hs : s.Reachable) (hr : s.Has r) (hr' : (s.step x).2.Has r) :
    ((∀ i, s.target? x = some i → ¬ r.Reaches s.heap i) →
      (∀ e, s.assigned? x = some e → r ≠ .handle e) → r.Same s.heap (s.step x).2.heap) ∧
    (s.Reads x → r.Same s.heap (s.step x).2.heap) := by
  constructor
  · intro htarget hassigned
    refine hs.books.same_step hr hr' (fun e he hroot ↦ (hassigned e he hroot).elim) ?_
    exact fun i hi hreach ↦ (htarget i hi hreach).elim
  · intro hread
    have hd := (Scene.settled_step hs.books x).done
    refine Root.same_of_shape fun y hy ↦ ?_
    obtain ⟨k, hk⟩ := Option.isSome_iff_exists.1 (hr.isSome hs.books hy)
    obtain ⟨n, hn⟩ := Heap.exists_cell?_of_content? hk
    exact (hd.shown (.inl hread) y (Heap.born_of_cell? hs.books.tidy hn) (hr'.isSome hd.sound hy)).2

/-! ## Two variables -/

omit [HostObject Obj] in
/-- Cells that hold nothing but each other are all that is reached from there. -/
theorem mem_of_reaches {h : Heap Obj} {cells : List Hold}
    (hclosed : ∀ y ∈ cells, ∀ z ∈ h.holdsOf y, z ∈ cells) {y z : Hold} (hy : y ∈ cells)
    (hreach : h.Reaches y z) : z ∈ cells := by
  induction hreach with
  | here _ => exact hy
  | next _ hz _ ih => exact hclosed _ ih _ hz

/-- An array and a number. -/
def arrayAndNumber : Session SampleObject :=
  ((start ⟨false, ⟨4, none⟩⟩).run
    [.bind "h" (.literal (.array [.scalar (.integer 1)])),
      .bind "n" (.literal (.scalar (.integer 5)))]).2

/-- The array keeps its element when the number is counted up, and when the element is looked up. -/
theorem step_keeps_array :
    (Root.handle ⟨1⟩).Same arrayAndNumber.heap (arrayAndNumber.step (.increment "n")).2.heap ∧
      (Root.handle ⟨1⟩).Same arrayAndNumber.heap
        (arrayAndNumber.step (.subscript "h" (.literal (.scalar (.integer 1))) none)).2.heap := by
  have hs : arrayAndNumber.Reachable := by
    unfold arrayAndNumber
    exact ⟨_, _, rfl⟩
  have hr : arrayAndNumber.Has (.handle ⟨1⟩) := by
    show (arrayAndNumber.heap.handle? ⟨1⟩).isSome = true
    decide +kernel
  constructor
  · have hr' : (arrayAndNumber.step (.increment "n")).2.Has (.handle ⟨1⟩) := by
      show ((arrayAndNumber.step (.increment "n")).2.heap.handle? ⟨1⟩).isSome = true
      decide +kernel
    have htarget : arrayAndNumber.target? (.increment "n") = some ⟨2⟩ := by decide +kernel
    refine (step_keeps hs hr hr').1 ?_ fun e he ↦ nomatch he
    rintro i hi ⟨y, hy, hreach⟩
    obtain rfl := List.mem_singleton.1 hy
    cases htarget.symm.trans hi
    have hclosed : ∀ y ∈ [Hold.handle ⟨1⟩, .block ⟨.array, ⟨0, 0⟩⟩, .list ⟨0⟩, .handle ⟨0⟩,
        .block ⟨.integer, ⟨0, 0⟩⟩], ∀ z ∈ arrayAndNumber.heap.holdsOf y,
        z ∈ [Hold.handle ⟨1⟩, .block ⟨.array, ⟨0, 0⟩⟩, .list ⟨0⟩, .handle ⟨0⟩,
          .block ⟨.integer, ⟨0, 0⟩⟩] := by
      decide +kernel
    have hmem := mem_of_reaches hclosed List.mem_cons_self hreach
    exact absurd hmem (by decide)
  · have hr' : (arrayAndNumber.step (.subscript "h" (.literal (.scalar (.integer 1))) none)).2.Has
        (.handle ⟨1⟩) := by
      show ((arrayAndNumber.step (.subscript "h" (.literal (.scalar (.integer 1))) none)).2.heap.handle?
        ⟨1⟩).isSome = true
      decide +kernel
    exact (step_keeps hs hr hr').2 trivial

end Session
end ScriptHeap
