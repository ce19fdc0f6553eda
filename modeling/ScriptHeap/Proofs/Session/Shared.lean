import ScriptHeap.Proofs.Session.Accounts

/-!
# Shared storage is not written

A step may write to a block or a list as long as it has a single holder.  What has more when the
step begins keeps its content through all of it, whoever else comes to hold it or lets it go in
between.  The block that variables without a value share is a case of its own: it may be held by the
heap alone, and still nobody writes to it.

## What is here

* `Session.Books.still_step` — a cell with more than one holder keeps its content as long as it is
  there.
* `Session.Books.blank_run` — the heap keeps its own block, and that block never has a value.
* `Session.shared_kept` — the same in terms of those who hold blocks and lists.
-/

set_option autoImplicit false
namespace ScriptHeap

variable {Obj : Type}

namespace Heap

variable [HostObject Obj] {h : Heap Obj}

/-- The block of variables without a value is the heap's own. -/
theorem blank_of_blankBlock {h' : Heap Obj} {b : BlockId}
    (hrun : (blankBlock : HeapM Obj BlockId) h = .ok b h') : h'.blank = some b := by
  rw [blankBlock] at hrun
  obtain ⟨_, _, hget, hrun⟩ := bind_eq_ok_iff.1 hrun
  cases hget
  cases hblank : h.blank with
  | some c =>
    rw [hblank] at hrun
    cases hrun
    exact (h.sameNotes_retain _).blank.trans hblank
  | none =>
    rw [hblank] at hrun
    obtain ⟨c, h₁, -, hrun⟩ := bind_eq_ok_iff.1 hrun
    cases hrun
    rfl

end Heap

variable [HostObject Obj]

namespace Session

variable {s : Session Obj}

/-- A cell with more than one holder keeps its content as long as it is there. -/
theorem Books.still_step (hs : s.Books) (x : Step Obj) {y : Hold} (hy : ∀ i, y ≠ .handle i)
    (hcount : 1 < s.heap.count y) (hcount' : 0 < (s.step x).2.heap.count y) :
    (s.step x).2.heap.content? y = s.heap.content? y := by
  obtain ⟨k, hk⟩ := Heap.exists_cell?_of_count hcount'
  refine ((Scene.settled_step hs x).done.still y ⟨hy, hcount⟩).resolve_right fun hnone ↦ ?_
  rw [Heap.content?_eq hk] at hnone
  cases hnone

theorem Books.blank_step (hs : s.Books) (x : Step Obj) {b : BlockId} (hb : s.heap.blank = some b) :
    (s.step x).2.heap.blank = some b :=
  (Scene.settled_step hs x).done.onward.blank b hb

/-- The heap keeps its own block, and that block never has a value. -/
theorem Books.blank_run (hs : s.Books) {b : BlockId} (hb : s.heap.blank = some b)
    (xs : List (Step Obj)) : (s.run xs).2.heap.valueAt? b = some .uninit := by
  induction xs generalizing s with
  | nil => exact hs.blank b hb
  | cons x xs ih => exact ih (hs.step x) (hs.blank_step x hb)

/-- A step that puts the block of variables without a value into a register. -/
theorem exists_blank (target : String) (hdone : (s.step (.blank target)).1 = .done) :
    ∃ b, (s.step (.blank target)).2.blocks.get? target = some b ∧
      (s.step (.blank target)).2.heap.blank = some b := by
  cases hrun : (Heap.blankBlock : HeapM Obj BlockId) s.heap with
  | error f h =>
    have happly : Session.apply (.blank target) s = .error f { s with heap := h } :=
      bind_of_error (onHeap_of_error hrun)
    rw [step, happly] at hdone
    cases hdone
  | ok b h =>
    have happly : Session.apply (.blank target) s = .ok .done
        { s with
          heap := h.release ((s.blocks.get? target).toList.map .block)
          blocks := s.blocks.insert target b } :=
      (bind_of_ok (onHeap_of_ok hrun)).trans rfl
    rw [step, happly]
    refine ⟨b, ?_, (Heap.sameNotes_release _ _).blank.trans (Heap.blank_of_blankBlock hrun)⟩
    exact (Registers.get?_insert _ _ _ _).trans (if_pos rfl)

/-- **Shared storage is not written.**  A block with more than one holder keeps its value through a
step, and a list that more than one value has keeps its elements, unless nobody has it any more at
the end.  And the block that a script asks for when it needs none with a value stays without one, in
every session that later steps lead to. -/
theorem shared_kept (hs : s.Reachable) (x : Step Obj) :
    (∀ b, 1 < s.holders b → 0 < (s.step x).2.holders b →
      (s.step x).2.heap.valueAt? b = s.heap.valueAt? b) ∧
    (∀ l, 1 < s.users l → 0 < (s.step x).2.users l →
      (s.step x).2.heap.elements? l = s.heap.elements? l) ∧
    ∀ target, (s.step (.blank target)).1 = .done →
      ∃ b, (s.step (.blank target)).2.blocks.get? target = some b ∧
        ∀ xs, ((s.step (.blank target)).2.run xs).2.heap.valueAt? b = some .uninit := by
  have hb := hs.books
  refine ⟨fun b hmore hthere ↦ ?_, fun l hmore hthere ↦ ?_, fun target hdone ↦ ?_⟩
  · rw [← hb.count_block] at hmore
    rw [← (hb.step x).count_block] at hthere
    exact Heap.valueAt?_congr (hb.still_step x (fun i hi ↦ by cases hi) hmore hthere)
  · rw [← hb.count_list] at hmore
    rw [← (hb.step x).count_list] at hthere
    exact Heap.elements?_congr (hb.still_step x (fun i hi ↦ by cases hi) hmore hthere)
  · obtain ⟨b, hget, hblank⟩ := exists_blank target hdone
    exact ⟨b, hget, (hb.step _).blank_run hblank⟩

/-- An array in a variable and in a copy, with a register that keeps it as it was. -/
def sharedArray : Session SampleObject :=
  ((start ⟨false, ⟨4, none⟩⟩).run
    [.bind "h" (.literal (.array [.scalar (.integer 1)])), .copy (.reference "h") "c",
      .snapshot "h" "v"]).2

/-- Putting another element last leaves the block with the register and the list with the copy. -/
theorem shared_kept_array :
    (sharedArray.step (.elements "h" (.extend (.register "c")) none)).2.heap.valueAt?
        ⟨.array, ⟨0, 0⟩⟩ = some (.array ⟨0⟩) ∧
      (sharedArray.step (.elements "h" (.extend (.register "c")) none)).2.heap.elements? ⟨0⟩ =
        some [⟨0⟩] ∧
      ∃ b, (sharedArray.step (.blank "u")).2.blocks.get? "u" = some b ∧
        ∀ xs, ((sharedArray.step (.blank "u")).2.run xs).2.heap.valueAt? b = some .uninit := by
  have hs : sharedArray.Reachable := by
    unfold sharedArray
    exact ⟨_, _, rfl⟩
  obtain ⟨hblock, hlist, hblank⟩ :=
    shared_kept hs (.elements "h" (.extend (.register "c")) none)
  refine ⟨(hblock ⟨.array, ⟨0, 0⟩⟩ ?_ ?_).trans ?_, (hlist ⟨0⟩ ?_ ?_).trans ?_, hblank "u" ?_⟩
  · decide +kernel
  · decide +kernel
  · rfl
  · decide +kernel
  · decide +kernel
  · decide +kernel
  · rfl

end Session
end ScriptHeap
