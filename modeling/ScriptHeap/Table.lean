/-!
# Tables

A table hands out numbers for the things put into it and never uses a number twice, so a number
that outlives its thing finds nothing instead of something else.

## What is here

* `Table.get?` — the view: what a number stands for, if it still stands for anything.
* `insert`, `modify`, `erase` — the operations, each with its effect on the view.
-/

set_option autoImplicit false
namespace ScriptHeap

/-- Cells in the order of their numbers; an erased cell stays empty. -/
structure Table (α : Type) where
  cells : Array (Option α)
  deriving Repr

namespace Table

variable {α : Type}

/-- The table without cells. -/
def empty : Table α :=
  ⟨#[]⟩

instance : Inhabited (Table α) :=
  ⟨empty⟩

/-- How many numbers have been handed out; this is the next one. -/
def next (t : Table α) : Nat :=
  t.cells.size

/-- What a number stands for. -/
def get? (t : Table α) (i : Nat) : Option α :=
  (t.cells[i]?).join

/-- The table with one more cell, numbered `next`. -/
def insert (t : Table α) (a : α) : Table α :=
  ⟨t.cells.push (some a)⟩

/-- The table with the content of a cell changed. -/
def modify (t : Table α) (i : Nat) (f : α → α) : Table α :=
  ⟨t.cells.modify i (Option.map f)⟩

/-- The table with a cell emptied. -/
def erase (t : Table α) (i : Nat) : Table α :=
  ⟨t.cells.setIfInBounds i none⟩

/-- The numbers in use with their contents, in ascending order. -/
def toList (t : Table α) : List (Nat × α) :=
  (t.cells.toList.zipIdx).filterMap fun (cell, i) ↦ cell.map fun a ↦ (i, a)

/-! ## The view after each operation -/

@[simp] theorem get?_empty (i : Nat) : (empty : Table α).get? i = none := by
  simp [get?, empty]

@[simp] theorem next_insert (t : Table α) (a : α) : (t.insert a).next = t.next + 1 := by
  simp [next, insert]

@[simp] theorem next_modify (t : Table α) (i : Nat) (f : α → α) : (t.modify i f).next = t.next := by
  simp [next, modify]

@[simp] theorem next_erase (t : Table α) (i : Nat) : (t.erase i).next = t.next := by
  simp [next, erase]

theorem get?_of_next_le {t : Table α} {i : Nat} (h : t.next ≤ i) : t.get? i = none := by
  simp [get?, Array.getElem?_eq_none h]

theorem lt_next_of_get? {t : Table α} {i : Nat} {a : α} (h : t.get? i = some a) : i < t.next := by
  refine Nat.lt_of_not_le fun hle ↦ ?_
  rw [get?_of_next_le hle] at h
  cases h

theorem get?_insert (t : Table α) (a : α) (i : Nat) :
    (t.insert a).get? i = if i = t.next then some a else t.get? i := by
  by_cases h : i = t.cells.size <;> simp [get?, insert, next, Array.getElem?_push, h]

theorem get?_modify (t : Table α) (i j : Nat) (f : α → α) :
    (t.modify i f).get? j = if i = j then (t.get? j).map f else t.get? j := by
  simp only [get?, modify, Array.getElem?_modify]
  split
  · cases t.cells[j]? with
    | none => rfl
    | some cell => cases cell <;> rfl
  · rfl

theorem get?_erase (t : Table α) (i j : Nat) :
    (t.erase i).get? j = if i = j then none else t.get? j := by
  simp only [get?, erase, Array.getElem?_setIfInBounds]
  split
  · split <;> rfl
  · rfl

end Table
end ScriptHeap
