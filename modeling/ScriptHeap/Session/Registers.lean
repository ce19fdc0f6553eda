/-!
# Registers

Named places for things of one type.  A register is there from the moment something is put into it
until it is emptied.
-/

set_option autoImplicit false
namespace ScriptHeap

/-- The registers that are there, with their contents. -/
structure Registers (α : Type) where
  entries : List (String × α)
  /-- No name stands twice. -/
  distinct : (entries.map (·.1)).Nodup
  deriving Repr

namespace Registers

variable {α : Type}

/-- No registers at all. -/
def empty : Registers α :=
  ⟨[], List.nodup_nil⟩

/-- What a register holds. -/
def get? (rs : Registers α) (name : String) : Option α :=
  rs.entries.lookup name

/-- The registers without one. -/
def erase (rs : Registers α) (name : String) : Registers α :=
  ⟨rs.entries.filter fun e ↦ e.1 != name, rs.distinct.sublist (List.filter_sublist.map _)⟩

theorem not_mem_erase (rs : Registers α) (name : String) :
    name ∉ (rs.erase name).entries.map (·.1) := by
  simp [erase]

/-- The registers with something put into one. -/
def insert (rs : Registers α) (name : String) (a : α) : Registers α :=
  ⟨(name, a) :: (rs.erase name).entries,
    List.nodup_cons.2 ⟨rs.not_mem_erase name, (rs.erase name).distinct⟩⟩

/-- All contents. -/
def contents (rs : Registers α) : List α :=
  rs.entries.map (·.2)

/-! ## The view after each operation -/

@[simp] theorem get?_empty (name : String) : (empty : Registers α).get? name = none :=
  rfl

theorem get?_erase (rs : Registers α) (name other : String) :
    (rs.erase name).get? other = if other = name then none else rs.get? other := by
  obtain ⟨entries, hdistinct⟩ := rs
  simp only [get?, erase]
  clear hdistinct
  induction entries with
  | nil => simp
  | cons e entries ih =>
    obtain ⟨key, a⟩ := e
    by_cases hk : key = name
    · subst hk
      rw [List.filter_cons_of_neg (by simp), ih]
      by_cases ho : other = key
      · rw [if_pos ho, if_pos ho]
      · rw [if_neg ho, if_neg ho, List.lookup_cons, beq_eq_false_iff_ne.2 ho]
    · rw [List.filter_cons_of_pos (by simpa using hk), List.lookup_cons, List.lookup_cons, ih]
      by_cases ho : other = key
      · subst ho
        simp [hk]
      · rw [beq_eq_false_iff_ne.2 ho]

theorem get?_insert (rs : Registers α) (name other : String) (a : α) :
    (rs.insert name a).get? other = if other = name then some a else rs.get? other := by
  have h := get?_erase rs name other
  simp only [get?, insert, List.lookup_cons] at h ⊢
  by_cases ho : other = name
  · subst ho
    simp
  · rw [beq_eq_false_iff_ne.2 ho, if_neg ho]
    simpa [if_neg ho] using h

end Registers
end ScriptHeap
