import ScriptHeap.Text.Name

/-!
# Interned member names

Members can be reached by numbers in place of names.  A name that is asked for the first time gets
the next number, counted from zero; one that is there up to case keeps the number it has.

## What is here

* `MemberNames` — the numbers of names and the names of numbers.
* `MemberNames.intern` — the number of a name, and the names with it.
-/

set_option autoImplicit false
namespace ScriptHeap

/-- Names that have numbers, in two tables that are the reverse of each other. -/
structure MemberNames where
  /-- The numbers, by names in lower case. -/
  numbers : List (String × Nat)
  /-- The names by their numbers, as they were first spelled. -/
  names : List String
  /-- A name in lower case has the number of a name that is this one in lower case. -/
  reverse : ∀ key n, numbers.lookup key = some n ↔ (names[n]?).map Text.lowered = some key
  deriving Repr

namespace MemberNames

/-- No name has a number. -/
def empty : MemberNames where
  numbers := []
  names := []
  reverse key n := by simp

/-- The number of a name. -/
def number? (m : MemberNames) (name : String) : Option Nat :=
  m.numbers.lookup (Text.lowered name)

/-- The name with a number, as first spelled. -/
def name? (m : MemberNames) (n : Nat) : Option String :=
  m.names[n]?

/-- A name that has no number, with the next one. -/
def add (m : MemberNames) (name : String) (hnew : m.number? name = none) : MemberNames where
  numbers := (Text.lowered name, m.names.length) :: m.numbers
  names := m.names ++ [name]
  reverse key n := by
    have hfree (n : Nat) : (m.names[n]?).map Text.lowered ≠ some (Text.lowered name) := by
      intro hn
      rw [← m.reverse] at hn
      cases hnew.symm.trans hn
    have hlast : m.names[m.names.length]? = none := List.getElem?_eq_none (Nat.le_refl _)
    have hnames : (m.names ++ [name])[n]? =
        if n = m.names.length then some name else m.names[n]? := by
      rw [List.getElem?_append]
      grind
    rw [hnames]
    by_cases hkey : key = Text.lowered name
    · subst hkey
      rw [List.lookup_cons_self]
      by_cases hn : n = m.names.length
      · simp [hn]
      · simp [hn, hfree, Ne.symm hn]
    · rw [List.lookup_cons, beq_eq_false_iff_ne.2 hkey]
      by_cases hn : n = m.names.length
      · simpa [hn, hlast, Ne.symm hkey] using m.reverse key m.names.length
      · simpa [hn] using m.reverse key n

/-- The number of a name, and the names with it.  A name that is there up to case keeps its
number. -/
def intern (m : MemberNames) (name : String) : Nat × MemberNames :=
  match hname : m.number? name with
  | some n => (n, m)
  | none => (m.names.length, m.add name hname)

theorem intern_of_some {m : MemberNames} {name : String} {n : Nat}
    (hname : m.number? name = some n) : m.intern name = (n, m) := by
  rw [intern]
  split
  · rename_i k hk
    cases hk.symm.trans hname
    rfl
  · rename_i hnone
    cases hnone.symm.trans hname

theorem intern_of_none {m : MemberNames} {name : String} (hname : m.number? name = none) :
    m.intern name = (m.names.length, m.add name hname) := by
  rw [intern]
  split
  · rename_i k hk
    cases hk.symm.trans hname
  · rfl

end MemberNames
end ScriptHeap
