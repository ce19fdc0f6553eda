import ScriptHeap.MemberNames

/-!
# Names in the order in which they are asked for

Whoever asks for the numbers of names sees the answers only, one after the other.  From these it can
be told what the tables hold: the names that were new when they were asked for, in this order.

## What is here

* `MemberNames.number?_eq_some_iff` — a name has the number of the one that is spelled like it.
* `MemberNames.FirstAsked` — a name that is new among those asked for.
* `MemberNames.Keeps` — what the tables hold, told from the answers; with `Keeps.intern`, one more
  name.
-/

set_option autoImplicit false
namespace ScriptHeap
namespace MemberNames

variable {m : MemberNames} {asked before : List (String × Nat)} {name other first : String}
  {n k : Nat}

/-! ## The tables -/

/-- A name has the number of a name that is the same up to case. -/
theorem number?_eq_some_iff :
    m.number? name = some n ↔
      ∃ first, m.name? n = some first ∧ Text.sameName first name = true := by
  rw [number?, m.reverse, Option.map_eq_some_iff]
  simp only [Text.lowered_eq_iff, name?]

/-- A number that a name has stays with it. -/
theorem number?_add (hnew : m.number? name = none) (hother : m.number? other = some k) :
    (m.add name hnew).number? other = some k := by
  have hne : Text.lowered other ≠ Text.lowered name := by
    intro he
    rw [number?, he] at hother
    cases hnew.symm.trans hother
  rw [number?, add, List.lookup_cons, beq_eq_false_iff_ne.2 hne]
  exact hother

theorem name?_add (hnew : m.number? name = none) (hfirst : m.name? k = some first) :
    (m.add name hnew).name? k = some first := by
  have hk := (List.getElem?_eq_some_iff.1 hfirst).1
  rw [name?, add, List.getElem?_append_left hk]
  exact hfirst

theorem number?_add_self (hnew : m.number? name = none) :
    (m.add name hnew).number? name = some m.names.length :=
  List.lookup_cons_self

theorem name?_add_last (hnew : m.number? name = none) :
    (m.add name hnew).name? m.names.length = some name :=
  List.getElem?_concat_length

theorem lt_of_name? (hfirst : m.name? n = some first) : n < m.names.length :=
  (List.getElem?_eq_some_iff.1 hfirst).1

/-! ## Names that were asked for -/

/-- A name that is new when it is asked for: none before it is the same up to case.  The latest of
those asked for comes first. -/
def FirstAsked (asked before : List (String × Nat)) (name : String) (n : Nat) : Prop :=
  (name, n) :: before <:+ asked ∧ ∀ p ∈ before, Text.sameName p.1 name = false

/-- The latest of those asked for is new, or another one is that was new before. -/
theorem FirstAsked.of_cons (h : FirstAsked ((other, k) :: asked) before name n) :
    FirstAsked asked before name n ∨ before = asked ∧ name = other ∧ n = k := by
  obtain ⟨hsuffix, hnew⟩ := h
  rcases List.suffix_cons_iff.1 hsuffix with he | hsuffix
  · cases he
    exact .inr ⟨rfl, rfl, rfl⟩
  · exact .inl ⟨hsuffix, hnew⟩

theorem FirstAsked.cons (h : FirstAsked asked before name n) (p : String × Nat) :
    FirstAsked (p :: asked) before name n :=
  ⟨h.1.trans (List.suffix_cons p asked), h.2⟩

theorem FirstAsked.mem (h : FirstAsked asked before name n) : (name, n) ∈ asked :=
  h.1.subset List.mem_cons_self

/-- What the tables hold after names were asked for and numbers were answered. -/
structure Keeps (m : MemberNames) (asked : List (String × Nat)) : Prop where
  number : ∀ p ∈ asked, m.number? p.1 = some p.2
  issued : ∀ k, k ∈ asked.map (·.2) ↔ k < m.names.length
  first : ∀ before name n, FirstAsked asked before name n →
    (∀ k, k ∈ before.map (·.2) ↔ k < n) ∧ m.name? n = some name

theorem keeps_empty : empty.Keeps [] where
  number p hp := by cases hp
  issued k := by simp [empty]
  first before name n h := by cases h.mem

/-- A name that has a number was asked for. -/
theorem Keeps.exists_of_number? (hk : m.Keeps asked) (hname : m.number? name = some n) :
    ∃ p ∈ asked, Text.sameName p.1 name = true := by
  obtain ⟨first, hfirst, hsame⟩ := number?_eq_some_iff.1 hname
  obtain ⟨p, hp, rfl⟩ := List.mem_map.1 ((hk.issued n).2 (lt_of_name? hfirst))
  obtain ⟨_, hfirst', hsame'⟩ := number?_eq_some_iff.1 (hk.number p hp)
  cases hfirst.symm.trans hfirst'
  exact ⟨p, hp, by rwa [← Text.sameName_congr hsame']⟩

/-- A name that has a number is asked for once more. -/
theorem Keeps.again (hk : m.Keeps asked) (hname : m.number? name = some n) :
    m.Keeps ((name, n) :: asked) where
  number := List.forall_mem_cons.2 ⟨hname, hk.number⟩
  issued k := by
    obtain ⟨_, hfirst, -⟩ := number?_eq_some_iff.1 hname
    have hn := (hk.issued n).2 (lt_of_name? hfirst)
    rw [List.map_cons, List.mem_cons, ← hk.issued, or_iff_right_of_imp fun he ↦ he ▸ hn]
  first before other k h := by
    rcases h.of_cons with h | ⟨rfl, rfl, rfl⟩
    · exact hk.first before other k h
    · obtain ⟨p, hp, hsame⟩ := hk.exists_of_number? hname
      cases (h.2 p hp).symm.trans hsame

/-- A name that has none is asked for. -/
theorem Keeps.add (hk : m.Keeps asked) (hnew : m.number? name = none) :
    (m.add name hnew).Keeps ((name, m.names.length) :: asked) where
  number := List.forall_mem_cons.2
    ⟨number?_add_self hnew, fun p hp ↦ number?_add hnew (hk.number p hp)⟩
  issued k := by
    rw [List.map_cons, List.mem_cons, hk.issued, MemberNames.add, List.length_append,
      List.length_singleton]
    omega
  first before other k h := by
    rcases h.of_cons with h | ⟨rfl, rfl, rfl⟩
    · exact (hk.first before other k h).imp_right (name?_add hnew)
    · exact ⟨hk.issued, name?_add_last hnew⟩

/-- **One more name.**  If it has a number the tables stay as they are; otherwise it is new, and the
next number is for it. -/
theorem Keeps.intern (hk : m.Keeps asked) (name : String) :
    (m.intern name).2.Keeps ((name, (m.intern name).1) :: asked) := by
  cases hname : m.number? name with
  | some n =>
    rw [intern_of_some hname]
    exact hk.again hname
  | none =>
    rw [intern_of_none hname]
    exact hk.add hname

end MemberNames
end ScriptHeap
