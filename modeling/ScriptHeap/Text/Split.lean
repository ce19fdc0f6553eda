/-!
# Cutting texts at a separator

A text is cut at every separator: a settings file into its lines, a path into its names.  There is
always one part more than there are separators; parts may be empty.

## What is here

* `parts` — the parts of a text, without the separators.
* `parts_append`, `parts_of_not_mem` — how to cut a text that is put together from parts.
* `intercalate_parts` — nothing is lost: the parts with separators between them are the text.
-/

set_option autoImplicit false
namespace ScriptHeap.Text

/-- The parts of a text between separators. -/
def parts (separator : Char) : List Char → List (List Char)
  | [] => [[]]
  | c :: cs =>
    if c = separator then [] :: parts separator cs
    else
      match parts separator cs with
      | [] => [[c]]
      | part :: rest => (c :: part) :: rest

theorem parts_ne_nil (separator : Char) (cs : List Char) : parts separator cs ≠ [] := by
  cases cs with
  | nil => exact List.cons_ne_nil _ _
  | cons c cs =>
    rw [parts]
    split
    · exact List.cons_ne_nil _ _
    · split <;> exact List.cons_ne_nil _ _

/-- A separator ends the part before it. -/
theorem parts_append {separator : Char} {part : List Char} (h : separator ∉ part)
    (cs : List Char) :
    parts separator (part ++ separator :: cs) = part :: parts separator cs := by
  induction part with
  | nil => rw [List.nil_append, parts, if_pos rfl]
  | cons c part ih =>
    rw [List.mem_cons, not_or] at h
    rw [List.cons_append, parts, if_neg (Ne.symm h.1), ih h.2]

/-- Without a separator the text is its only part. -/
theorem parts_of_not_mem {separator : Char} {part : List Char} (h : separator ∉ part) :
    parts separator part = [part] := by
  induction part with
  | nil => rfl
  | cons c part ih =>
    rw [List.mem_cons, not_or] at h
    rw [parts, if_neg (Ne.symm h.1), ih h.2]

/-- **Cutting loses nothing** but the separators. -/
theorem intercalate_parts (separator : Char) (cs : List Char) :
    [separator].intercalate (parts separator cs) = cs := by
  induction cs with
  | nil => rfl
  | cons c cs ih =>
    rw [parts]
    by_cases hc : c = separator
    · subst hc
      rw [if_pos rfl]
      cases hp : parts c cs with
      | nil => exact absurd hp (parts_ne_nil c cs)
      | cons part rest =>
        rw [hp] at ih
        simpa [List.intercalate] using ih
    · rw [if_neg hc]
      cases hp : parts separator cs with
      | nil => exact absurd hp (parts_ne_nil separator cs)
      | cons part rest =>
        rw [hp] at ih
        cases rest with
        | nil => simpa [List.intercalate] using ih
        | cons next rest => simpa [List.intercalate] using ih

/-- No part holds a separator. -/
theorem not_mem_of_mem_parts {separator : Char} {cs part : List Char}
    (h : part ∈ parts separator cs) : separator ∉ part := by
  induction cs generalizing part with
  | nil =>
    rw [parts, List.mem_singleton] at h
    exact h ▸ List.not_mem_nil
  | cons c cs ih =>
    rw [parts] at h
    by_cases hc : c = separator
    · rw [if_pos hc, List.mem_cons] at h
      rcases h with rfl | h
      · exact List.not_mem_nil
      · exact ih h
    · rw [if_neg hc] at h
      cases hp : parts separator cs with
      | nil => exact absurd hp (parts_ne_nil separator cs)
      | cons first rest =>
        rw [hp] at h ih
        rcases List.mem_cons.1 h with rfl | h
        · rw [List.mem_cons, not_or]
          exact ⟨Ne.symm hc, ih List.mem_cons_self⟩
        · exact ih (List.mem_cons_of_mem _ h)

end ScriptHeap.Text
