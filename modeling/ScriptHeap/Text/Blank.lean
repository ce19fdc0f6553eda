/-!
# Blank characters

The characters with the property `White_Space`, and the cuts of a line that rest on it: its trimmed
forms and its first word.
-/

set_option autoImplicit false
namespace ScriptHeap.Text

/-- Whether a character is white space, of any script. -/
def isBlank (c : Char) : Bool :=
  let n := c.toNat
  (9 ≤ n && n ≤ 13) || n == 0x20 || n == 0x85 || n == 0xA0 || n == 0x1680 ||
    (0x2000 ≤ n && n ≤ 0x200A) || n == 0x2028 || n == 0x2029 || n == 0x202F || n == 0x205F ||
    n == 0x3000

/-- The characters without the blanks at the end. -/
def trimEnd (cs : List Char) : List Char :=
  (cs.reverse.dropWhile isBlank).reverse

/-- The characters without the blanks at both ends. -/
def trim (cs : List Char) : List Char :=
  trimEnd (cs.dropWhile isBlank)

/-- The characters before the first blank and those after it, if there is a blank. -/
def splitBlank? : List Char → Option (List Char × List Char)
  | [] => none
  | c :: cs =>
    if isBlank c then some ([], cs)
    else (splitBlank? cs).map fun (word, rest) ↦ (c :: word, rest)

theorem isBlank_of_isWhitespace {c : Char} (h : c.isWhitespace = true) : isBlank c = true := by
  simp only [Char.isWhitespace, Bool.or_eq_true, decide_eq_true_eq] at h
  rcases h with ((rfl | rfl) | rfl) | rfl <;> rfl

end ScriptHeap.Text
