import ScriptHeap.Text.LetterTable

/-!
# Upper and lower case

Case mapping of whole texts.  One letter may become several (`ß` becomes `SS`), and a capital sigma
at the end of a word becomes the final sigma.

## What is here

* `upper`, `lower` — the mapping of one character, without looking at its neighbours.
* `toUpper`, `toLower` — the mapping of a text.
-/

set_option autoImplicit false
namespace ScriptHeap.Text

/-- The image of a character under the first run that covers it. -/
def CaseRun.find? (runs : List CaseRun) (c : Nat) : Option Char :=
  (runs.find? fun r ↦ decide (r.first ≤ c ∧ c ≤ r.last ∧ (c - r.first) % r.step = 0)).map
    fun r ↦ Char.ofNat ((c : Int) + r.shift).toNat

/-- Whether one of the intervals contains the character. -/
def inRanges (ranges : List (Nat × Nat)) (c : Char) : Bool :=
  ranges.any fun r ↦ decide (r.1 ≤ c.toNat ∧ c.toNat ≤ r.2)

/-- The image of a character: an expansion, a run, or the character itself. -/
def mapCase (expansions : List (Nat × List Nat)) (runs : List CaseRun) (c : Char) : List Char :=
  match expansions.lookup c.toNat with
  | some cs => cs.map Char.ofNat
  | none => [(CaseRun.find? runs c.toNat).getD c]

/-- Upper case of one character. -/
def upper (c : Char) : List Char :=
  if c.toNat < 128 then [c.toUpper] else mapCase upperExpansions upperRuns c

/-- Lower case of one character. -/
def lower (c : Char) : List Char :=
  if c.toNat < 128 then [c.toLower] else mapCase lowerExpansions lowerRuns c

/-- Whether the character has case. -/
def isCased (c : Char) : Bool :=
  inRanges casedRanges c

/-- Whether the character is skipped when case is looked for. -/
def isIgnorable (c : Char) : Bool :=
  inRanges ignorableRanges c

/-- Whether the first character that counts has case. -/
def startsCased (cs : List Char) : Bool :=
  match cs.dropWhile isIgnorable with
  | c :: _ => isCased c
  | [] => false

/-- Lower case of a text; `inWord` tells whether the last character that counted had case.  A
capital sigma is final after such a character when none follows. -/
def lowerFrom : Bool → List Char → List Char
  | _, [] => []
  | inWord, c :: cs =>
    let image := if c = 'Σ' then [if inWord && !startsCased cs then 'ς' else 'σ'] else lower c
    image ++ lowerFrom (if isIgnorable c then inWord else isCased c) cs

/-- Upper case of a text. -/
def toUpper (s : String) : String :=
  String.ofList (s.toList.flatMap upper)

/-- Lower case of a text. -/
def toLower (s : String) : String :=
  String.ofList (lowerFrom false s.toList)

end ScriptHeap.Text
