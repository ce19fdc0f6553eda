/-!
# Searching a text for another

A text is found at the first place where it occurs; the empty text occurs at the very start.
Scripts count places in bytes of the UTF-8 form, from one.

The search slides a window as long as the wanted text over the other one and keeps a *fingerprint*
of what the window shows, which takes one step of arithmetic for each place.  Only where the
fingerprints agree are the characters compared, so long texts with much repetition cost no more
than others.

## What is here

* `fingerprint`, `slide` — the fingerprint of a window, and that of the window one place on.
* `place?` — the number of characters before the first occurrence; `place?_eq_some_iff` and
  `place?_eq_none_iff` say that fingerprints never hide one.
* `dropBytes?` — a text without its first bytes, if these are whole characters.
* `position?`, `positionFrom?`, `removeFirst` — the three operations scripts have on top.
-/

set_option autoImplicit false
namespace ScriptHeap.Text

/-! ## Fingerprints -/

/-- The weight of a character against the one after it: more than any character's number. -/
def printBase : Nat := 1114112

/-- Fingerprints are numbers below this prime. -/
def printModulus : Nat := 2147483647

/-- The fingerprint of characters after more of which `print` is the fingerprint. -/
def printFrom (print : Nat) (cs : List Char) : Nat :=
  cs.foldl (fun print c ↦ (print * printBase + c.toNat) % printModulus) print

/-- The fingerprint of a window. -/
def fingerprint (window : List Char) : Nat :=
  printFrom 0 window

/-- What a character that has just left a window of the given length still weighs. -/
def leavingWeight (window : List Char) : Nat :=
  window.foldl (fun weight _ ↦ weight * printBase % printModulus) 1

/-- The fingerprint of the window one place on: the character `a` leaves, `b` enters. -/
def slide (weight print : Nat) (a b : Char) : Nat :=
  (print * printBase + b.toNat + (printModulus - a.toNat * weight % printModulus)) % printModulus

/-! ## The first occurrence -/

/-- The place of the first occurrence in `here`, after so many places that were passed.  The window
shows the start of `here` and has the fingerprint `print`; `ahead` is what lies behind it. -/
def placeFrom? (needle : List Char) (target weight : Nat) :
    Nat → Nat → List Char → List Char → Option Nat
  | passed, print, here, [] =>
    if print = target && needle.isPrefixOf here then some passed else none
  | passed, print, here, b :: ahead =>
    if print = target && needle.isPrefixOf here then some passed
    else
      match here with
      | [] => none
      | a :: here => placeFrom? needle target weight (passed + 1) (slide weight print a b) here ahead

/-- The number of characters before the first occurrence of `needle`. -/
def place? (needle text : List Char) : Option Nat :=
  placeFrom? needle (fingerprint needle) (leavingWeight needle) 0
    (fingerprint (text.take needle.length)) text (text.drop needle.length)

/-- What stands before and after the first occurrence of `needle`. -/
def cut? (needle text : List Char) : Option (List Char × List Char) :=
  (place? needle text).map fun n ↦ (text.take n, text.drop (n + needle.length))

/-! ## Bytes -/

/-- Number of bytes of a text in UTF-8. -/
def byteLength (text : List Char) : Nat :=
  text.foldl (fun count c ↦ count + c.utf8Size) 0

/-- The text without its first `count` bytes.  There is none when that would tear a character or
when the text is shorter. -/
def dropBytes? : Nat → List Char → Option (List Char)
  | 0, text => some text
  | _ + 1, [] => none
  | count + 1, c :: text =>
    if c.utf8Size ≤ count + 1 then dropBytes? (count + 1 - c.utf8Size) text else none

/-- Number of bytes before the first occurrence of `needle`. -/
def position? (needle text : String) : Option Nat :=
  (cut? needle.toList text.toList).map fun (before, _) ↦ byteLength before

/-- Like `position?`, but the search starts after `offset` bytes. -/
def positionFrom? (needle text : String) (offset : Nat) : Option Nat := do
  let rest ← dropBytes? offset text.toList
  let (before, _) ← cut? needle.toList rest
  return offset + byteLength before

/-- The text without the first occurrence of `needle`. -/
def removeFirst (needle text : String) : String :=
  match cut? needle.toList text.toList with
  | some (before, after) => String.ofList (before ++ after)
  | none => text

/-! ## Fingerprints follow the window -/

/-- The number that a fingerprint is the remainder of. -/
def exactFrom (n : Nat) (cs : List Char) : Nat :=
  cs.foldl (fun n c ↦ n * printBase + c.toNat) n

/-- What the number `n` before `cs` weighs in it. -/
def exactWeight (n : Nat) (cs : List Char) : Nat :=
  cs.foldl (fun n _ ↦ n * printBase) n

theorem fingerprint_eq (cs : List Char) : fingerprint cs = exactFrom 0 cs % printModulus := by
  have general (n : Nat) : printFrom (n % printModulus) cs = exactFrom n cs % printModulus := by
    induction cs generalizing n with
    | nil => rfl
    | cons c cs ih =>
      have step : (n % printModulus * printBase + c.toNat) % printModulus =
          (n * printBase + c.toNat) % printModulus := by
        simp only [printModulus, printBase]
        omega
      simp only [printFrom, exactFrom, List.foldl_cons] at ih ⊢
      rw [step]
      exact ih _
  exact general 0

theorem leavingWeight_eq (cs : List Char) :
    leavingWeight cs = exactWeight 1 cs % printModulus := by
  have general (n : Nat) : cs.foldl (fun weight _ ↦ weight * printBase % printModulus)
      (n % printModulus) = exactWeight n cs % printModulus := by
    induction cs generalizing n with
    | nil => rfl
    | cons c cs ih =>
      have step : n % printModulus * printBase % printModulus = n * printBase % printModulus := by
        simp only [printModulus, printBase]
        omega
      simp only [exactWeight, List.foldl_cons] at ih ⊢
      rw [step]
      exact ih _
  exact general 1

theorem exactWeight_eq_mul (n : Nat) (cs : List Char) :
    exactWeight n cs = n * exactWeight 1 cs := by
  have general (m n : Nat) : exactWeight (m * n) cs = m * exactWeight n cs := by
    induction cs generalizing m n with
    | nil => rfl
    | cons c cs ih =>
      simp only [exactWeight, List.foldl_cons] at ih ⊢
      rw [Nat.mul_assoc, ih]
  simpa using general n 1

theorem exactWeight_congr {n : Nat} {cs ds : List Char} (h : cs.length = ds.length) :
    exactWeight n cs = exactWeight n ds := by
  induction cs generalizing n ds with
  | nil => rw [List.length_eq_zero_iff.1 h.symm]
  | cons c cs ih =>
    cases ds with
    | nil => cases h
    | cons d ds => exact ih (Nat.succ.inj h)

theorem exactFrom_eq (n : Nat) (cs : List Char) :
    exactFrom n cs = exactWeight n cs + exactFrom 0 cs := by
  have general (m n : Nat) : exactFrom (m + n) cs = exactWeight m cs + exactFrom n cs := by
    induction cs generalizing m n with
    | nil => rfl
    | cons c cs ih =>
      simp only [exactFrom, exactWeight, List.foldl_cons] at ih ⊢
      rw [Nat.add_mul, Nat.add_assoc, ih]
  simpa using general n 0

/-- The fingerprint of a window moved on by one place. -/
theorem slide_fingerprint {needle window : List Char} {a b : Char}
    (h : needle.length = window.length + 1) :
    slide (leavingWeight needle) (fingerprint (a :: window)) a b =
      fingerprint (window ++ [b]) := by
  have hweight : exactWeight 1 needle = exactWeight 1 window * printBase := by
    have hsame : exactWeight 1 needle = exactWeight 1 (a :: window) := exactWeight_congr h
    exact hsame.trans <| (exactWeight_eq_mul (1 * printBase) window).trans (by simp [Nat.mul_comm])
  have hfirst : exactFrom 0 (a :: window) = a.toNat * exactWeight 1 window + exactFrom 0 window :=
    (exactFrom_eq (0 * printBase + a.toNat) window).trans
      (by rw [Nat.zero_mul, Nat.zero_add, exactWeight_eq_mul])
  have hlast : exactFrom 0 (window ++ [b]) = exactFrom 0 window * printBase + b.toNat := by
    simp [exactFrom]
  have hleaving : a.toNat * (exactWeight 1 window * printBase % printModulus) % printModulus =
      a.toNat * exactWeight 1 window * printBase % printModulus := by
    rw [Nat.mul_mod_mod, Nat.mul_assoc]
  rw [slide, leavingWeight_eq, fingerprint_eq, fingerprint_eq, hweight, hfirst, hlast, hleaving]
  generalize a.toNat * exactWeight 1 window = y
  simp only [printModulus, printBase]
  omega

/-! ## The place found is the first -/

/-- The test at one place finds every occurrence there. -/
theorem found_iff {needle here : List Char} {print : Nat}
    (h : print = fingerprint (here.take needle.length)) :
    (print = fingerprint needle && needle.isPrefixOf here) = true ↔ needle <+: here := by
  rw [Bool.and_eq_true, decide_eq_true_eq, List.isPrefixOf_iff_prefix]
  refine ⟨And.right, fun hp ↦ ⟨?_, hp⟩⟩
  rw [h, ← List.prefix_iff_eq_take.1 hp]

/-- What has been found is the first occurrence, counted from the places that were passed. -/
def FoundFrom (needle : List Char) (passed : Nat) (here : List Char) : Option Nat → Prop
  | some n => ∃ k, n = passed + k ∧ needle <+: here.drop k ∧ ∀ j < k, ¬ needle <+: here.drop j
  | none => ∀ k, ¬ needle <+: here.drop k

theorem foundFrom_here {needle here : List Char} (passed : Nat) (h : needle <+: here) :
    FoundFrom needle passed here (some passed) :=
  ⟨0, rfl, h, fun j hj ↦ absurd hj (Nat.not_lt_zero j)⟩

/-- Where nothing occurs at a place, the first occurrence is the one behind it. -/
theorem FoundFrom.behind {needle here : List Char} {passed : Nat} {a : Char} {found : Option Nat}
    (h : FoundFrom needle (passed + 1) here found) (hp : ¬ needle <+: a :: here) :
    FoundFrom needle passed (a :: here) found := by
  cases found with
  | none =>
    intro k
    cases k with
    | zero => exact hp
    | succ k => exact h k
  | some n =>
    obtain ⟨k, rfl, hocc, hfirst⟩ := h
    refine ⟨k + 1, by omega, hocc, fun j hj ↦ ?_⟩
    cases j with
    | zero => exact hp
    | succ j => exact hfirst j (Nat.lt_of_succ_lt_succ hj)

/-- In what is no longer than the needle there is no other place than the first. -/
theorem foundFrom_none {needle here : List Char} (passed : Nat) (hp : ¬ needle <+: here)
    (hahead : here.drop needle.length = []) : FoundFrom needle passed here none := by
  intro k hk
  have hle := hk.length_le
  have hshort := List.drop_eq_nil_iff.1 hahead
  rw [List.length_drop] at hle
  cases k with
  | zero => exact hp hk
  | succ k =>
    have hzero : needle.length = 0 := by omega
    rw [List.length_eq_zero_iff.1 hzero] at hp
    exact hp List.nil_prefix

/-- The window moved on by one place, with its fingerprint and what is ahead of it. -/
theorem window_moved {needle here ahead : List Char} {a b : Char} (hne : needle ≠ [])
    (hahead : (a :: here).drop needle.length = b :: ahead) :
    slide (leavingWeight needle) (fingerprint ((a :: here).take needle.length)) a b =
        fingerprint (here.take needle.length) ∧
      here.drop needle.length = ahead := by
  obtain ⟨m, hm⟩ := Nat.exists_eq_succ_of_ne_zero fun he ↦
    hne (List.length_eq_zero_iff.1 he)
  rw [hm, List.drop_succ_cons] at hahead
  rw [hm, List.take_succ_cons]
  have hget : here[m]? = some b := by
    rw [← Nat.add_zero m, ← List.getElem?_drop, hahead]
    rfl
  have hlt : m < here.length := (List.getElem?_eq_some_iff.1 hget).1
  have hwindow : here.take (m + 1) = here.take m ++ [b] := by
    rw [List.take_add_one, hget]
    rfl
  have hlength : needle.length = (here.take m).length + 1 := by
    rw [List.length_take, Nat.min_eq_left (Nat.le_of_lt hlt), hm]
  refine ⟨by rw [slide_fingerprint hlength, hwindow], ?_⟩
  rw [Nat.succ_eq_add_one, ← List.drop_drop, hahead]
  rfl

/-- The search goes by places, and the fingerprint that it is given is that of the window. -/
theorem placeFrom?_first {needle : List Char} (ahead : List Char) (passed print : Nat)
    (here : List Char) (hprint : print = fingerprint (here.take needle.length))
    (hahead : here.drop needle.length = ahead) :
    FoundFrom needle passed here
      (placeFrom? needle (fingerprint needle) (leavingWeight needle) passed print here ahead) := by
  induction ahead generalizing passed print here with
  | nil =>
    rw [placeFrom?]
    by_cases hp : needle <+: here
    · rw [if_pos ((found_iff hprint).2 hp)]
      exact foundFrom_here passed hp
    · rw [if_neg (hp ∘ (found_iff hprint).1)]
      exact foundFrom_none passed hp hahead
  | cons b ahead ih =>
    unfold placeFrom?
    by_cases hp : needle <+: here
    · rw [if_pos ((found_iff hprint).2 hp)]
      exact foundFrom_here passed hp
    · rw [if_neg (hp ∘ (found_iff hprint).1)]
      have hne : needle ≠ [] := fun he ↦ hp (he ▸ List.nil_prefix)
      cases here with
      | nil => simp at hahead
      | cons a here =>
        obtain ⟨hslide, hrest⟩ := window_moved hne hahead
        exact (ih (passed + 1) _ here (hprint ▸ hslide) hrest).behind hp

/-- **The place found is the first** at which the text occurs. -/
theorem place?_eq_some_iff {needle text : List Char} {n : Nat} :
    place? needle text = some n ↔
      needle <+: text.drop n ∧ ∀ k < n, ¬ needle <+: text.drop k := by
  have h := @placeFrom?_first needle _ 0 _ text rfl rfl
  rw [place?]
  revert h
  cases placeFrom? needle _ _ 0 _ text _ with
  | none => exact fun hnone ↦ ⟨nofun, fun hocc ↦ absurd hocc.1 (hnone n)⟩
  | some m =>
    rintro ⟨k, rfl, hocc, hfirst⟩
    rw [Nat.zero_add, Option.some.injEq]
    constructor
    · rintro rfl
      exact ⟨hocc, hfirst⟩
    · rintro ⟨hocc', hfirst'⟩
      have hle := Nat.le_of_not_lt fun hlt ↦ hfirst n hlt hocc'
      have hge := Nat.le_of_not_lt fun hlt ↦ hfirst' k hlt hocc
      exact Nat.le_antisymm hle hge

/-- No place is found exactly when the text occurs nowhere. -/
theorem place?_eq_none_iff {needle text : List Char} :
    place? needle text = none ↔ ∀ k, ¬ needle <+: text.drop k := by
  have h := @placeFrom?_first needle _ 0 _ text rfl rfl
  rw [place?]
  revert h
  cases placeFrom? needle _ _ 0 _ text _ with
  | none => exact fun hnone ↦ ⟨fun _ ↦ hnone, fun _ ↦ rfl⟩
  | some m =>
    rintro ⟨k, -, hocc, -⟩
    exact ⟨nofun, fun hnone ↦ absurd hocc (hnone k)⟩

end ScriptHeap.Text
