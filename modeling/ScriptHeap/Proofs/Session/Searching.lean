import Mathlib
import ScriptHeap.Heap.Operate
import ScriptHeap.Host.Sample
import ScriptHeap.Proofs.Heap.Attached
import ScriptHeap.Proofs.Heap.Lookups
import ScriptHeap.Proofs.Session.Books
import ScriptHeap.Proofs.Text.Occurrence

/-!
# Searching strings

A string is searched by its method `find`, by the `in` operator and by `-`.  All three go to the
first occurrence.  A search that is to start inside a character finds nothing, though, whatever
stands behind that character; elsewhere it gives the first occurrence from its start on, and
searches that start one past the last hit visit every occurrence while they do not get into a
character.

## What is here

* `Heap.Finds`, `Heap.Visits` — one search, and searches that start one past the last hit.
* `Heap.find_first` — where a search leads, and that repeated searches visit all occurrences.
* `Heap.SearchesAgree` — what `find`, `in` and `-` have in common; `Heap.searches_agree` shows it.
* `Session.find_torn` — a search that gets into a character.
-/

set_option autoImplicit false
namespace ScriptHeap

/-- A count as a number is the count, or the largest number. -/
theorem toInt_countNumber (n : Nat) : (countNumber n).toInt = min (n : Int) 2147483647 := by
  rw [countNumber]
  split
  · rename_i hlt
    rw [Int32.toInt_ofNat_of_lt hlt]
    simp only [Nat.reduceShiftLeft] at hlt
    omega
  · rename_i hlt
    rw [Int32.toInt_maxValue]
    simp only [Nat.reduceShiftLeft] at hlt
    omega

theorem countNumber_eq_zero_iff {n : Nat} : countNumber n = 0 ↔ n = 0 := by
  cases n with
  | zero => decide
  | succ n => simp [countNumber_succ_ne_zero]

namespace Heap

variable {Obj : Type} [HostObject Obj] {h : Heap Obj} {i : HandleId} {s : String} {v : Value Obj}
  {x : Scalar Obj} {start : Int32}

omit [HostObject Obj] in
theorem findFrom_eq {text needle : String} {offset : Nat} (hstart : start.toInt = offset + 1) :
    (findFrom text needle start : Value Obj) =
      .integer (countNumber (((Text.positionFrom? needle text offset).map (· + 1)).getD 0)) := by
  rw [findFrom, fromOne?_eq_some hstart]

/-! ## Searches with a start -/

/-- A search for a value in a string from a start on gives a number, and changes nothing. -/
def Finds (h : Heap Obj) (i : HandleId) (v : Value Obj) (start p : Int32) : Prop :=
  dispatch i .find [v, .integer start] h = .ok (some (.integer p)) h

/-- Searches for a value in a string, each from one past the last hit, up to the one that finds
nothing.  The numbers are the hits. -/
inductive Visits (h : Heap Obj) (i : HandleId) (v : Value Obj) : Int32 → List Int32 → Prop
  | done {start : Int32} (hend : h.Finds i v start 0) : Visits h i v start []
  | hit {start p : Int32} {ps : List Int32} (hhit : h.Finds i v start p) (hne : p ≠ 0)
      (hrest : Visits h i v (p + 1) ps) : Visits h i v start (p :: ps)

/-- A search gives the first place from its start on, as a number, unless it starts inside a
character: then it gives zero. -/
theorem finds_first (hi : h.valueOf? i = some (.string s)) (v : Value Obj)
    (hstart : 1 ≤ start.toInt) :
    ∃ p : Nat, h.Finds i v start (countNumber p) ∧ (Text.Torn s start.toInt.toNat → p = 0) ∧
      (¬ Text.Torn s start.toInt.toNat →
        Text.FirstFrom (h.text v) s start.toInt.toNat p) := by
  obtain ⟨offset, hoffset⟩ : ∃ offset : Nat, start.toInt = offset + 1 :=
    ⟨(start.toInt - 1).toNat, by omega⟩
  have hplace : start.toInt.toNat = offset + 1 := by omega
  rw [hplace]
  refine ⟨((Text.positionFrom? (h.text v) s offset).map (· + 1)).getD 0, ?_, fun htorn ↦ ?_,
    Text.firstFrom_positionFrom?⟩
  · rw [Finds, dispatch_string hi, stringMethod, findFrom_eq hoffset]
  · rw [Text.positionFrom?_of_torn htorn]
    rfl

/-- Searches can go on behind an occurrence: the next place is a number and not inside a
character. -/
def GoesOn (text : String) (q : Nat) : Prop :=
  q + 1 < 2147483648 ∧ ¬ Text.Torn text (q + 1)

/-- **Repeated searches visit every occurrence** from the start on, in order. -/
theorem visits_all (hi : h.valueOf? i = some (.string s)) (v : Value Obj)
    (hstart : 1 ≤ start.toInt) (htorn : ¬ Text.Torn s start.toInt.toNat)
    (hnext : ∀ q, start.toInt.toNat ≤ q → Text.StandsAt (h.text v) s q → GoesOn s q) :
    ∃ ps, h.Visits i v start ps ∧ (ps.map Int32.toInt).Pairwise (· < ·) ∧
      ∀ q, q ∈ ps.map Int32.toInt ↔ start.toInt ≤ q ∧ Text.StandsAt (h.text v) s q.toNat := by
  -- occurrences end with the text, and each search starts behind the last hit
  induction hleft : Text.byteLength s.toList + 2 - start.toInt.toNat using
    Nat.strong_induction_on generalizing start with
  | _ left ih =>
    obtain ⟨p, hfinds, -, hfirst⟩ := finds_first hi v hstart
    have hfirst := hfirst htorn
    by_cases hzero : p = 0
    · subst hzero
      refine ⟨[], .done hfinds, .nil, fun q ↦ ⟨fun hq ↦ (List.not_mem_nil hq).elim, ?_⟩⟩
      rintro ⟨hq, hstands⟩
      exact (hfirst.eq_zero_iff.1 rfl _ (by omega) hstands).elim
    · obtain ⟨⟨hge, hstands⟩, hleast⟩ := hfirst.least hzero
      have hend := hstands.le
      obtain ⟨hsmall, htorn'⟩ := hnext p hge hstands
      have hp : (countNumber p).toInt = p := by
        rw [toInt_countNumber]
        omega
      have hsucc : (countNumber p + 1).toInt = p + 1 := by
        rw [Int32.toInt_add, hp, Int32.toInt_one, Int.bmod_eq_of_le (by omega) (by omega)]
      have hplace : (countNumber p + 1).toInt.toNat = p + 1 := by omega
      obtain ⟨ps, hvisits, hsorted, hmem⟩ := @ih _ (by omega) (countNumber p + 1)
        (by omega) (by rwa [hplace]) (fun q hq ↦ hnext q (by omega)) rfl
      rw [hsucc] at hmem
      refine ⟨_, .hit hfinds (mt countNumber_eq_zero_iff.1 hzero) hvisits, ?_, fun q ↦ ?_⟩
      · rw [List.map_cons, hp]
        exact List.pairwise_cons.2 ⟨fun q hq ↦ Int.lt_of_add_one_le ((hmem q).1 hq).1, hsorted⟩
      · rw [List.map_cons, List.mem_cons, hmem, hp]
        constructor
        · rintro (rfl | ⟨hq, hstands'⟩)
          · exact ⟨by omega, hstands⟩
          · exact ⟨by omega, hstands'⟩
        · rintro ⟨hq, hstands'⟩
          have hle : p ≤ q.toNat := hleast ⟨by omega, hstands'⟩
          rcases Nat.eq_or_lt_of_le hle with heq | hlt
          · exact .inl (by omega)
          · exact .inr ⟨by omega, hstands'⟩

/-- **A search gives the first occurrence** at or behind its start, or zero if there is none, unless
the start lies inside a character, where it gives zero.  Searches that start one past the last hit
visit all occurrences from the first start on, in order, when they do not get into a character and
the places are numbers. -/
theorem find_first (hi : h.valueOf? i = some (.string s)) (v : Value Obj)
    (hstart : 1 ≤ start.toInt) :
    (∃ (place : Nat) (p : Int32), h.Finds i v start p ∧ p.toInt = min (place : Int) 2147483647 ∧
        (¬ Text.Torn s start.toInt.toNat →
          Text.FirstFrom (h.text v) s start.toInt.toNat place) ∧
        (Text.Torn s start.toInt.toNat → place = 0)) ∧
      (¬ Text.Torn s start.toInt.toNat →
        (∀ q, start.toInt.toNat ≤ q → Text.StandsAt (h.text v) s q → GoesOn s q) →
        ∃ ps, h.Visits i v start ps ∧ (ps.map Int32.toInt).Pairwise (· < ·) ∧
          ∀ q, q ∈ ps.map Int32.toInt ↔
            start.toInt ≤ q ∧ Text.StandsAt (h.text v) s q.toNat) := by
  obtain ⟨place, hfinds, htorn, hfirst⟩ := finds_first hi v hstart
  exact ⟨⟨place, _, hfinds, toInt_countNumber place, hfirst, htorn⟩, visits_all hi v hstart⟩

/-! ## Searches without a start -/

/-- A scalar is a number or a string. -/
def Textual (x : Scalar Obj) : Prop :=
  match x with
  | .integer _ | .double _ | .string _ => True
  | _ => False

instance (x : Scalar Obj) : Decidable (Textual x) :=
  match x with
  | .integer _ | .double _ | .string _ => isTrue trivial
  | .uninit | .error _ | .pointer _ | .object _ => isFalse id

/-- What `find`, `in` and `-` have in common for a string: they go to the same place, the first at
which the text of a scalar stands, and `-` leaves the bytes around it. -/
structure SearchesAgree (h : Heap Obj) (s : String) (x : Scalar Obj) (place : Nat)
    (rest : String) : Prop where
  first : Text.FirstFrom x.text s 1 place
  contains : (h.contains (.string s) (.scalar x)).toInt = min (place : Int) 2147483647
  find : ∀ i, h.valueOf? i = some (.string s) →
    dispatch i .find [.scalar x] h =
      .ok (some (.integer (h.contains (.string s) (.scalar x)))) h
  sub : operate .sub (.string s) (.scalar x) h = .ok (.string rest) h
  absent : place = 0 → rest = s
  around : place ≠ 0 → Text.utf8 rest =
    (Text.utf8 s).take (place - 1) ++
      (Text.utf8 s).drop (place - 1 + (Text.utf8 x.text).length)
  shorter : place ≠ 0 →
    (Text.utf8 rest).length + (Text.utf8 x.text).length = (Text.utf8 s).length

theorem operate_sub_string (hx : Textual x) (h : Heap Obj) (s : String) :
    operate .sub (.string s) (.scalar x) h = .ok (.string (Text.removeFirst x.text s)) h := by
  cases x with
  | integer n => rfl
  | double y => rfl
  | string t => rfl
  | uninit | error _ | pointer _ | object _ => exact hx.elim

theorem operate_add_string (hx : Textual x) (h : Heap Obj) (s : String) :
    operate .add (.scalar x) (.string s) h = .ok (.string (x.text ++ s)) h := by
  cases x with
  | integer n => rfl
  | double y => rfl
  | string t => rfl
  | uninit | error _ | pointer _ | object _ => exact hx.elim

theorem contains_string (h : Heap Obj) (s : String) (x : Scalar Obj) :
    h.contains (.string s) (.scalar x) =
      countNumber (((Text.position? x.text s).map (· + 1)).getD 0) :=
  rfl

theorem dispatch_find (hi : h.valueOf? i = some (.string s)) (x : Scalar Obj) :
    dispatch i .find [.scalar x] h =
      .ok (some (.integer (h.contains (.string s) (.scalar x)))) h := by
  have hone : (1 : Int32).toInt = (0 : Nat) + 1 := Int32.toInt_one
  rw [dispatch_string hi, stringMethod, findFrom_eq hone, contains_string, Text.position?_eq]
  rfl

/-- **The `in` operator, `find` and `-` agree** on where a number or a string stands in a string:
at its first occurrence, which `-` takes out.  So `-` takes away what `+` has put in front. -/
theorem searches_agree (hx : Textual x) (h : Heap Obj) (s : String) :
    (∃ place rest, h.SearchesAgree s x place rest) ∧
      ∃ joined, operate .add (.scalar x) (.string s) h = .ok (.string joined) h ∧
        operate .sub (.string joined) (.scalar x) h = .ok (.string s) h := by
  refine ⟨⟨((Text.position? x.text s).map (· + 1)).getD 0, Text.removeFirst x.text s, ?_⟩,
    x.text ++ s, operate_add_string hx h s, ?_⟩
  · have hfirst := Text.firstFrom_position? x.text s
    have hcontains := (congrArg Int32.toInt (contains_string h s x)).trans (toInt_countNumber _)
    have hsub := operate_sub_string hx h s
    cases hplace : Text.position? x.text s with
    | none =>
      rw [hplace] at hfirst hcontains
      exact ⟨hfirst, hcontains, fun _ hi ↦ dispatch_find hi x, hsub,
        fun _ ↦ Text.removeFirst_of_position? hplace, fun hne ↦ absurd rfl hne,
        fun hne ↦ absurd rfl hne⟩
    | some k =>
      rw [hplace] at hfirst hcontains
      exact ⟨hfirst, hcontains, fun _ hi ↦ dispatch_find hi x, hsub,
        fun hk ↦ absurd hk (Nat.succ_ne_zero k), fun _ ↦ Text.utf8_removeFirst hplace,
        fun _ ↦ Text.length_utf8_removeFirst hplace⟩
  · rw [operate_sub_string hx, Text.removeFirst_append]

end Heap

namespace Session

/-- A string of characters of two bytes and of one, in turn, in a variable. -/
def accented : Session SampleObject :=
  ((start ⟨false, ⟨4, none⟩⟩).run [.bind "h" (.literal (.scalar (.string "éaéa")))]).2

theorem accented_value : accented.heap.valueOf? ⟨0⟩ = some (.string "éaéa") := by
  cbv

/-- The characters of one byte are visited one after the other: behind each of them another
character begins, or the string ends. -/
theorem find_first_accented :
    accented.heap.valueOf? ⟨0⟩ = some (.string "éaéa") ∧ 1 ≤ (1 : Int32).toInt ∧
      ∃ ps, accented.heap.Visits ⟨0⟩ (.string "a") 1 ps ∧
        ∀ q, q ∈ ps.map Int32.toInt ↔ 1 ≤ q ∧ Text.StandsAt "a" "éaéa" q.toNat := by
  refine ⟨accented_value, by decide, ?_⟩
  have hneedle : "a".toList = ['a'] := by decide
  have hstart : 1 ≤ (1 : Int32).toInt := by decide
  obtain ⟨ps, hvisits, -, hmem⟩ :=
    (Heap.find_first accented_value (.string "a") hstart).2 (Text.not_torn_one _)
      fun q _ hstands ↦ ⟨(Nat.succ_le_succ hstands.le).trans_lt (by decide),
        hstands.not_torn_succ hneedle (by decide)⟩
  exact ⟨ps, hvisits, hmem⟩

/-- One past a character of two bytes a search starts inside that character.  It does not find the
next occurrence, and neither do searches one after the other. -/
theorem find_torn :
    accented.heap.Finds ⟨0⟩ (.string "é") 2 0 ∧ accented.heap.Visits ⟨0⟩ (.string "é") 1 [1] ∧
      Text.StandsAt "é" "éaéa" 4 := by
  have hfinds : accented.heap.Finds ⟨0⟩ (.string "é") 2 0 := by cbv
  have htext : "éaéa".toList = ['é', 'a'] ++ ("é".toList ++ ['a']) := by decide
  exact ⟨hfinds, .hit (by cbv) (by decide) (.done hfinds), Text.standsAt_of_toList htext⟩

/-- The number 1 stands in a text, and is taken out where it stands. -/
theorem searches_agree_digit :
    Heap.Textual (.integer 1 : Scalar SampleObject) ∧
      ∃ place rest, accented.heap.SearchesAgree "10" (.integer 1) place rest :=
  ⟨by decide, (Heap.searches_agree (by decide) accented.heap "10").1⟩

end Session
end ScriptHeap
