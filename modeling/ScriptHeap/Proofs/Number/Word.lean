import Mathlib.Data.Int.Bitwise
import ScriptHeap.Heap.Operate
import ScriptHeap.Proofs.Outcome

/-!
# Operators on integers

What an operator gives for two integers is a number that may be too large for a word, and the result
is what is left of it in a word of 32 bits.  Two operators give an error instead, and only when they
are to divide by zero.

## What is here

* `eq_of_testBit`, `testBit_toInt` — a number is made of its bits, and those of a word go on as
  its sign.
* `Operator.unbounded?` — the number that an operator stands for.
* `toInt_shiftLeft`, `toInt_shiftRight`, `toInt_and`, `toInt_xor`, `toInt_or` — the operators that
  work on bits.
* `Heap.operate_integers` — every operator gives its number cut to a word, and quotient and
  remainder make up the number that was divided.
-/

set_option autoImplicit false
namespace ScriptHeap

/-! ## Bits -/

/-- Far enough out, all bits of a natural number are off. -/
theorem testBit_of_le {n k : Nat} (h : n ≤ k) : n.testBit k = false :=
  Nat.testBit_lt_two_pow (n.lt_two_pow_self.trans_le (Nat.pow_le_pow_right Nat.two_pos h))

/-- Numbers with the same bits are the same. -/
theorem eq_of_testBit {m n : Int} (h : ∀ k, m.testBit k = n.testBit k) : m = n := by
  -- far enough out, the bits of numbers of unlike sign differ
  have hunlike (a b : Nat) : ∃ k, (Int.ofNat a).testBit k ≠ (Int.negSucc b).testBit k := by
    have ha : a.testBit (a + b) = false := testBit_of_le (Nat.le_add_right a b)
    have hb : b.testBit (a + b) = false := testBit_of_le (Nat.le_add_left b a)
    exact ⟨a + b, by simp [Int.testBit, ha, hb]⟩
  cases m with
  | ofNat a =>
    cases n with
    | ofNat b => exact congrArg Int.ofNat (Nat.eq_of_testBit_eq h)
    | negSucc b =>
      obtain ⟨k, hk⟩ := hunlike a b
      exact absurd (h k) hk
  | negSucc a =>
    cases n with
    | ofNat b =>
      obtain ⟨k, hk⟩ := hunlike b a
      exact absurd (h k).symm hk
    | negSucc b =>
      exact congrArg Int.negSucc (Nat.eq_of_testBit_eq fun k ↦ Bool.not_inj (h k))

/-- The bits of a word go on as its sign. -/
theorem testBit_toInt {w : Nat} (x : BitVec w) (k : Nat) :
    x.toInt.testBit k = if k < w then x.getLsbD k else x.msb := by
  rw [BitVec.toInt_eq_msb_cond]
  cases hsign : x.msb with
  | false =>
    rw [if_neg Bool.false_ne_true]
    change x.toNat.testBit k = _
    rw [BitVec.testBit_toNat]
    split
    · rfl
    · exact BitVec.getLsbD_of_ge x k (by omega)
  | true =>
    have hneg : (x.toNat : Int) - (2 ^ w : Nat) = Int.negSucc (2 ^ w - (x.toNat + 1)) := by
      have := x.isLt
      omega
    rw [if_pos rfl, hneg]
    change (!(2 ^ w - (x.toNat + 1)).testBit k) = _
    rw [Nat.testBit_two_pow_sub_succ x.isLt, BitVec.testBit_toNat]
    split <;> simp [*]

variable (a b : Int32)

theorem testBit_int32 (k : Nat) :
    a.toInt.testBit k = if k < 32 then a.toBitVec.getLsbD k else a.toBitVec.msb := by
  rw [← Int32.toInt_toBitVec, testBit_toInt]

theorem toInt_and : (a &&& b).toInt = a.toInt.land b.toInt := by
  refine eq_of_testBit fun k ↦ ?_
  rw [Int.testBit_land, testBit_int32, testBit_int32, testBit_int32, Int32.toBitVec_and,
    BitVec.getLsbD_and, BitVec.msb_and]
  split <;> rfl

theorem toInt_xor : (a ^^^ b).toInt = a.toInt.xor b.toInt := by
  refine eq_of_testBit fun k ↦ ?_
  rw [Int.testBit_lxor, testBit_int32, testBit_int32, testBit_int32, Int32.toBitVec_xor,
    BitVec.getLsbD_xor, BitVec.msb_xor]
  split <;> rfl

theorem toInt_or : (a ||| b).toInt = a.toInt.lor b.toInt := by
  refine eq_of_testBit fun k ↦ ?_
  rw [Int.testBit_lor, testBit_int32, testBit_int32, testBit_int32, Int32.toBitVec_or,
    BitVec.getLsbD_or, BitVec.msb_or]
  split <;> rfl

/-! ## Shifts -/

/-- The distance of a shift: a number of bits, taken modulo the size of a word. -/
theorem toNat_distance : (b.toBitVec.smod 32).toNat = (b.toInt % 32).toNat := by
  have hint : (b.toBitVec.smod 32).toInt = b.toInt % 32 := by
    rw [BitVec.toInt_smod, Int32.toInt_toBitVec]
    exact Int.fmod_eq_emod_of_nonneg _ (by decide)
  rw [BitVec.toInt_eq_toNat_cond] at hint
  split at hint <;> omega

theorem toInt_shiftLeft :
    (a <<< b).toInt = (a.toInt * 2 ^ (b.toInt % 32).toNat).bmod (2 ^ 32) := by
  rw [← Int32.toInt_toBitVec, Int32.toBitVec_shiftLeft, BitVec.shiftLeft_eq',
    BitVec.toInt_shiftLeft, toNat_distance, Nat.shiftLeft_eq, ← Int32.toInt_toBitVec a,
    BitVec.toInt_eq_toNat_bmod, Int.bmod_mul_bmod, Int.natCast_mul, Int.natCast_pow]
  rfl

theorem toInt_shiftRight : (a >>> b).toInt = a.toInt.fdiv (2 ^ (b.toInt % 32).toNat) := by
  rw [← Int32.toInt_toBitVec, Int32.toBitVec_shiftRight, BitVec.toInt_sshiftRight', toNat_distance,
    Int32.toInt_toBitVec, Int.shiftRight_eq_div_pow, Int.natCast_pow]
  exact (Int.fdiv_eq_ediv_of_nonneg _ (Int.pow_nonneg (by decide))).symm

/-! ## Operators -/

theorem bmod_toInt : a.toInt.bmod (2 ^ 32) = a.toInt :=
  Int.bmod_eq_of_le (by have := a.le_toInt; omega) (by have := a.toInt_lt; omega)

/-- The number that an operator on integers stands for, however large; there is none for a zero
divisor.  Quotients are cut toward zero and remainders go with them, distances of shifts are taken
modulo the size of a word, and what is shifted out to the right is cut off downwards.  The other
operators work on all bits of a number, which go on as its sign. -/
def Operator.unbounded? (op : Operator) (a b : Int) : Option Int :=
  match op with
  | add => some (a + b)
  | sub => some (a - b)
  | mul => some (a * b)
  | div => if b = 0 then none else some (a.tdiv b)
  | mod => if b = 0 then none else some (a.tmod b)
  | shl => some (a * 2 ^ (b % 32).toNat)
  | shr => some (a.fdiv (2 ^ (b % 32).toNat))
  | bitAnd => some (a.land b)
  | bitXor => some (a.xor b)
  | bitOr => some (a.lor b)

theorem Operator.unbounded?_eq_none_iff {op : Operator} {a b : Int} :
    op.unbounded? a b = none ↔ (op = .div ∨ op = .mod) ∧ b = 0 := by
  cases op <;> simp [unbounded?]

namespace Heap

variable {Obj : Type} [HostObject Obj] {a b} {op : Operator} {n : Int}

theorem operate_div (h : Heap Obj) : operate .div (.integer a) (.integer b) h =
    .ok (if b = 0 then .error divideByZero else .integer (a / b)) h := by
  change EStateM.Result.ok (Value.scalar (if b = 0 then _ else _)) h = _
  split <;> rfl

theorem operate_mod (h : Heap Obj) : operate .mod (.integer a) (.integer b) h =
    .ok (if b = 0 then .error divideByZero else .integer (a % b)) h := by
  change EStateM.Result.ok (Value.scalar (if b = 0 then _ else _)) h = _
  split <;> rfl

/-- An operator gives its number cut to a word. -/
theorem operate_of_unbounded? (h : Heap Obj) (hn : op.unbounded? a.toInt b.toInt = some n) :
    ∃ r, operate op (.integer a) (.integer b) h = .ok (.integer r) h ∧
      r.toInt = n.bmod (2 ^ 32) := by
  have hne (hdivides : ¬ b.toInt = 0) : b ≠ 0 := mt (congrArg Int32.toInt) hdivides
  cases op with
  | add =>
    obtain rfl := Option.some.inj hn
    exact ⟨a + b, rfl, Int32.toInt_add a b⟩
  | sub =>
    obtain rfl := Option.some.inj hn
    exact ⟨a - b, rfl, Int32.toInt_sub a b⟩
  | mul =>
    obtain rfl := Option.some.inj hn
    exact ⟨a * b, rfl, Int32.toInt_mul a b⟩
  | div =>
    obtain ⟨hdivides, hn⟩ := Option.ite_none_left_eq_some.1 hn
    obtain rfl := Option.some.inj hn
    refine ⟨a / b, ?_, Int32.toInt_div a b⟩
    rw [operate_div, if_neg (hne hdivides)]
  | mod =>
    obtain ⟨hdivides, hn⟩ := Option.ite_none_left_eq_some.1 hn
    obtain rfl := Option.some.inj hn
    refine ⟨a % b, ?_, ?_⟩
    · rw [operate_mod, if_neg (hne hdivides)]
    · rw [← Int32.toInt_mod, bmod_toInt]
  | shl =>
    obtain rfl := Option.some.inj hn
    exact ⟨a <<< b, rfl, toInt_shiftLeft a b⟩
  | shr =>
    obtain rfl := Option.some.inj hn
    refine ⟨a >>> b, rfl, ?_⟩
    rw [← toInt_shiftRight, bmod_toInt]
  | bitAnd =>
    obtain rfl := Option.some.inj hn
    refine ⟨a &&& b, rfl, ?_⟩
    rw [← toInt_and, bmod_toInt]
  | bitXor =>
    obtain rfl := Option.some.inj hn
    refine ⟨a ^^^ b, rfl, ?_⟩
    rw [← toInt_xor, bmod_toInt]
  | bitOr =>
    obtain rfl := Option.some.inj hn
    refine ⟨a ||| b, rfl, ?_⟩
    rw [← toInt_or, bmod_toInt]

/-- Without a number to give, an operator gives an error. -/
theorem operate_of_unbounded?_none (h : Heap Obj) (hn : op.unbounded? a.toInt b.toInt = none) :
    operate op (.integer a) (.integer b) h = .ok (.error divideByZero) h := by
  obtain ⟨rfl | rfl, hb⟩ := Operator.unbounded?_eq_none_iff.1 hn
  · rw [operate_div, if_pos (Int32.toInt_inj.1 hb)]
  · rw [operate_mod, if_pos (Int32.toInt_inj.1 hb)]

/-- Quotient and remainder make up the number that was divided. -/
theorem div_mul_add_mod (a b : Int32) : a / b * b + a % b = a := by
  refine Int32.toInt_inj.1 ?_
  rw [Int32.toInt_add, Int32.toInt_mul, Int32.toInt_div, Int32.toInt_mod, Int.bmod_mul_bmod,
    Int.bmod_add_bmod, Int.tdiv_mul_add_tmod, bmod_toInt]

/-- **Operators on integers** always give a result: the number that the operator stands for, cut to
a word of 32 bits in two's complement.  A quotient or remainder by zero, and nothing else, gives an
error.  Quotient and remainder by any other number make up the number that was divided. -/
theorem operate_integers (h : Heap Obj) (op : Operator) (a b : Int32) :
    (∀ n, op.unbounded? a.toInt b.toInt = some n →
        ∃ r, operate op (.integer a) (.integer b) h = .ok (.integer r) h ∧
          r.toInt = n.bmod (2 ^ 32)) ∧
      (op.unbounded? a.toInt b.toInt = none →
        operate op (.integer a) (.integer b) h = .ok (.error divideByZero) h) ∧
      (op.unbounded? a.toInt b.toInt = none ↔ (op = .div ∨ op = .mod) ∧ b = 0) ∧
      (b ≠ 0 → ∃ quotient product remainder,
        operate .div (.integer a) (.integer b) h = .ok quotient h ∧
          operate .mul quotient (.integer b) h = .ok product h ∧
          operate .mod (.integer a) (.integer b) h = .ok remainder h ∧
          operate .add product remainder h = .ok (.integer a) h) := by
  refine ⟨fun n ↦ operate_of_unbounded? h, operate_of_unbounded?_none h, ?_, fun hne ↦ ?_⟩
  · rw [Operator.unbounded?_eq_none_iff, ← Int32.toInt_zero, Int32.toInt_inj]
  · refine ⟨.integer (a / b), .integer (a / b * b), .integer (a % b), ?_, rfl, ?_, ?_⟩
    · rw [operate_div, if_neg hne]
    · rw [operate_mod, if_neg hne]
    · change EStateM.Result.ok (Value.integer (a / b * b + a % b)) h = _
      rw [div_mul_add_mod]

/-- The least number divided by -1 is too large for a word, and shifts go round with their
distance. -/
example (h : Heap Obj) :
    operate .div (.integer Int32.minValue) (.integer (-1)) h = .ok (.integer Int32.minValue) h ∧
      operate .shl (.integer 1) (.integer (-1)) h = .ok (.integer Int32.minValue) h :=
  ⟨rfl, rfl⟩

end Heap
end ScriptHeap
