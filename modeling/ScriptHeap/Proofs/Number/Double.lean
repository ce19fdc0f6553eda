import Mathlib.Tactic.Ring
import ScriptHeap.Number.Double

/-!
# What doubles stand for

A finite double is a significand, doubled some number of times.  A number of that form is its own
rounding, and every 32-bit integer is one, so integers keep apart as doubles.

## What is here

* `Double.Exact` — a significand and a number of doublings that one double holds.
* `Double.round_exact` — such a number is its own rounding.
* `Double.signedUnits_ofInt32` — an integer as a double is the integer.
* `Double.equal_trans`, `Double.ofInt32_equal_iff` — numeric equality of doubles is transitive, and
  on integers it is equality.
* `Double.signedUnits_mono`, `Double.totalKey_ofInt32_le` — the order of all bit patterns is the
  numeric order, and on integers it is theirs.
-/

set_option autoImplicit false
namespace ScriptHeap.Double

theorem leadingWeight_eq : leadingWeight = 2 ^ 52 := by
  rw [leadingWeight, Nat.one_shiftLeft]

theorem unitsOfOne_pos : 0 < unitsOfOne := by
  decide

/-! ## Fields -/

section
variable {negative : Bool} {m : Nat}

theorem toNat_ofMagnitude (hm : m < signWeight) :
    (ofMagnitude negative m).bits.toNat = if negative then signWeight + m else m := by
  have hweight : signWeight = 9223372036854775808 := by decide
  rw [ofMagnitude, UInt64.toNat_ofNat']
  refine Nat.mod_eq_of_lt ?_
  split <;> omega

theorem magnitude_ofMagnitude (hm : m < signWeight) : (ofMagnitude negative m).magnitude = m := by
  rw [magnitude, toNat_ofMagnitude hm]
  split
  · rw [Nat.add_mod_left, Nat.mod_eq_of_lt hm]
  · exact Nat.mod_eq_of_lt hm

theorem isNegative_ofMagnitude (hm : m < signWeight) :
    (ofMagnitude negative m).isNegative = negative := by
  rw [isNegative, toNat_ofMagnitude hm]
  cases negative with
  | false => exact decide_eq_false (Nat.not_le.2 hm)
  | true => exact decide_eq_true (Nat.le_add_right _ _)

end

/-! ## Numbers that are doubles -/

/-- The number `low · 2 ^ shift` has a double of its own: the significand fits, it has its leading
bit unless nothing is doubled, and the exponent is below that of the infinities. -/
structure Exact (low shift : Nat) : Prop where
  fits : low < 2 * leadingWeight
  leads : leadingWeight ≤ low ∨ shift = 0
  finite : shift ≤ 2045

namespace Exact

variable {low shift : Nat}

theorem magnitude_le (he : Exact low shift) : shift * leadingWeight + low ≤ infiniteMagnitude := by
  have hfits := he.fits
  have hfinite := Nat.mul_le_mul_right leadingWeight he.finite
  rw [infiniteMagnitude]
  omega

theorem magnitude_lt_signWeight (he : Exact low shift) :
    shift * leadingWeight + low < signWeight := by
  have hle := he.magnitude_le
  have hlt : infiniteMagnitude < signWeight := by decide
  omega

/-- The significand and the doublings are read back from the sum of the two. -/
theorem units_ofMagnitude (he : Exact low shift) (negative : Bool) :
    (ofMagnitude negative (shift * leadingWeight + low)).units = low * 2 ^ shift := by
  have hpos : 0 < leadingWeight := by decide
  rw [units, Nat.shiftLeft_eq, significand, exponent,
    magnitude_ofMagnitude he.magnitude_lt_signWeight]
  have hfits := he.fits
  by_cases hlow : leadingWeight ≤ low
  · obtain ⟨rest, rfl⟩ := Nat.exists_eq_add_of_le hlow
    have hrest : rest < leadingWeight := by omega
    have hsum : shift * leadingWeight + (leadingWeight + rest) =
        rest + (shift + 1) * leadingWeight := by ring
    rw [if_neg (by omega), hsum, Nat.add_mul_mod_self_right, Nat.add_mul_div_right _ _ hpos,
      Nat.mod_eq_of_lt hrest, Nat.div_eq_of_lt hrest, Nat.zero_add, Nat.add_sub_cancel]
  · obtain rfl : shift = 0 := he.leads.resolve_left hlow
    rw [Nat.zero_mul, Nat.zero_add, if_pos (Nat.lt_of_not_le hlow),
      Nat.div_eq_of_lt (Nat.lt_of_not_le hlow)]

/-- Rounding finds the doublings. -/
theorem shift_eq (he : Exact low shift) :
    (if low * 2 ^ shift < 2 * leadingWeight then 0 else (low * 2 ^ shift).log2 - 52) = shift := by
  have hfits := he.fits
  cases shift with
  | zero => rw [Nat.pow_zero, Nat.mul_one, if_pos hfits]
  | succ k =>
    have hlow : leadingWeight ≤ low := he.leads.resolve_right (Nat.succ_ne_zero k)
    have hge : 2 * leadingWeight ≤ low * 2 ^ (k + 1) := by
      rw [Nat.mul_comm]
      refine Nat.mul_le_mul hlow ?_
      calc 2 = 2 ^ 1 := rfl
        _ ≤ 2 ^ (k + 1) := Nat.pow_le_pow_right Nat.two_pos (Nat.le_add_left 1 k)
    have hlog : (low * 2 ^ (k + 1)).log2 = 52 + (k + 1) := by
      rw [leadingWeight_eq] at hlow hfits
      have hne : low * 2 ^ (k + 1) ≠ 0 := by
        have := leadingWeight_eq
        omega
      rw [Nat.log2_eq_iff hne]
      constructor
      · rw [Nat.pow_add]
        exact Nat.mul_le_mul_right _ hlow
      · calc low * 2 ^ (k + 1) < 2 * 2 ^ 52 * 2 ^ (k + 1) :=
              Nat.mul_lt_mul_of_pos_right hfits (Nat.two_pow_pos _)
          _ = 2 ^ (52 + (k + 1) + 1) := by ring
    rw [if_neg (Nat.not_lt.2 hge), hlog, Nat.add_sub_cancel_left]

/-- **A number that is a double** is its own rounding. -/
theorem round_eq (he : Exact low shift) (negative : Bool) :
    round negative (low * 2 ^ shift) 1 = ofMagnitude negative (shift * leadingWeight + low) := by
  have hpos : 0 < 2 ^ shift := Nat.two_pow_pos shift
  rw [round]
  simp only [Nat.div_one, he.shift_eq, Nat.one_shiftLeft, Nat.mul_mod_left,
    Nat.mul_div_cancel low hpos, Nat.mul_zero]
  rw [if_neg (by omega), Nat.min_eq_left he.magnitude_le]

end Exact

section
variable {n : Int} {low shift : Nat}

/-- A whole number of units that is a double is that number of units. -/
theorem signedUnits_ofSignedUnits (he : Exact low shift) (hn : n.natAbs = low * 2 ^ shift) :
    (ofSignedUnits n).signedUnits = n := by
  rw [ofSignedUnits, hn, he.round_eq, signedUnits, he.units_ofMagnitude,
    isNegative_ofMagnitude he.magnitude_lt_signWeight, ← hn]
  split
  · rename_i hneg
    have := of_decide_eq_true hneg
    omega
  · rename_i hneg
    have := of_decide_eq_false (Bool.eq_false_iff.2 hneg)
    omega

theorem isNaN_ofSignedUnits (he : Exact low shift) (hn : n.natAbs = low * 2 ^ shift) :
    (ofSignedUnits n).isNaN = false := by
  rw [ofSignedUnits, hn, he.round_eq, isNaN, magnitude_ofMagnitude he.magnitude_lt_signWeight]
  exact decide_eq_false (Nat.not_lt.2 he.magnitude_le)

end

/-! ## Integers -/

/-- A small natural number is a double. -/
theorem exists_exact {m : Nat} (hm : m < 2 * leadingWeight) :
    ∃ low shift, Exact low shift ∧ m * unitsOfOne = low * 2 ^ shift := by
  rcases Nat.eq_zero_or_pos m with rfl | hpos
  · exact ⟨0, 0, ⟨by decide, .inr rfl, by decide⟩, by rw [Nat.zero_mul, Nat.zero_mul]⟩
  · -- the leading bit is moved to its place in the significand
    have hlog : m.log2 ≤ 52 := by
      rw [← Nat.lt_succ_iff, Nat.log2_lt hpos.ne']
      rwa [leadingWeight_eq, ← Nat.pow_succ'] at hm
    obtain ⟨hle, hlt⟩ := (Nat.log2_eq_iff hpos.ne').1 (rfl : m.log2 = m.log2)
    refine ⟨m * 2 ^ (52 - m.log2), 1022 + m.log2, ⟨?_, .inl ?_, by omega⟩, ?_⟩
    · calc m * 2 ^ (52 - m.log2) < 2 ^ (m.log2 + 1) * 2 ^ (52 - m.log2) :=
            Nat.mul_lt_mul_of_pos_right hlt (Nat.two_pow_pos _)
        _ = 2 ^ (m.log2 + 1 + (52 - m.log2)) := (Nat.pow_add ..).symm
        _ = 2 ^ 53 := by rw [show m.log2 + 1 + (52 - m.log2) = 53 by omega]
        _ = 2 * leadingWeight := by rw [leadingWeight_eq, Nat.pow_succ']
    · calc leadingWeight = 2 ^ 52 := leadingWeight_eq
        _ = 2 ^ (m.log2 + (52 - m.log2)) := by rw [Nat.add_sub_cancel' hlog]
        _ = 2 ^ m.log2 * 2 ^ (52 - m.log2) := Nat.pow_add ..
        _ ≤ m * 2 ^ (52 - m.log2) := Nat.mul_le_mul_right _ hle
    · have hsum : 52 - m.log2 + (1022 + m.log2) = 1074 := by omega
      rw [unitsOfOne, ← hsum, Nat.one_shiftLeft, Nat.pow_add, Nat.mul_assoc]

theorem exists_exact_int32 (n : Int32) :
    ∃ low shift, Exact low shift ∧ (n.toInt * unitsOfOne).natAbs = low * 2 ^ shift := by
  have hlt := n.toInt_lt
  have hle := n.le_toInt
  have hsmall : n.toInt.natAbs < 2 * leadingWeight := by
    rw [leadingWeight_eq]
    omega
  obtain ⟨low, shift, he, hn⟩ := exists_exact hsmall
  exact ⟨low, shift, he, by rw [Int.natAbs_mul, Int.natAbs_natCast, hn]⟩

/-- **An integer as a double is the integer.** -/
theorem signedUnits_ofInt32 (n : Int32) : (ofInt32 n).signedUnits = n.toInt * unitsOfOne := by
  obtain ⟨low, shift, he, hn⟩ := exists_exact_int32 n
  exact signedUnits_ofSignedUnits he hn

theorem isNaN_ofInt32 (n : Int32) : (ofInt32 n).isNaN = false := by
  obtain ⟨low, shift, he, hn⟩ := exists_exact_int32 n
  exact isNaN_ofSignedUnits he hn

/-! ## Equality -/

section
variable {x y z : Double}

theorem equal_iff : x.equal y = true ↔ x.isNaN = false ∧ y.isNaN = false ∧ x.key = y.key := by
  simp only [equal, Bool.and_eq_true, Bool.not_eq_true', beq_iff_eq, and_assoc]

theorem equal_trans (hxy : x.equal y = true) (hyz : y.equal z = true) : x.equal z = true := by
  obtain ⟨hx, -, hxy⟩ := equal_iff.1 hxy
  obtain ⟨-, hz, hyz⟩ := equal_iff.1 hyz
  exact equal_iff.2 ⟨hx, hz, hxy.trans hyz⟩

/-- A place on the number line belongs to one number. -/
theorem signedUnits_congr (hkey : x.key = y.key) : x.signedUnits = y.signedUnits := by
  have hmagnitude : x.magnitude = y.magnitude := by
    rw [key, key] at hkey
    split at hkey <;> split at hkey <;> omega
  have hunits : x.units = y.units := by
    rw [units, units, significand, significand, exponent, exponent, hmagnitude]
  by_cases hzero : y.magnitude = 0
  · have hnone : y.units = 0 := by
      rw [units, significand, exponent, hzero]
      decide
    rw [signedUnits, signedUnits, hunits, hnone]
    split <;> split <;> rfl
  · have hsign : x.isNegative = y.isNegative := by
      rw [key, key, hmagnitude] at hkey
      split at hkey <;> rename_i hx <;> split at hkey <;> rename_i hy
      · rw [hx, hy]
      · omega
      · omega
      · rw [Bool.eq_false_of_not_eq_true hx, Bool.eq_false_of_not_eq_true hy]
    rw [signedUnits, signedUnits, hunits, hsign]

end

/-- **Integers keep apart as doubles.** -/
theorem ofInt32_equal_iff {a b : Int32} : (ofInt32 a).equal (ofInt32 b) = true ↔ a = b := by
  constructor
  · intro hab
    obtain ⟨-, -, hkey⟩ := equal_iff.1 hab
    have hunits := signedUnits_congr hkey
    rw [signedUnits_ofInt32, signedUnits_ofInt32] at hunits
    have hne : (unitsOfOne : Int) ≠ 0 := Int.natCast_ne_zero.2 unitsOfOne_pos.ne'
    exact Int32.toInt_inj.1 (Int.eq_of_mul_eq_mul_right hne hunits)
  · rintro rfl
    exact equal_iff.2 ⟨isNaN_ofInt32 a, isNaN_ofInt32 a, rfl⟩

/-! ## Order -/

section
variable {x y : Double}

/-- A magnitude is a significand and its doublings, one above the other. -/
theorem exists_magnitude_eq (x : Double) : ∃ low shift, x.units = low * 2 ^ shift ∧
    x.magnitude = shift * leadingWeight + low ∧ low < 2 * leadingWeight ∧
      (leadingWeight ≤ low ∨ shift = 0) := by
  have hpos : 0 < leadingWeight := by decide
  refine ⟨x.significand, x.exponent, Nat.shiftLeft_eq _ _, ?_⟩
  rw [significand, exponent]
  have hmod := Nat.mod_lt x.magnitude hpos
  by_cases hsmall : x.magnitude < leadingWeight
  · rw [if_pos hsmall, Nat.div_eq_of_lt hsmall]
    exact ⟨by rw [Nat.zero_sub, Nat.zero_mul, Nat.zero_add], by omega, .inr rfl⟩
  · have hone : 1 ≤ x.magnitude / leadingWeight :=
      (Nat.one_le_div_iff hpos).2 (Nat.le_of_not_lt hsmall)
    obtain ⟨k, hk⟩ := Nat.exists_eq_add_of_le' hone
    have hsum := Nat.div_add_mod' x.magnitude leadingWeight
    rw [hk, Nat.succ_mul] at hsum
    rw [if_neg hsmall, hk, Nat.add_sub_cancel]
    exact ⟨by omega, by omega, .inl (Nat.le_add_right _ _)⟩

/-- Greater bits below the sign are a greater absolute value. -/
theorem units_mono (hxy : x.magnitude ≤ y.magnitude) : x.units ≤ y.units := by
  obtain ⟨low, shift, hx, hmx, hlow, hlead⟩ := x.exists_magnitude_eq
  obtain ⟨low', shift', hy, hmy, hlow', hlead'⟩ := y.exists_magnitude_eq
  rw [hx, hy]
  rw [hmx, hmy] at hxy
  rcases Nat.lt_trichotomy shift shift' with hlt | rfl | hgt
  · have hle : leadingWeight ≤ low' := hlead'.resolve_right (by omega)
    calc low * 2 ^ shift ≤ 2 * leadingWeight * 2 ^ shift := Nat.mul_le_mul_right _ hlow.le
      _ = leadingWeight * 2 ^ (shift + 1) := by ring
      _ ≤ low' * 2 ^ shift' := Nat.mul_le_mul hle (Nat.pow_le_pow_right Nat.two_pos hlt)
  · exact Nat.mul_le_mul_right _ (by omega)
  · -- one doubling more would be a magnitude more than any significand can make up for
    have hle : leadingWeight ≤ low := hlead.resolve_right (by omega)
    have hmore := Nat.mul_le_mul_right leadingWeight hgt
    rw [Nat.succ_mul] at hmore
    omega

/-- **What is earlier among all bit patterns is not greater.** -/
theorem signedUnits_mono (hxy : x.totalKey ≤ y.totalKey) : x.signedUnits ≤ y.signedUnits := by
  rw [totalKey, totalKey] at hxy
  rw [signedUnits, signedUnits]
  by_cases hx : x.isNegative = true
  · rw [if_pos hx] at hxy ⊢
    by_cases hy : y.isNegative = true
    · rw [if_pos hy] at hxy ⊢
      have hunits : y.units ≤ x.units := units_mono (by omega)
      omega
    · rw [if_neg hy]
      omega
  · rw [if_neg hx] at hxy ⊢
    by_cases hy : y.isNegative = true
    · rw [if_pos hy] at hxy
      omega
    · rw [if_neg hy] at hxy ⊢
      exact Int.ofNat_le.2 (units_mono (Int.ofNat_le.1 hxy))

end

/-- **Integers have their order among all bit patterns.** -/
theorem totalKey_ofInt32_le {a b : Int32} :
    (ofInt32 a).totalKey ≤ (ofInt32 b).totalKey ↔ a ≤ b := by
  have hle {a b : Int32} (hab : (ofInt32 a).totalKey ≤ (ofInt32 b).totalKey) : a ≤ b := by
    have hunits := signedUnits_mono hab
    rw [signedUnits_ofInt32, signedUnits_ofInt32] at hunits
    exact Int32.le_iff_toInt_le.2
      (Int.le_of_mul_le_mul_right hunits (Int.natCast_pos.2 unitsOfOne_pos))
  refine ⟨hle, fun hab ↦ ?_⟩
  rcases Int.le_total (ofInt32 a).totalKey (ofInt32 b).totalKey with hkey | hkey
  · exact hkey
  · rw [Int32.le_antisymm hab (hle hkey)]

end ScriptHeap.Double
