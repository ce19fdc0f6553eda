import ScriptHeap.Kind

/-!
# Layout of packed values

What writing and reading packed values agree on: numbers stand with their low byte first, every
length and count takes four bytes, and containers nest no deeper than `nestingLimit`.
-/

set_option autoImplicit false
namespace ScriptHeap.Packed

/-- Containers inside containers beyond this depth are refused when read. -/
def nestingLimit : Nat :=
  256

/-- Lengths and counts from here on have no packed form. -/
def lengthLimit : Nat :=
  1 <<< 32

/-- The `width` low bytes of a number, the lowest first. -/
def littleEndian : (width : Nat) → Nat → List UInt8
  | 0, _ => []
  | width + 1, n => UInt8.ofNat (n % 256) :: littleEndian width (n / 256)

/-- The number that bytes spell, the lowest first. -/
def ofLittleEndian : List UInt8 → Nat
  | [] => 0
  | b :: bytes => b.toNat + 256 * ofLittleEndian bytes

@[simp] theorem length_littleEndian (width n : Nat) : (littleEndian width n).length = width := by
  induction width generalizing n with
  | zero => rfl
  | succ width ih => simp [littleEndian, ih]

theorem ofLittleEndian_littleEndian (width n : Nat) :
    ofLittleEndian (littleEndian width n) = n % Nat.pow 256 width := by
  induction width generalizing n with
  | zero => simp [littleEndian, ofLittleEndian, Nat.mod_one]
  | succ width ih =>
    have hpow : Nat.pow 256 (width + 1) = 256 * Nat.pow 256 width := Nat.pow_succ'
    rw [littleEndian, ofLittleEndian, ih, hpow, Nat.mod_mul, UInt8.toNat_ofNat', Nat.mod_mod]

theorem littleEndian_ofLittleEndian (bytes : List UInt8) :
    littleEndian bytes.length (ofLittleEndian bytes) = bytes := by
  induction bytes with
  | nil => rfl
  | cons b bytes ih =>
    have hb := b.toNat_lt
    rw [List.length_cons, littleEndian, ofLittleEndian,
      show (b.toNat + 256 * ofLittleEndian bytes) % 256 = b.toNat by omega,
      show (b.toNat + 256 * ofLittleEndian bytes) / 256 = ofLittleEndian bytes by omega,
      ih, UInt8.ofNat_toNat]

end ScriptHeap.Packed
