import ScriptHeap.Text.Utf8

/-!
# The order of texts

Texts are in the order of their characters, which is the order of their UTF-8 bytes.

## What is here

* `Text.utf8EncodeChar_lt` — the bytes of a character decide, whatever comes after them.
* `Text.utf8_le_utf8` — one text is at most another exactly when this holds for their bytes.
-/

set_option autoImplicit false
namespace ScriptHeap.Text

variable {c d : Char} {cs ds : List Char} {s t : String} {m n : Nat} {bs bs' : List UInt8}

theorem utf8_eq (s : String) : utf8 s = s.toList.flatMap String.utf8EncodeChar := by
  rw [utf8, ← String.utf8Encode_toList, List.utf8Encode, List.data_toByteArray]

/-- Bytes with a lesser number in the first place. -/
theorem cons_lt_cons (hn : n < 256) (hmn : m < n) (bs bs' : List UInt8) :
    UInt8.ofNat m :: bs < UInt8.ofNat n :: bs' := by
  refine List.cons_lt_cons_iff.2 (.inl ?_)
  rw [UInt8.lt_iff_toNat_lt, UInt8.toNat_ofNat', UInt8.toNat_ofNat']
  omega

/-- Bytes with at most the same number in the first place, and lesser ones behind it. -/
theorem cons_lt_cons_of_le (hn : n < 256) (hmn : m ≤ n) (hlt : m = n → bs < bs') :
    UInt8.ofNat m :: bs < UInt8.ofNat n :: bs' := by
  rcases Nat.lt_or_eq_of_le hmn with hmn | rfl
  · exact cons_lt_cons hn hmn bs bs'
  · exact List.cons_lt_cons_iff.2 (.inr ⟨rfl, hlt rfl⟩)

/-- **The bytes of a lesser character come first**, whatever stands behind them. -/
theorem utf8EncodeChar_lt (hcd : c < d) (bs bs' : List UInt8) :
    String.utf8EncodeChar c ++ bs < String.utf8EncodeChar d ++ bs' := by
  have hlt : c.val.toNat < d.val.toNat := hcd
  have hlast : d.val.toNat < 1114112 := by
    rcases d.valid with hd | ⟨-, hd⟩
    · exact Nat.lt_trans hd (by decide)
    · exact hd
  -- the first byte tells how many there are; of as many, the first that differs decides
  simp only [String.utf8EncodeChar]
  by_cases hone : c.val.toNat ≤ 127
  · rw [if_pos hone]
    split
    · exact cons_lt_cons (by omega) hlt _ _
    · split
      · exact cons_lt_cons (by omega) (by omega) _ _
      · split <;> exact cons_lt_cons (by omega) (by omega) _ _
  rw [if_neg hone, if_neg (by omega : ¬ d.val.toNat ≤ 127)]
  by_cases htwo : c.val.toNat ≤ 2047
  · rw [if_pos htwo]
    split
    · refine cons_lt_cons_of_le (by omega) (by omega) fun _ ↦ ?_
      exact cons_lt_cons (by omega) (by omega) _ _
    · split <;> exact cons_lt_cons (by omega) (by omega) _ _
  rw [if_neg htwo, if_neg (by omega : ¬ d.val.toNat ≤ 2047)]
  by_cases hthree : c.val.toNat ≤ 65535
  · rw [if_pos hthree]
    split
    · refine cons_lt_cons_of_le (by omega) (by omega) fun _ ↦ ?_
      refine cons_lt_cons_of_le (by omega) (by omega) fun _ ↦ ?_
      exact cons_lt_cons (by omega) (by omega) _ _
    · exact cons_lt_cons (by omega) (by omega) _ _
  rw [if_neg hthree, if_neg (by omega : ¬ d.val.toNat ≤ 65535)]
  refine cons_lt_cons_of_le (by omega) (by omega) fun _ ↦ ?_
  refine cons_lt_cons_of_le (by omega) (by omega) fun _ ↦ ?_
  refine cons_lt_cons_of_le (by omega) (by omega) fun _ ↦ ?_
  exact cons_lt_cons (by omega) (by omega) _ _

/-- The bytes of lesser characters are lesser. -/
theorem flatMap_utf8EncodeChar_lt (hlt : cs < ds) :
    cs.flatMap String.utf8EncodeChar < ds.flatMap String.utf8EncodeChar := by
  induction cs generalizing ds with
  | nil =>
    cases ds with
    | nil => exact absurd hlt (List.lt_irrefl _)
    | cons d ds =>
      rw [List.flatMap_cons]
      cases hd : String.utf8EncodeChar d with
      | nil => exact absurd hd String.utf8EncodeChar_ne_nil
      | cons b bs => exact List.nil_lt_cons b _
  | cons c cs ih =>
    cases ds with
    | nil => exact absurd hlt (List.not_lt_nil _)
    | cons d ds =>
      rw [List.flatMap_cons, List.flatMap_cons]
      rcases List.cons_lt_cons_iff.1 hlt with hcd | ⟨rfl, hrest⟩
      · exact utf8EncodeChar_lt hcd _ _
      · exact List.append_left_lt (ih hrest)

/-- **Texts are in the order of their bytes.** -/
theorem utf8_le_utf8 : utf8 s ≤ utf8 t ↔ s ≤ t := by
  have hmono {s t : String} (hlt : s < t) : utf8 s < utf8 t := by
    rw [utf8_eq, utf8_eq]
    exact flatMap_utf8EncodeChar_lt hlt
  refine ⟨fun hle hlt ↦ hle (hmono hlt), fun hle hlt ↦ ?_⟩
  by_cases hts : t ≤ s
  · rw [String.le_antisymm hle hts] at hlt
    exact List.lt_irrefl _ hlt
  · exact List.lt_asymm hlt (hmono (String.not_le.1 hts))

end ScriptHeap.Text
