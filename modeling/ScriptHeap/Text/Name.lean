/-!
# Names compared without regard to case

Member names, method names and property keys are the same when they agree up to the case of the
ASCII letters.  Other letters keep their case.
-/

set_option autoImplicit false
namespace ScriptHeap.Text

/-- A name with its ASCII letters in lower case. -/
def folded (name : String) : List Char :=
  name.toList.map Char.toLower

/-- Whether two names are the same up to the case of ASCII letters. -/
def sameName (a b : String) : Bool :=
  folded a == folded b

@[simp] theorem sameName_iff {a b : String} : sameName a b = true ↔ folded a = folded b :=
  beq_iff_eq

theorem sameName_refl (a : String) : sameName a a = true :=
  sameName_iff.2 rfl

theorem sameName_comm (a b : String) : sameName a b = sameName b a :=
  BEq.comm

/-- Names that are the same have the same other names. -/
theorem sameName_congr {a b : String} (hab : sameName a b = true) (c : String) :
    sameName a c = sameName b c := by
  rw [sameName, sameName, sameName_iff.1 hab]

/-- A name in lower case. -/
def lowered (name : String) : String :=
  String.ofList (folded name)

theorem lowered_eq_iff {a b : String} : lowered a = lowered b ↔ sameName a b = true := by
  rw [sameName_iff, lowered, lowered, String.ofList_inj]

end ScriptHeap.Text
