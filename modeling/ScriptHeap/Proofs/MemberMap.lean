import ScriptHeap.Heap.Member

/-!
# Members as a map

The members of a struct in their order: names that are told apart up to case, each with what it
stands for.  A name that is there keeps its place and its spelling when something else is put there;
a new one comes last.

## What is here

* `Distinct` — no two names are the same.
* `Members.find?`, `Members.put`, `Members.without` — the map.
* `Members.Puts`, `Members.Removes` — what an operation promises, with `Members.puts_put` and
  `Members.removes_without`.
* `Members.put_zip_of_some`, `Members.put_zip_of_none`, `Members.without_zip` — the same on a list
  of names and a list of what they stand for.
-/

set_option autoImplicit false
namespace ScriptHeap

/-- No two names are the same up to case. -/
def Distinct (names : List String) : Prop :=
  names.Pairwise (Text.sameName · · = false)

instance (names : List String) : Decidable (Distinct names) :=
  inferInstanceAs (Decidable (names.Pairwise (Text.sameName · · = false)))

namespace Members

variable {α : Type}

/-- What a name stands for. -/
def find? : List (String × α) → String → Option α
  | [], _ => none
  | m :: ms, name => if Text.sameName m.1 name then some m.2 else find? ms name

/-- A name stands for something from now on. -/
def put : List (String × α) → String → α → List (String × α)
  | [], name, a => [(name, a)]
  | m :: ms, name, a => if Text.sameName m.1 name then (m.1, a) :: ms else m :: put ms name a

/-- All members but those with a name. -/
def without (ms : List (String × α)) (name : String) : List (String × α) :=
  ms.filter fun m ↦ !Text.sameName m.1 name

variable {ms : List (String × α)} {name other : String} {a : α}

/-- A name that is the same as one of two different ones is not the same as the other. -/
theorem sameName_eq_false {key : String} (hkey : Text.sameName key name = true)
    (hne : Text.sameName other name = false) : Text.sameName key other = false := by
  rw [Bool.eq_false_iff, Ne, Text.sameName_iff] at hne ⊢
  rw [Text.sameName_iff] at hkey
  exact fun hsame ↦ hne (hsame.symm.trans hkey)

/-- A name is looked up in any spelling. -/
theorem find?_congr (ms : List (String × α)) (hsame : Text.sameName other name = true) :
    find? ms other = find? ms name := by
  induction ms with
  | nil => rfl
  | cons m ms ih =>
    rw [find?, find?, ih, Text.sameName, Text.sameName, Text.sameName_iff.1 hsame]

/-! ## What is put -/

theorem find?_put_self (ms : List (String × α)) (name : String) (a : α) :
    find? (put ms name a) name = some a := by
  induction ms with
  | nil => rw [put, find?, if_pos (Text.sameName_refl name)]
  | cons m ms ih =>
    rw [put]
    split
    · rename_i hsame
      rw [find?, if_pos hsame]
    · rename_i hne
      rw [find?, if_neg hne, ih]

theorem find?_put_of_ne (ms : List (String × α)) (a : α)
    (hne : Text.sameName other name = false) : find? (put ms name a) other = find? ms other := by
  induction ms with
  | nil => simp [put, find?, Text.sameName_comm name other, hne]
  | cons m ms ih =>
    rw [put]
    split
    · rename_i hsame
      rw [find?, find?, sameName_eq_false hsame hne]
      rfl
    · rw [find?, find?, ih]

/-- A name that is there keeps its place and its spelling, and a new one comes last. -/
theorem names_put (ms : List (String × α)) (name : String) (a : α) :
    (put ms name a).map (·.1) =
      if (find? ms name).isSome then ms.map (·.1) else ms.map (·.1) ++ [name] := by
  induction ms with
  | nil => rfl
  | cons m ms ih =>
    rw [put, find?]
    split
    · rfl
    · rw [List.map_cons, ih, List.map_cons]
      split <;> rfl

theorem find?_eq_none_iff : find? ms name = none ↔ ∀ m ∈ ms, Text.sameName m.1 name = false := by
  induction ms with
  | nil => simp [find?]
  | cons m ms ih =>
    rw [find?, List.forall_mem_cons, ← ih]
    cases Text.sameName m.1 name <;> simp

theorem distinct_put (hd : Distinct (ms.map (·.1))) (name : String) (a : α) :
    Distinct ((put ms name a).map (·.1)) := by
  rw [names_put]
  split
  · exact hd
  · rename_i hnone
    refine List.pairwise_append.2 ⟨hd, List.pairwise_singleton _ _, fun key hkey other hother ↦ ?_⟩
    obtain ⟨m, hm, rfl⟩ := List.mem_map.1 hkey
    rw [List.mem_singleton.1 hother]
    exact find?_eq_none_iff.1 (Option.not_isSome_iff_eq_none.1 hnone) m hm

/-! ## What is left out -/

theorem find?_without_self (ms : List (String × α)) (name : String) :
    find? (without ms name) name = none := by
  refine find?_eq_none_iff.2 fun m hm ↦ ?_
  simpa using (List.mem_filter.1 hm).2

theorem find?_without_of_ne (ms : List (String × α)) (hne : Text.sameName other name = false) :
    find? (without ms name) other = find? ms other := by
  induction ms with
  | nil => rfl
  | cons m ms ih =>
    rw [without, List.filter_cons, find?, ← ih]
    cases hsame : Text.sameName m.1 name
    · rw [if_pos (by rfl), find?]
      rfl
    · rw [if_neg (by simp), sameName_eq_false hsame hne]
      rfl

theorem distinct_without (hd : Distinct (ms.map (·.1))) (name : String) :
    Distinct ((without ms name).map (·.1)) :=
  hd.sublist (List.filter_sublist.map _)

theorem without_of_none (hnone : find? ms name = none) : without ms name = ms :=
  List.filter_eq_self.2 fun m hm ↦ by rw [find?_eq_none_iff.1 hnone m hm]; rfl

/-! ## What the operations promise -/

/-- Members after something was put at a name: it is found there in any spelling, all others stand
for what they did, and a name that was there keeps its place and its spelling, while a new one comes
last. -/
structure Puts (ms : List (String × α)) (name : String) (a : α) (ms' : List (String × α)) :
    Prop where
  distinct : Distinct (ms'.map (·.1))
  here : ∀ other, Text.sameName other name = true → find? ms' other = some a
  others : ∀ other, Text.sameName other name = false → find? ms' other = find? ms other
  names : ms'.map (·.1) =
    if (find? ms name).isSome then ms.map (·.1) else ms.map (·.1) ++ [name]

theorem puts_put (hd : Distinct (ms.map (·.1))) (name : String) (a : α) :
    Puts ms name a (put ms name a) where
  distinct := distinct_put hd name a
  here _ hsame := (find?_congr _ hsame).trans (find?_put_self ms name a)
  others _ := find?_put_of_ne ms a
  names := names_put ms name a

/-- Members after a name was taken out: it is not found any more, and all others stand for what they
did, in the order they had. -/
structure Removes (ms : List (String × α)) (name : String) (ms' : List (String × α)) : Prop where
  distinct : Distinct (ms'.map (·.1))
  gone : ∀ other, Text.sameName other name = true → find? ms' other = none
  others : ∀ other, Text.sameName other name = false → find? ms' other = find? ms other
  order : ms'.Sublist ms

theorem removes_without (hd : Distinct (ms.map (·.1))) (name : String) :
    Removes ms name (without ms name) where
  distinct := distinct_without hd name
  gone _ hsame := (find?_congr _ hsame).trans (find?_without_self ms name)
  others _ := find?_without_of_ne ms
  order := List.filter_sublist

/-! ## Names and what they stand for, side by side -/

section
variable {names : List String} {as : List α} {place : Nat}

theorem isSome_find?_zip (hlength : names.length = as.length) (name : String) :
    (find? (names.zip as) name).isSome = (memberIndex? names name).isSome := by
  induction names generalizing as with
  | nil => rfl
  | cons key names ih =>
    cases as with
    | nil => cases hlength
    | cons a as =>
      rw [List.zip_cons_cons, find?, memberIndex?, List.findIdx?_cons]
      split
      · rfl
      · rw [ih (Nat.succ.inj hlength), Option.isSome_map, memberIndex?]

theorem put_zip_of_some (hlength : names.length = as.length)
    (hplace : memberIndex? names name = some place) (a : α) :
    put (names.zip as) name a = names.zip (as.set place a) := by
  induction names generalizing as place with
  | nil => cases hplace
  | cons key names ih =>
    cases as with
    | nil => cases hlength
    | cons b as =>
      rw [memberIndex?, List.findIdx?_cons] at hplace
      rw [List.zip_cons_cons, put]
      split at hplace
      · rename_i hsame
        obtain rfl := Option.some.inj hplace
        rw [if_pos hsame]
        rfl
      · rename_i hne
        obtain ⟨k, hk, rfl⟩ := Option.map_eq_some_iff.1 hplace
        rw [if_neg hne, ih (Nat.succ.inj hlength) hk]
        rfl

theorem put_of_none (hnone : find? ms name = none) (a : α) : put ms name a = ms ++ [(name, a)] := by
  induction ms with
  | nil => rfl
  | cons m ms ih =>
    rw [find?] at hnone
    split at hnone
    · cases hnone
    · rename_i hne
      rw [put, if_neg hne, ih hnone]
      rfl

/-- A new last name is found where it was put. -/
theorem memberIndex?_concat (hnone : memberIndex? names name = none) :
    memberIndex? (names ++ [name]) name = some names.length := by
  rw [memberIndex?] at hnone ⊢
  rw [List.findIdx?_append, hnone, List.findIdx?_singleton, if_pos (Text.sameName_refl name)]
  simp

theorem put_zip_of_none (hlength : names.length = as.length)
    (hnone : memberIndex? names name = none) (a : α) :
    put (names.zip as) name a = (names ++ [name]).zip (as ++ [a]) := by
  have hfind := isSome_find?_zip hlength name
  rw [hnone, Option.isSome_none, Option.isSome_eq_false_iff, Option.isNone_iff_eq_none] at hfind
  rw [put_of_none hfind, List.zip_append hlength]
  rfl

theorem without_zip (hd : Distinct names) (hlength : names.length = as.length)
    (hplace : memberIndex? names name = some place) :
    without (names.zip as) name = (names.eraseIdx place).zip (as.eraseIdx place) := by
  induction names generalizing as place with
  | nil => cases hplace
  | cons key names ih =>
    cases as with
    | nil => cases hlength
    | cons b as =>
      obtain ⟨hkey, hd⟩ := List.pairwise_cons.1 hd
      rw [memberIndex?, List.findIdx?_cons] at hplace
      rw [List.zip_cons_cons, without, List.filter_cons]
      split at hplace
      · rename_i hsame
        obtain rfl := Option.some.inj hplace
        rw [hsame, if_neg (by simp)]
        -- no name further on is the same
        refine without_of_none (find?_eq_none_iff.2 fun m hm ↦ ?_)
        have hmem := (List.of_mem_zip (a := m.1) (b := m.2) hm).1
        rw [Text.sameName_comm]
        exact sameName_eq_false (Text.sameName_comm key name ▸ hsame)
          (Text.sameName_comm key m.1 ▸ hkey _ hmem)
      · rename_i hne
        obtain ⟨k, hk, rfl⟩ := Option.map_eq_some_iff.1 hplace
        rw [if_pos (by simp [hne]), List.eraseIdx_cons_succ, List.eraseIdx_cons_succ,
          List.zip_cons_cons, ← ih hd (Nat.succ.inj hlength) hk]
        rfl

end

end Members
end ScriptHeap
