import Mathlib
import ScriptHeap.Proofs.Session.Books
import ScriptHeap.Host.Sample

/-!
# Operators in place

An operator applied to a variable leaves there what it gives for the value of the variable.  For `+`
on an array this takes two different ways: the sum is a new array, while the variable gets new
elements put last in the list that it has, which may be the list of the right operand, too.

## What is here

* `Scene.Extends.joins` — what an array shows when elements were put last in it.
* `Heap.Operands.append_joins` — what a variable shows to which an array or a value was added.
* `Heap.operateInPlace_agrees` — the operator in place leaves what the operator gives.
-/

set_option autoImplicit false
namespace ScriptHeap

variable {Obj : Type} [HostObject Obj]

namespace Scene

variable {c : Scene Obj} {made : List HandleId} {ys : List Hold}

/-- **An array with new elements put last** shows what it showed, and what was to be added. -/
theorem Extends.joins {h' : Heap Obj} {i : HandleId} {l m : ListId} {v : Value Obj}
    {added js : List HandleId} (hx : c.Extends made ys c.before i v added m js h')
    (hunseen : c.unseen) (hac : c.acyclic) (hi : c.before.valueOf? i = some (.array l)) :
    c.before.Joins (h'.withElements m (js ++ added)) l v (.array m) := by
  have hmem {e : HandleId} (he : e ∈ js) : Hold.handle e ∈ h'.holdsOf (.list m) :=
    Heap.handle_mem_holdsOf hx.elements he
  -- the list is not reached from the handles that are in it then
  have hapart (e : HandleId) (he : e ∈ js ++ added) : ¬ h'.Reaches (.handle e) (.list m) := by
    rcases List.mem_append.1 he with he | he
    · exact fun hreach ↦ hx.here.acyclic hac ⟨_, _, hmem he, hreach⟩
    · exact hx.clear hac _ (List.mem_map.2 ⟨e, he, rfl⟩)
  have hcell := At.exists_cell? (Heap.content?_list.2 hx.elements)
  have hkeeps : h'.Keeps (h'.withElements m (js ++ added)) (handleHolds (js ++ added)) := by
    intro z hz y hy
    obtain ⟨e, he, rfl⟩ := List.mem_map.1 hz
    have hne : y ≠ .list m := fun hym ↦ hapart e he (hym ▸ hy)
    exact (Heap.changes_withElements hcell _).content?_of_ne hne
  have hlist (depth : Nat) :
      Heap.shape depth h' (.list m) = Heap.shape depth c.before (.list l) := by
    obtain ⟨b, hb, -⟩ := Option.bind_eq_some_iff.1 hi
    obtain ⟨b', hb', -⟩ := Option.bind_eq_some_iff.1 hx.value
    have hborn := Heap.born_of_content? c.sound.tidy (Heap.content?_handle.2 hb)
    have hsame := (hx.here.shown hunseen _ hborn (Heap.isSome_of_blockOf? hb')).2 (depth + 1)
    rw [Heap.shape, Heap.shape, hx.value, hi] at hsame
    exact Datum.array.inj (List.cons.inj hsame).1
  refine ⟨m, rfl, fun depth ↦ ?_⟩
  rw [Heap.shape_list (Heap.elements?_withElements hx.elements _), hkeeps.seen, Heap.seen_append,
    ← Heap.shape_list hx.elements, hlist, hx.seen hac]

end Scene

namespace Heap

variable {h h₁ h₂ : Heap Obj} {xs ys : List Hold} {i : HandleId} {a v w : Value Obj} {op : Operator}

/-! ## One of the two ways -/

/-- **What is added to an array in a variable** is seen behind what was there. -/
theorem Operands.append_joins {l : ListId} (ho : h.Operands xs i (.array l) v)
    (herror : v.isError = false) :
    Ends (operateInPlace .add i v) h
      (fun _ h' ↦ ∃ r, h'.valueOf? i = some r ∧ h.Joins h' l v r) fun _ _ ↦ True := by
  -- up to the last step nobody sees a change
  let c : Scene Obj := { Scene.ofHeap ho.sound (· = i) with unseen := True }
  have hstart : c.At [] [] h := .start (.refl _)
  refine (hstart.append (Scene.calm_before fun _ _ ↦ False.elim) ho.held rfl
    (fun _ _ ↦ False.elim) ho.right False.elim (fun _ ↦ ho.apart)
    ⟨rfl, herror, l, ho.left⟩).mono ?_ fun _ _ _ ↦ trivial
  rintro _ _ ⟨added, m, js, h', hx, rfl⟩
  exact ⟨.array m, hx.value, hx.joins trivial ho.grounded ho.left⟩

theorem operate_array {l : ListId} (hv : v.isError = false) :
    operate .add (.array l) v = (do extended l (← addition v)) := by
  cases v with
  | scalar s => cases s <;> first | rfl | cases hv
  | array m => rfl
  | struct names m => rfl

/-- Where nothing is added to an array, the value that the operator gives is stored. -/
theorem operateInPlace_plain (ha : h.valueOf? i = some a) (hobject : ∀ o, a ≠ .object o)
    (hplain : ¬ h.Appends op i v) :
    ∃ w, w.holds = [] ∧ operate op a v h = .ok w h ∧ operateInPlace op i v h = setValue i w h := by
  have hother (l : ListId) (hl : a = .array l) (hop : op = .add) (hb : v.isError = false) : False :=
    hplain ⟨hop, hb, l, hl ▸ ha⟩
  obtain ⟨w, hrun, hw⟩ := Scene.operate_plain h hother
  have hcond : ¬ ((decide (op = .add) && !v.isError) && a.kind == .array) = true := by
    intro hcond
    obtain ⟨hadd, hkind⟩ := Bool.and_eq_true_iff.1 hcond
    obtain ⟨hop, hb⟩ : op = .add ∧ v.isError = false := by simpa using hadd
    cases a with
    | array l => exact hother l rfl hop hb
    | struct names l => cases hkind
    | scalar s => cases s <;> first | exact hobject _ rfl | cases hkind
  have hread : read i h = .ok a h := look_eq ha
  refine ⟨w, hw, hrun, (bind_of_ok hread).trans ?_⟩
  rw [if_neg hcond]
  exact (bind_of_ok hread).trans (bind_of_ok hrun)

/-! ## Both ways, one after the other -/

omit [HostObject Obj] in
theorem Adds.addends (hadds : h.Adds h₁) (hs : h.Sound xs) (hs₁ : h₁.Sound ys)
    (hv : ∀ y ∈ v.holds, (h.content? y).isSome) (depth : Nat) :
    Heap.addends depth h₁ v = Heap.addends depth h v := by
  have houtline := hadds.outline hs hs₁ hv
  cases v with
  | array m => exact Datum.array.inj (houtline (depth + 1))
  | scalar s => rw [addends_of_ne (by simp), addends_of_ne (by simp), houtline]
  | struct names m => rw [addends_of_ne (by simp), addends_of_ne (by simp), houtline]

omit [HostObject Obj] in
/-- A sum that was computed, and an array to which the same was added then, are seen as the same. -/
theorem Joins.outline {l : ListId} {r : Value Obj} (hw : h.Joins h₁ l v w) (hr : h₁.Joins h₂ l v r)
    (hadds : h.Adds h₁) (hs : h.Sound xs) (hs₁ : h₁.Sound ys)
    (hl : (h.content? (.list l)).isSome) (hv : ∀ y ∈ v.holds, (h.content? y).isSome)
    (depth : Nat) : Heap.outline depth h₂ r = Heap.outline depth h₁ w := by
  obtain ⟨m, rfl, hm⟩ := hw
  obtain ⟨k, rfl, hk⟩ := hr
  cases depth with
  | zero => rfl
  | succ depth =>
    have hold : Heap.shape depth h₁ (.list l) = Heap.shape depth h (.list l) := by
      refine Datum.array.inj (hadds.outline (v := .array l) hs hs₁ (fun y hy ↦ ?_) (depth + 1))
      rwa [List.mem_singleton.1 hy]
    rw [outline_array, outline_array, hm, hk, hold, hadds.addends hs hs₁ hv]

/-- They are operands again after more was made. -/
theorem Operands.adds (ho : h.Operands xs i a v) (hs₁ : h₁.Sound (ys ++ xs)) (hadds : h.Adds h₁)
    (hends : ¬ h₁.Endless) : h₁.Operands (ys ++ xs) i a v where
  sound := hs₁
  grounded := hends
  held := List.mem_append_right _ ho.held
  left := hadds.valueOf? ho.sound ho.left
  right y hy := by
    rcases ho.right y hy with hmem | ⟨b, hb, hmem⟩
    · exact .inl (List.mem_append_right _ hmem)
    · obtain ⟨k, hk, hyk⟩ := (mem_holdsOf y).1 hmem
      exact .inr ⟨b, List.mem_append_right _ hb,
        (mem_holdsOf y).2 ⟨k, hadds.content ho.sound hk, hyk⟩⟩
  apart y hy hreach := by
    obtain ⟨k, hk⟩ := Option.isSome_iff_exists.1 (ho.isSome.2 y hy)
    exact ho.apart y hy (hadds.quiet.reaches ho.sound (born_of_content? ho.sound.tidy hk) hreach)

/-- An operator gives a value and is applied to the variable then, unless a pool has no block left.
Nothing else that is seen from outside changes. -/
theorem Operands.runs (ho : h.Operands xs i a v)
    (hplenty : ¬ Exhausts (do let _ ← operate op a v; operateInPlace op i v) h) :
    ∃ w h₁ h₂, operate op a v h = .ok w h₁ ∧ operateInPlace op i v h₁ = .ok () h₂ ∧ h.Adds h₁ ∧
      (Scene.ofHeap ho.sound (· = i)).At [] w.holds h₁ ∧
      (Scene.ofHeap ho.sound (· = i)).At [] w.holds h₂ := by
  have hstart := Scene.at_ofHeap ho.sound (· = i)
  have hcalm : (Scene.ofHeap ho.sound (· = i)).Calm h := Scene.calm_before fun _ _ ↦ False.elim
  obtain ⟨w, h₁, hrun₁, ha₁, hadds, -⟩ := Scene.runs_of_faults
    (hstart.operate (fun y hy ↦ ho.sound.held y (ho.isSome.1 y hy)) ho.given False.elim)
    ho.grounded trivial fun he ↦ hplenty he.bind
  rw [List.append_nil] at ha₁
  have ho₁ := ho.adds ha₁.sound hadds (ha₁.acyclic ho.grounded)
  have hplaced : (Scene.ofHeap ho.sound (· = i)).Leads (operateInPlace op i v) h₁ _ _ :=
    ha₁.operateInPlace (hcalm.adds hadds fun _ _ ↦ False.elim) ho.held rfl (fun _ _ ↦ False.elim)
      id (ho.given.mono fun _ hy ↦ absurd hy List.not_mem_nil) False.elim (fun _ ↦ ho₁.apart)
      fun _ _ ↦ id
  obtain ⟨_, h₂, hrun₂, ha₂⟩ := Scene.runs_of_faults (hplaced fun hu ↦ hu.elim) ho.grounded trivial
    fun he ↦ hplenty (Exhausts.after (f := fun _ ↦ operateInPlace op i v) he hrun₁)
  exact ⟨w, h₁, h₂, hrun₁, hrun₂, hadds, ha₁, ha₂⟩

/-- The right operand leads to nothing that is changed. -/
theorem Operands.keeps (ho : h.Operands xs i a v) {made : List HandleId}
    (ha₂ : (Scene.ofHeap ho.sound (· = i)).At made ys h₂) : h.Keeps h₂ v.holds := by
  refine ha₂.keeps fun y hy ↦ ?_
  obtain ⟨z, hz, hzy, hnot⟩ := Scene.Clears.seenPast_of_given (fun _ ↦ ho.apart)
    (Scene.at_ofHeap ho.sound (· = i)) ho.given ho.grounded y hy
  exact ⟨z, .ofHeap ho.sound hz hnot, hzy⟩

/-- **The variable shows what the operator gave.** -/
theorem Operands.shows (ho : h.Operands xs i a v) (hobject : ∀ o, a ≠ .object o)
    (hrun₁ : operate op a v h = .ok w h₁) (hrun₂ : operateInPlace op i v h₁ = .ok () h₂)
    (hadds : h.Adds h₁) (hs₁ : h₁.Sound (w.holds ++ xs)) (hends₁ : ¬ h₁.Endless) :
    ∃ r, h₂.valueOf? i = some r ∧ (∀ depth, Heap.outline depth h₂ r = Heap.outline depth h₁ w) ∧
      (h.Appends op i v → ∀ l, a = .array l → h.Joins h₁ l v w) := by
  have hstart := Scene.at_ofHeap ho.sound (· = i)
  by_cases happends : h.Appends op i v
  · obtain ⟨rfl, herror, l, hl⟩ := happends
    obtain rfl := Option.some.inj (ho.left.symm.trans hl)
    have hlist := ho.isSome.1 _ (List.mem_singleton_self _)
    rw [operate_array herror] at hrun₁
    have hw := ((hstart.joined (ho.sound.held _ hlist) ho.given False.elim).get hrun₁).2
    obtain ⟨r, hr, hjoins⟩ := ((ho.adds hs₁ hadds hends₁).append_joins herror).get hrun₂
    refine ⟨r, hr, hw.outline hjoins hadds ho.sound hs₁ hlist ho.isSome.2, ?_⟩
    rintro - _ ⟨⟩
    exact hw
  · obtain ⟨w', hholds, hrun, hset⟩ := operateInPlace_plain ho.left hobject happends
    obtain ⟨rfl, rfl⟩ : w' = w ∧ h = h₁ := by
      cases hrun.symm.trans hrun₁
      exact ⟨rfl, rfl⟩
    have hstart' : (Scene.ofHeap ho.sound (· = i)).At [] (w'.holds ++ []) h := by
      rwa [hholds]
    have hshows := (hstart'.setValue_shows False.elim ho.held).get (hset.symm.trans hrun₂)
    refine ⟨w', hshows.1, outline_of_list fun l hl ↦ ?_, fun hf ↦ (happends hf).elim⟩
    cases hholds.symm.trans (holds_of_list? hl)

omit [HostObject Obj] in
/-- The sum of two arrays is written out as the elements of both. -/
theorem Joins.datum {l m : ListId} (hw : h.Joins h₁ l (.array m) w) (hs : h.Sound xs)
    (hs₁ : h₁.Sound ys) (hends : ¬ h.Endless) (hends₁ : ¬ h₁.Endless)
    (hl : (h.content? (.list l)).isSome) (hm : (h.content? (.list m)).isSome)
    (hthere : ∀ y ∈ w.holds, (h₁.content? y).isSome) :
    ∃ ds es, h.datum? (.array l) = some (.array ds) ∧ h.datum? (.array m) = some (.array es) ∧
      h₁.datum? w = some (.array (ds ++ es)) := by
  obtain ⟨k, rfl, hk⟩ := hw
  obtain ⟨d, hd, hdl⟩ := hs.exists_datum hends (v := .array l) (by simpa [Value.holds] using hl)
  obtain ⟨e, he, hem⟩ := hs.exists_datum hends (v := .array m) (by simpa [Value.holds] using hm)
  obtain ⟨f, hf, hfk⟩ := hs₁.exists_datum hends₁ hthere
  let depth := h.depth + h₁.depth
  refine ⟨shape depth h (.list l), shape depth h (.list m), ?_, ?_, ?_⟩
  · rw [hd, ← hdl (depth + 1) (by omega), outline_array]
  · rw [he, ← hem (depth + 1) (by omega), outline_array]
  · rw [hf, ← hfk (depth + 1) (by omega), outline_array, hk]
    rfl

/-- **An operator in place leaves what the operator gives.**  The operator is computed for the value
of a variable and another value, and then applied to the variable.  If there are blocks enough for
both, the variable has in the end the contents of the value that was computed, down to the last
element, and the other value has the contents that it had.  Two arrays give the elements of both,
also when they are the same, and an error takes the place of an array. -/
theorem operateInPlace_agrees (ho : h.Operands xs i a v) (hobject : ∀ o, a ≠ .object o)
    (hplenty : ¬ Exhausts (do let _ ← operate op a v; operateInPlace op i v) h) :
    ∃ w h₁ h₂ d e, operate op a v h = .ok w h₁ ∧ operateInPlace op i v h₁ = .ok () h₂ ∧
      h₁.datum? w = some d ∧ h₂.contents? i = some d ∧
      h.datum? v = some e ∧ h₂.datum? v = some e ∧
      (∀ l m, op = .add → a = .array l → v = .array m →
        ∃ ds es, h.datum? a = some (.array ds) ∧ e = .array es ∧ d = .array (ds ++ es)) ∧
      ∀ l text, a = .array l → v = .error text → d = .scalar (.error text) := by
  obtain ⟨w, h₁, h₂, hrun₁, hrun₂, hadds, ha₁, ha₂⟩ := ho.runs hplenty
  have hends₁ := ha₁.acyclic ho.grounded
  have hends₂ := ha₂.acyclic ho.grounded
  obtain ⟨r, hr, houtline, hjoins⟩ := ho.shows hobject hrun₁ hrun₂ hadds ha₁.sound hends₁
  obtain ⟨b, -, hb⟩ := Option.bind_eq_some_iff.1 hr
  have hw (y : Hold) (hy : y ∈ w.holds) : (h₁.content? y).isSome :=
    ha₁.isSome_of_mem (List.mem_append_left _ hy)
  have hv₂ := ha₂.isSome_of_given (ho.given.mono fun _ hy ↦ absurd hy List.not_mem_nil)
  obtain ⟨d, hd⟩ := Option.isSome_iff_exists.1 (ha₁.sound.datum?_isSome hends₁ hw)
  obtain ⟨e, he⟩ := Option.isSome_iff_exists.1 (ho.sound.datum?_isSome ho.grounded ho.isSome.2)
  refine ⟨w, h₁, h₂, d, e, hrun₁, hrun₂, hd, ?_, he, ?_, ?_, ?_⟩
  · rw [contents?, hr, ← hd]
    exact ha₁.sound.datum?_congr ha₂.sound hends₁ hends₂ hw (ha₂.sound.isSome_of_value hb) houtline
  · rw [← he]
    exact ho.sound.datum?_congr ha₂.sound ho.grounded hends₂ ho.isSome.2 hv₂
      (ho.keeps ha₂).outline
  · rintro l m rfl rfl rfl
    have hsum := hjoins ⟨rfl, rfl, l, ho.left⟩ l rfl
    obtain ⟨ds, es, hds, hes, hsum⟩ := hsum.datum ho.sound ha₁.sound ho.grounded hends₁
      (ho.isSome.1 _ (List.mem_singleton_self _)) (ho.isSome.2 _ (List.mem_singleton_self _)) hw
    exact ⟨ds, es, hds, Option.some.inj (he.symm.trans hes), Option.some.inj (hd.symm.trans hsum)⟩
  · rintro l text rfl rfl
    cases hrun₁
    cases hd
    rfl

end Heap

namespace Session

/-- An array in a variable, and a snapshot of the variable. -/
def arrayAndSnapshot : Session SampleObject :=
  ((start ⟨false, ⟨4, none⟩⟩).run
    [.bind "x" (.literal (.array [.scalar (.integer 1), .scalar (.integer 2)])),
      .snapshot "x" "before"]).2

/-- How far the cells of that session are from the bottom. -/
def snapshotRank : Hold → Nat
  | .block b => if b.pool = .array then 3 else 0
  | .handle i => if i = ⟨2⟩ then 4 else 1
  | .list _ => 2

/-- The array is added to itself: the variable has its elements twice, and the snapshot has them
once. -/
theorem operateInPlace_agrees_snapshot :
    ∃ w h₁ h₂, Heap.operate .add (.array ⟨0⟩) (.array ⟨0⟩) arrayAndSnapshot.heap = .ok w h₁ ∧
      Heap.operateInPlace .add ⟨2⟩ (.array ⟨0⟩) h₁ = .ok () h₂ ∧
      h₂.contents? ⟨2⟩ = some (.array [.scalar (.integer 1), .scalar (.integer 2),
        .scalar (.integer 1), .scalar (.integer 2)]) ∧
      h₂.datum? (.array ⟨0⟩) = some (.array [.scalar (.integer 1), .scalar (.integer 2)]) := by
  have hs : arrayAndSnapshot.Books := (books_start _).run _
  have hends : ¬ arrayAndSnapshot.heap.Endless := by
    refine Heap.not_endless_of_rank snapshotRank ?_
    decide +kernel
  have hvalue : arrayAndSnapshot.heap.datum? (.array ⟨0⟩) =
      some (.array [.scalar (.integer 1), .scalar (.integer 2)]) := by
    cbv
  have ho : arrayAndSnapshot.heap.Operands arrayAndSnapshot.holds ⟨2⟩ (.array ⟨0⟩) (.array ⟨0⟩) :=
    .ofSnapshot (b := ⟨.array, ⟨0, 0⟩⟩) hs hends (by decide +kernel) (by decide +kernel)
      (by cbv) (by cbv)
  have hplenty : ¬ Exhausts (do
      let _ ← Heap.operate .add (.array ⟨0⟩) (.array ⟨0⟩)
      Heap.operateInPlace .add ⟨2⟩ (.array ⟨0⟩)) arrayAndSnapshot.heap := by
    decide +kernel
  obtain ⟨w, h₁, h₂, d, e, hrun₁, hrun₂, hd, hcontents, he, hkept, harrays, -⟩ :=
    Heap.operateInPlace_agrees ho (fun o ↦ by simp) hplenty
  obtain ⟨ds, es, hds, rfl, rfl⟩ := harrays _ _ rfl rfl rfl
  cases hvalue.symm.trans hds
  cases hvalue.symm.trans he
  exact ⟨w, h₁, h₂, hrun₁, hrun₂, hcontents, hkept⟩

end Session
end ScriptHeap
