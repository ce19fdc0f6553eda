import ScriptHeap.Proofs.Heap.Equality
import ScriptHeap.Proofs.Session.Accounts
import ScriptHeap.Proofs.Session.Copies
import ScriptHeap.Proofs.Session.Wellformed

/-!
# Containers that contain themselves

A copy of a container shares the elements, so when it is stored in one of them the container comes
to contain itself.  That is the only way: as long as no step puts into a variable what leads back to
that variable, all that a session has goes down to scalars, can be written out and compared, and is
given back when the registers are emptied.

## What is here

* `Heap.Circular` — a handle is reached from its own value.
* `Heap.Bottoms` — a value can be followed down to scalars.
* `Session.assign_circular_iff` — assigning closes a circle exactly when the value leads back.
* `Session.run_bottoms` — steps that store nothing in itself close no circle, and what follows.
-/

set_option autoImplicit false
namespace ScriptHeap

variable {Obj : Type}

namespace Heap

variable {h : Heap Obj} {xs : List Hold}

/-! ## Handles in circles -/

/-- A handle is reached from its own value. -/
def Circular (h : Heap Obj) : Prop :=
  ∃ i v, h.valueOf? i = some v ∧ ∃ y ∈ v.holds, h.Reaches y (.handle i)

/-- A handle whose block leads back to it is reached from its value. -/
theorem circular_of_block {i : HandleId} {b : BlockId} (hi : h.blockOf? i = some b)
    (hreach : h.Reaches (.block b) (.handle i)) : h.Circular := by
  obtain he | ⟨y, hy, hyi⟩ := hreach.cases_head
  · cases he
  obtain ⟨k, hk, hmem⟩ := (mem_holdsOf y).1 hy
  obtain ⟨v, rfl, hv⟩ := exists_value_of_content? hk
  refine ⟨i, v, ?_, y, hmem, hyi⟩
  rw [valueOf?, hi, Option.bind_some, hv]

/-- What is held by a list is a handle that is there. -/
theorem Sound.exists_block (hs : h.Sound xs) {l : ListId} {y : Hold}
    (hy : y ∈ h.holdsOf (.list l)) :
    ∃ e b, y = .handle e ∧ h.blockOf? e = some b ∧ h.holdsOf y = [.block b] := by
  obtain ⟨k, hk, hmem⟩ := (mem_holdsOf y).1 hy
  obtain ⟨is, rfl, -⟩ := exists_elements_of_content? hk
  obtain ⟨e, -, rfl⟩ := List.mem_map.1 hmem
  obtain ⟨b, hb⟩ := exists_blockOf?_of_isSome (hs.isSome_of_mem_holdsOf hy)
  exact ⟨e, b, rfl, hb, holdsOf_handle hb⟩

/-- Every circle goes through a handle. -/
theorem Sound.endless_iff (hs : h.Sound xs) : h.Endless ↔ h.Circular := by
  constructor
  · rintro ⟨x, y, hy, hreach⟩
    -- an element in the circle, whose block leads on to where the element is held
    have helement {l : ListId} {z : Hold} (hz : z ∈ h.holdsOf (.list l))
        (hback : h.Reaches z (.list l)) : h.Circular := by
      obtain ⟨e, b, rfl, hb, hholds⟩ := hs.exists_block hz
      obtain he | ⟨w, hw, hwl⟩ := hback.cases_head
      · cases he
      · rw [hholds, List.mem_singleton] at hw
        subst hw
        exact circular_of_block hb (hwl.next hz)
    obtain ⟨k, hk, hmem⟩ := (mem_holdsOf y).1 hy
    rcases content?_sort hk with ⟨b, v, rfl, rfl, hv⟩ | ⟨i, b, rfl, rfl, hi⟩ | ⟨l, is, rfl, -, -⟩
    · have hlist : ∃ l, y = .list l := by
        obtain hnone | ⟨l, hl⟩ := v.holds_cases
        · rw [Content.holds, hnone] at hmem
          cases hmem
        · rw [Content.holds, hl, List.mem_singleton] at hmem
          exact ⟨l, hmem⟩
      obtain ⟨l, rfl⟩ := hlist
      obtain he | ⟨z, hz, hzb⟩ := hreach.cases_head
      · cases he
      · exact helement hz (hzb.next hy)
    · rw [List.mem_singleton.1 hmem] at hreach
      exact circular_of_block hi hreach
    · exact helement hy hreach
  · rintro ⟨i, v, hv, y, hy, hreach⟩
    obtain ⟨b, hyb, hib⟩ := reaches_of_valueOf? hv hy
    exact ⟨.block b, y, hyb, hreach.trans hib⟩

/-! ## Down to scalars -/

variable [HostObject Obj]

/-- A value can be followed down to scalars: it can be written out, and comparing it with any other
comes to an end, so a look that goes deeper finds the same. -/
structure Bottoms (h : Heap Obj) (v : Value Obj) : Prop where
  written : (h.datum? v).isSome
  compared : ∀ w depth, h.depth ≤ depth → equalWithin depth h v w = h.equal v w

/-- **Without a circle** a value that is there goes down to scalars. -/
theorem Sound.bottoms (hs : h.Sound xs) (hends : ¬ h.Circular) {v : Value Obj}
    (hv : ∀ y ∈ v.holds, (h.content? y).isSome) : h.Bottoms v := by
  have hsome := hs.datum?_isSome (fun he ↦ hends (hs.endless_iff.1 he)) hv
  exact ⟨hsome, fun w depth hle ↦ equalWithin_of_isSome hsome hle w⟩

end Heap

/-! ## A value assigned -/

namespace Scene

variable [HostObject Obj] {c : Scene Obj} {made : List HandleId} {xs ys : List Hold} {h : Heap Obj}
  {i : HandleId}
  {v : Value Obj} {y : Hold}

/-- A write to a handle closes a circle when the value leads back to the handle. -/
theorem At.setValue_endless (ha : c.At made (v.holds ++ ys) h) (hac : c.acyclic)
    (hm : c.regular → h.Matched v) (hheld : Hold.handle i ∈ ys ++ c.outside) (hy : y ∈ v.holds)
    (hreach : h.Reaches y (.handle i)) :
    Ends (Heap.setValue i v) h
      (fun _ h' ↦ h'.Endless ∧ h'.Sound (handleHolds made ++ (ys ++ c.outside)))
      fun _ _ ↦ True := by
  have hheld' : Hold.handle i ∈ (v.holds ++ ys) ++ c.outside := by
    rw [List.append_assoc]
    exact List.mem_append_right _ hheld
  obtain ⟨b, old, hi, hb, -⟩ := ha.exists_value (ha.isSome_of_mem hheld')
  have hsome : (h.content? (.block b)).isSome :=
    Heap.isSome_of_valueAt? hb
  rw [Heap.setValue]
  refine Ends.after (Heap.look_eq hi) (Ends.after (Heap.look_eq hb) ?_)
  refine Ends.after (Heap.isSole_eq b h) ?_
  split
  · rename_i hcond
    obtain ⟨hsole, -⟩ := Bool.and_eq_true_iff.1 hcond
    have hcount := (Heap.holders?_eq_some_iff hsome).1 (beq_iff_eq.1 hsole)
    have hcell : h.cell? (.block b) = some (1, .value old) := by
      rw [At.exists_cell? (Heap.content?_block.2 hb), hcount]
    have hcircle : (h.withValue b v).Endless :=
      (Heap.changes_withValue hcell v).endless (ha.acyclic hac) hy
        (hreach.next (Heap.mem_holdsOf_of_blockOf? hi))
    have hr := Heap.released_release (ha.sound_append.withValue hcell (ha.ne_blank hi hcount))
    exact Ends.after rfl (Ends.of_ok rfl ⟨hr.endless hcircle, hr.sound⟩)
  · refine Ends.bind ((ha.place hm).mono (fun _ _ hh ↦ hh) fun _ _ _ ↦ trivial) ?_
    rintro b' h₁ ⟨ha₁, hg₁, hb'⟩
    have hi₁ := hg₁.blockOf? hi
    have hcell := At.exists_cell? (Heap.content?_handle.2 hi₁)
    have hmem : y ∈ h₁.holdsOf (.block b') := by
      rwa [Heap.holdsOf_block hb']
    have hcircle : (h₁.withBlock i b').Endless :=
      (Heap.changes_withBlock hcell b').endless (ha₁.acyclic hac) (List.mem_singleton_self _)
        (((Heap.Reaches.refl h₁ _).next hmem).trans (hg₁.toAdds.reaches ha.sound hreach))
    have ha₁' : c.At made ([.block b'] ++ ys) h₁ := ha₁
    have hsound : (h₁.withBlock i b').Sound
        ([.block b] ++ (handleHolds made ++ (ys ++ c.outside))) :=
      ha₁'.sound_append.withBlock hcell
    have hr := Heap.released_release hsound
    exact Ends.of_ok (Heap.rebind_eq hi₁) ⟨hr.endless hcircle, hr.sound⟩

/-- The same for a copy of a value. -/
theorem At.assign_endless (ha : c.At made ys h) (hac : c.acyclic)
    (hv : ∀ y ∈ v.holds, (h.content? y).isSome) (hm : c.regular → h.Matched v)
    (hheld : Hold.handle i ∈ ys ++ c.outside) (hy : y ∈ v.holds)
    (hreach : h.Reaches y (.handle i)) :
    Ends (Heap.assign i v) h
      (fun _ h' ↦ h'.Endless ∧ h'.Sound (handleHolds made ++ (ys ++ c.outside)))
      fun _ _ ↦ True := by
  refine Ends.bind ((ha.copy hv).ends) ?_
  rintro w h₁ ⟨rfl, ha₁, hg₁⟩
  exact ha₁.setValue_endless hac (fun hr ↦ hg₁.matched (hm hr)) hheld hy
    (hg₁.toAdds.reaches ha.sound hreach)

/-- The scene of a session without circles, before anything is written. -/
def ofAcyclic {s : Session Obj} (hs : s.Books) : Scene Obj :=
  { ofReceiving hs with regular := False, regular_before := False.elim, strays := True }

variable {s : Session Obj}

theorem begins_ofAcyclic (hs : s.Books) : (ofAcyclic hs).Begins [] [] s where
  stands := ⟨At.start (.refl _), .refl _, False.elim⟩
  adds := .refl _
  born _ hy := Heap.Sound.born_of_mem hs hy
  sole _ _ ht := ht.elim

end Scene

namespace Session

variable {s : Session Obj} {x : Operand Obj} {v : Value Obj} {zs : List Hold} {h : Heap Obj}
  {i : HandleId} [HostObject Obj]

omit [HostObject Obj] in
/-- What an operand leads to, its value leads to. -/
theorem Books.value_leads (hs : s.Books) (hoffers : s.Offers x v) (hadds : s.heap.Adds h) {z : Hold}
    (hz : z ∈ s.brings x) (hreach : s.heap.Reaches z (.handle i)) :
    ∃ y ∈ v.holds, h.Reaches y (.handle i) := by
  cases x with
  | literal d => exact absurd hz List.not_mem_nil
  | reference name =>
    rw [brings] at hz
    cases hw : (s.references.get? name).join.bind s.heap.valueOf? with
    | none =>
      rw [hw] at hz
      exact absurd hz List.not_mem_nil
    | some w =>
      obtain rfl := hoffers.eq_of_offered hw
      rw [hw] at hz
      exact ⟨z, hz, hadds.reaches hs hreach⟩
  | register name =>
    rw [brings] at hz
    cases hx : s.values.get? name with
    | none =>
      rw [hx] at hz
      exact absurd hz List.not_mem_nil
    | some w =>
      rw [hx] at hz
      cases w with
      | own w =>
        obtain rfl := hoffers.eq_of_offered (w := w) (by rw [offered?, hx])
        exact ⟨z, hz, hadds.reaches hs hreach⟩
      | snapshot b =>
        obtain rfl := List.mem_singleton.1 hz
        obtain he | ⟨y, hy, hyi⟩ := hreach.cases_head
        · cases he
        obtain ⟨k, hk, hmem⟩ := (Heap.mem_holdsOf y).1 hy
        obtain ⟨w, rfl, hw⟩ := Heap.exists_value_of_content? hk
        obtain rfl := hoffers.eq_of_offered (w := w) (by rw [offered?, hx]; exact hw)
        exact ⟨y, hmem, hadds.reaches hs hyi⟩

/-- What leads back to a variable is assigned to it. -/
theorem Books.assign_endless (hs : s.Books) (hends : ¬ s.heap.Endless) {r : String}
    (hback : ¬ s.Apart (.assign r x)) :
    Ends (Session.apply (.assign r x)) s (fun _ t ↦ t.heap.Endless) fun _ _ ↦ True := by
  obtain ⟨i, htarget, z, hz, hreach⟩ : ∃ i, s.target? (.assign r x) = some i ∧
      ∃ z ∈ s.brought (.assign r x), s.heap.Reaches z (.handle i) := by
    simpa only [Apart, not_forall, not_not, exists_prop] using hback
  have hr : s.references.get? r = some (some i) := Option.join_eq_some_iff.1 htarget
  have hbegins := Scene.begins_ofAcyclic hs
  have hsuits : (Scene.ofAcyclic hs).Suits s x :=
    ⟨False.elim, fun _ _ _ ↦ trivial, fun _ _ _ _ _ ht ↦ ht.elim⟩
  refine Ends.bind ((hbegins.operandValue hsuits).mono (fun _ _ ht ↦ ht) fun _ _ _ ↦ trivial) ?_
  rintro ⟨w, zs⟩ _ ⟨h, rfl, ho, hoffers, -⟩
  obtain ⟨y, hy, hyi⟩ := hs.value_leads hoffers ho.adds hz hreach
  have hthere := (hbegins.withHeap ho.here ho.adds ho.sole).widen.stands.here.isSome_of_given ho.given
  have hheld : Hold.handle i ∈ (zs ++ []) ++ s.holds :=
    List.mem_append_right _ (mem_holds_of_reference hr)
  have hassign := ends_onHeap (s := { s with heap := h })
    (ho.here.assign_endless hends hthere False.elim hheld hy hyi)
  have hwrite : Ends (do onHeap (Heap.assign (← deref r) w); return (Answer.done : Answer Obj))
      { s with heap := h } (fun _ t ↦ t.heap.Endless ∧ t.heap.Sound (zs ++ s.holds))
      fun _ _ ↦ True := by
    refine Ends.after (deref_of_some hr) (Ends.bind (hassign.mono (fun _ _ ht ↦ ht)
      fun _ _ _ ↦ trivial) ?_)
    rintro _ _ ⟨h', rfl, hcircle, hsound⟩
    have hsound' : h'.Sound (([] : List Hold) ++ ((zs ++ []) ++ s.holds)) := hsound
    rw [List.append_nil, List.nil_append] at hsound'
    exact .pure ⟨hcircle, hsound'⟩
  refine Ends.bind (Ends.tryCatch hwrite fun _ _ _ ↦ Ends.after rfl (Ends.throw trivial)) ?_
  rintro _ t ⟨hcircle, hsound⟩
  exact Ends.after rfl (Ends.pure ((Heap.released_release hsound).endless hcircle))

/-! ## Steps and runs -/

/-- **A step that stores nothing in itself** closes no circle. -/
theorem Books.not_circular_step (hs : s.Books) (hends : ¬ s.heap.Circular) {x : Step Obj}
    (hx : s.Apart x) : ¬ (s.step x).2.heap.Circular := by
  rw [← hs.endless_iff] at hends
  rw [← (hs.step x).endless_iff]
  exact (Scene.settled_step hs x).done.acyclic ⟨hends, hx⟩

/-- Neither does a run of such steps. -/
theorem Books.not_circular_run (hs : s.Books) (hends : ¬ s.heap.Circular) {xs : List (Step Obj)}
    (hxs : EveryStep (fun s x _ ↦ s.Apart x) s xs) : ¬ (s.run xs).2.heap.Circular := by
  induction xs generalizing s with
  | nil => exact hends
  | cons x xs ih => exact ih (hs.step x) (hs.not_circular_step hends hxs.1) hxs.2

/-- To assign a value closes a circle exactly when the value leads to the variable. -/
theorem Books.assign_circular_iff (hs : s.Books) (hends : ¬ s.heap.Circular) {r : String}
    (hdone : (s.step (.assign r x)).1 = .done) :
    (s.step (.assign r x)).2.heap.Circular ↔ ¬ s.Apart (.assign r x) := by
  refine ⟨fun hcircle happart ↦ hs.not_circular_step hends happart hcircle, fun hback ↦ ?_⟩
  have hcircle := hs.assign_endless (fun he ↦ hends (hs.endless_iff.1 he)) hback
  obtain ⟨_, ht⟩ := exists_of_ends hcircle hdone
  exact (hs.step _).endless_iff.1 ht

/-- What a session without circles has goes down to scalars, and it is all given back when the
registers are emptied. -/
structure Grounded (s : Session Obj) : Prop where
  acyclic : ¬ s.heap.Circular
  bottoms : ∀ v, s.HasValue v → s.heap.Bottoms v
  returned : ∀ xs : List (Step Obj), (∀ x ∈ xs, x.drops = true) → (s.run xs).2.holds = [] →
    ∀ name, ((s.run xs).2.heap.pools.get name).inUse =
      if name = .uninit ∧ s.heap.blank.isSome then 1 else 0

theorem Books.grounded (hs : s.Books) (hends : ¬ s.heap.Circular) : s.Grounded where
  acyclic := hends
  bottoms _ hv := hs.bottoms hends (hs.isSome_of_hasValue hv)
  returned _ hxs hnone name :=
    hs.inUse_of_drops (fun he ↦ hends (hs.endless_iff.1 he)) hxs hnone name

/-- **Circles come from storing a container in itself** and from nothing else.  In a session that
steps have led to, without a circle, every run of steps none of which puts into a variable what
leads to that variable ends without one: all values go down to scalars, so they can be written out,
packed and compared, and all blocks are given back in the end.  For a plain assignment this is
exact: it closes a circle whenever it stores what leads to the variable. -/
theorem run_grounded (hs : s.Reachable) (hends : ¬ s.heap.Circular) :
    (∀ xs, EveryStep (fun s x _ ↦ s.Apart x) s xs → (s.run xs).2.Grounded) ∧
    (∀ r x, (s.step (.assign r x)).1 = .done →
      ((s.step (.assign r x)).2.heap.Circular ↔ ¬ s.Apart (.assign r x))) :=
  ⟨fun xs hxs ↦ (hs.books.run xs).grounded (hs.books.not_circular_run hends hxs),
    fun _ _ hdone ↦ hs.books.assign_circular_iff hends hdone⟩

/-- An array, and its element in a register of its own. -/
def arrayAndElement : Session SampleObject :=
  ((start ⟨false, ⟨4, none⟩⟩).run
    [.bind "h" (.literal (.array [.scalar (.integer 1)])),
      .subscript "h" (.literal (.scalar (.integer 1))) (some "e")]).2

/-- How far the cells of that session are from the bottom. -/
def elementRank : Hold → Nat
  | .block b => if b.pool = .array then 3 else 0
  | .handle i => if i = ⟨1⟩ then 4 else 1
  | .list _ => 2

/-- A number stored in the element leaves it without a circle, and the array stored there does not.
-/
theorem run_grounded_element :
    (arrayAndElement.run [.assign "e" (.literal (.scalar (.integer 5)))]).2.Grounded ∧
      (arrayAndElement.step (.assign "e" (.reference "h"))).2.heap.Circular := by
  have hs : arrayAndElement.Reachable := by
    unfold arrayAndElement
    exact ⟨_, _, rfl⟩
  have hends : ¬ arrayAndElement.heap.Circular := by
    rw [← hs.books.endless_iff]
    refine Heap.not_endless_of_rank elementRank ?_
    decide +kernel
  obtain ⟨hgrounded, hassign⟩ := run_grounded hs hends
  constructor
  · exact hgrounded _ ⟨fun _ _ y hy ↦ absurd hy List.not_mem_nil, trivial⟩
  · refine (hassign "e" (.reference "h") (by cbv)).2 fun happart ↦ ?_
    have htarget : arrayAndElement.target? (.assign "e" (.reference "h")) = some ⟨0⟩ := by
      decide +kernel
    have hlist : Hold.list ⟨0⟩ ∈ arrayAndElement.brought (.assign "e" (.reference "h")) := by
      decide +kernel
    have helement : Hold.handle ⟨0⟩ ∈ arrayAndElement.heap.holdsOf (.list ⟨0⟩) := by
      decide +kernel
    exact happart _ htarget _ hlist ((Heap.Reaches.refl _ _).next helement)

/-- An array that was stored in its own element. -/
def selfContaining : Session SampleObject :=
  ((start ⟨false, ⟨4, none⟩⟩).run
    [.bind "h" (.literal (.array [.scalar (.integer 1)])),
      .subscript "h" (.literal (.scalar (.integer 1))) (some "e"), .assign "e" (.reference "h")]).2

/-- The handle of the element is reached from its own value, nothing can be written out any more,
and a block stays in use when all registers are emptied. -/
theorem circular_selfContaining :
    selfContaining.Reachable ∧ selfContaining.heap.Circular ∧
      selfContaining.heap.contents? ⟨1⟩ = none ∧
      ((selfContaining.run [.dropAll]).2.heap.pools.get .array).inUse = 1 := by
  refine ⟨?_, ?_, by decide +kernel, by decide +kernel⟩
  · unfold selfContaining
    exact ⟨_, _, rfl⟩
  · refine ⟨⟨0⟩, .array ⟨0⟩, by cbv, .list ⟨0⟩, List.mem_singleton_self _, ?_⟩
    exact (Heap.Reaches.refl _ _).next (by decide +kernel)

end Session
end ScriptHeap
