import ScriptHeap.CommandLine
import ScriptHeap.Proofs.Session.Copies

/-!
# The block of variables without a value

Variables without a value share one block, which the heap makes on first use and then keeps.  They
do so as long as no step makes the block of such a variable the variable's own: that allocates a
block which is not the shared one, before anything is known of what is to be done with it.

## What is here

* `Heap.OneBlank.inUse_le` — at most one block of the pool for blocks without a value is in use.
* `Session.Books.oneBlank_step`, `Session.Books.oneBlank_run` — the steps that keep it so.
* `Session.valued_of_detaches_eq_false`, `Session.valued_addMember` — steps that are of this kind.
* `Session.blank_shared` — the variables without a value after every run of such steps.
* `Session.blank_split` — two variables without a value that share no block: a member was to be
  added to one of them.
-/

set_option autoImplicit false
namespace ScriptHeap

variable {Obj : Type}

namespace Heap

theorem oneBlank_empty (config : HeapConfig) : (empty config : Heap Obj).OneBlank := by
  intro b v hv
  have hnone : (empty config : Heap Obj).content? (.block b) = none :=
    content?_eq_none (cell?_empty config _)
  rw [content?_block.2 hv] at hnone
  cases hnone

variable {h : Heap Obj} {xs : List Hold}

theorem OneBlank.blockOf?_eq (hone : h.OneBlank) {i : HandleId}
    (hi : h.valueOf? i = some .uninit) : h.blockOf? i = h.blank := by
  obtain ⟨b, hb, hv⟩ := Option.bind_eq_some_iff.1 hi
  rw [hb, hone b _ hv (.inl rfl)]

/-- At most one block of the pool for blocks without a value is in use. -/
theorem OneBlank.inUse_le (hone : h.OneBlank) (hs : h.Sound xs) :
    (h.pools.get .uninit).inUse ≤ 1 := by
  have hblank (x : Pool.Pointer) (hx : x ∈ (h.pools.get .uninit).pointers) :
      h.blank = some ⟨.uninit, x⟩ := by
    obtain ⟨⟨n, v⟩, hv⟩ := Option.isSome_iff_exists.1 (Pool.mem_pointers.1 hx)
    have hvalue : h.valueAt? ⟨.uninit, x⟩ = some v := by
      rw [valueAt?, find?, hv]
      rfl
    exact hone _ v hvalue (.inr rfl)
  refine (hs.tidy .uninit).inUse_le_one fun x hx y hy ↦ ?_
  cases (hblank x hx).symm.trans (hblank y hy)
  rfl

end Heap

namespace Session

variable [HostObject Obj] {s : Session Obj} {x : Step Obj}

omit [HostObject Obj] in
/-- Most steps look first at what the variable holds. -/
theorem valued_of_detaches_eq_false (hx : x.detaches = false) : s.Valued x where
  finds hd := by
    rw [hx] at hd
    cases hd
  leaves r v he := by
    subst he
    cases hx

omit [HostObject Obj] in
/-- `.+` does not: the variable must have a value. -/
theorem valued_addMember {r name : String} {into : Option String}
    (hr : s.valueIn? r ≠ some .uninit) : s.Valued (.addMember r name into) where
  finds _ i hi hv := by
    have htarget : (s.references.get? r).join = some i := hi
    refine hr ?_
    rw [valueIn?, htarget, Option.bind_some, hv]
  leaves _ _ he := by cases he

/-- A step that finds a value where it makes a block its variable's own leaves a single block
without a value. -/
theorem Books.oneBlank_step (hs : s.Books) (hkind : ∀ o : Obj, HostObject.kind o ≠ .uninit)
    (hone : s.heap.OneBlank) (hx : s.Valued x) : (s.step x).2.heap.OneBlank :=
  (Scene.settled_step hs x).done.single ⟨hone, hx, hkind⟩

theorem Books.oneBlank_run (hs : s.Books) (hkind : ∀ o : Obj, HostObject.kind o ≠ .uninit)
    (hone : s.heap.OneBlank) {xs : List (Step Obj)}
    (hxs : EveryStep (fun s x _ ↦ s.Valued x) s xs) : (s.run xs).2.heap.OneBlank := by
  induction xs generalizing s with
  | nil => exact hone
  | cons x xs ih =>
    obtain ⟨hx, hxs⟩ := hxs
    exact ih (hs.step x) (hs.oneBlank_step hkind hone hx) hxs

/-- **Variables without a value share one block.**  No object says of itself that it is no value,
and no step of a run makes the block of a variable without a value the variable's own, or puts no
value into a block outright.  Then every variable without a value has the block that the heap keeps
for them, and no other block without a value is in use. -/
theorem blank_shared (hkind : ∀ o : Obj, HostObject.kind o ≠ .uninit) (config : HeapConfig)
    {xs : List (Step Obj)} (hxs : EveryStep (fun s x _ ↦ s.Valued x) (start config) xs) :
    let h := ((start config).run xs).2.heap
    (∀ b, h.valueAt? b = some .uninit → h.blank = some b) ∧
      (∀ i, h.valueOf? i = some .uninit → h.blockOf? i = h.blank) ∧
      (∀ i j, h.valueOf? i = some .uninit → h.valueOf? j = some .uninit →
        h.blockOf? i = h.blockOf? j) ∧
      (h.pools.get .uninit).inUse ≤ 1 := by
  have hbooks : (start config : Session Obj).Books := books_start config
  have hone := hbooks.oneBlank_run hkind (Heap.oneBlank_empty config) hxs
  refine ⟨fun b hb ↦ hone b _ hb (.inl rfl), fun i hi ↦ hone.blockOf?_eq hi, fun i j hi hj ↦ ?_,
    hone.inUse_le (hbooks.run xs)⟩
  rw [hone.blockOf?_eq hi, hone.blockOf?_eq hj]

/-- A struct gets a member without a value, and a variable loses its value. -/
def memberAdded : List (Step Empty) :=
  [.bind "s" (.literal (.struct [("x", .scalar (.integer 1))] [])), .addMember "s" "y" (some "m"),
    .bind "a" (.literal (.scalar (.integer 2))), .assign "a" (.literal (.scalar .uninit))]

/-- The member and the variable have the same block. -/
theorem blank_shared_memberAdded :
    let h := ((start ⟨false, ⟨4, none⟩⟩).run memberAdded).2.heap
    h.valueOf? ⟨2⟩ = some .uninit ∧ h.valueOf? ⟨3⟩ = some .uninit ∧
      h.blockOf? ⟨2⟩ = h.blockOf? ⟨3⟩ ∧ (h.pools.get .uninit).inUse ≤ 1 := by
  have hxs : EveryStep (fun s x _ ↦ s.Valued x) (start ⟨false, ⟨4, none⟩⟩) memberAdded := by
    -- the variable has the struct
    have hvalue : ((start ⟨false, ⟨4, none⟩⟩).step
        (.bind "s" (.literal (.struct [("x", .scalar (.integer 1))] []))) :
          _ × Session Empty).2.valueIn? "s" = some (.struct ["x"] ⟨0⟩) := by
      cbv
    refine ⟨valued_of_detaches_eq_false rfl, valued_addMember fun hnone ↦ ?_,
      valued_of_detaches_eq_false rfl, valued_of_detaches_eq_false rfl, trivial⟩
    cases hvalue.symm.trans hnone
  have hshared := blank_shared (fun o ↦ o.elim) _ hxs
  refine ⟨by cbv, by cbv, hshared.2.2.1 _ _ (by cbv) (by cbv), hshared.2.2.2⟩

/-- **The block is not always shared.**  A member is to be added to a variable without a value.
There is no struct to add it to, and the step answers with an error; but before, it has given the
variable a block of its own.  Another variable without a value keeps the shared one. -/
theorem blank_split :
    let s := ((start ⟨false, ⟨4, none⟩⟩).run
      [.uninit "a", .uninit "b", .addMember "a" "x" none] : _ × Session Empty).2
    s.Reachable ∧ s.valueIn? "a" = some .uninit ∧ s.valueIn? "b" = some .uninit ∧
      s.references.get? "a" = some (some ⟨0⟩) ∧ s.references.get? "b" = some (some ⟨1⟩) ∧
      s.heap.blockOf? ⟨0⟩ ≠ s.heap.blockOf? ⟨1⟩ ∧ (s.heap.pools.get .uninit).inUse = 2 := by
  exact ⟨⟨_, _, rfl⟩, by cbv, by cbv, by cbv, by cbv, by decide +kernel, by cbv⟩

end Session
end ScriptHeap
