import ScriptHeap.Files.Inspect
import ScriptHeap.Proofs.Heap.Bringing
import ScriptHeap.Proofs.Pool.Tenancy

/-!
# Pools without a cap

A pool without a cap always has a block to give: it grows when none is free.  Nothing that is done
to a heap gives its pools a cap, so what is brought into a heap without caps never fails for want of
a block.

## What is here

* `Heap.Uncapped` — no pool has a cap.
* `Ample` — an operation that then has blocks enough; with a rule for each way to put operations
  together.
* `additive_ample`, `ample_unpack` — data and packed values brought into the heap.
-/

set_option autoImplicit false
namespace ScriptHeap

variable {Obj α β : Type}

namespace Heap

variable {h h' : Heap Obj}

/-! ## Heaps -/

/-- No pool has a cap. -/
def Uncapped (h : Heap Obj) : Prop :=
  ∀ name, (h.pools.get name).limits.cap = none

theorem uncapped_empty {config : HeapConfig} (hcap : config.limits.cap = none) :
    (empty config : Heap Obj).Uncapped := by
  intro name
  cases name <;> exact hcap

theorem Uncapped.not_exhausted (hu : h.Uncapped) (name : PoolName) :
    (h.pools.get name).isExhausted = false := by
  have hgrowth : (h.pools.get name).growth ≠ 0 := by
    rw [Pool.growth, hu name]
    exact (Nat.lt_of_lt_of_le Nat.one_pos (Nat.le_max_left _ _)).ne'
  simp [Pool.isExhausted, hgrowth]

theorem Uncapped.of_limits (hu : h.Uncapped)
    (hsame : ∀ name, (h'.pools.get name).limits = (h.pools.get name).limits) : h'.Uncapped :=
  fun name ↦ (congrArg PoolLimits.cap (hsame name)).trans (hu name)

theorem Uncapped.release (hu : h.Uncapped) (xs : List Hold) : (h.release xs).Uncapped :=
  hu.of_limits fun name ↦ (h.returns_release xs name).limits

theorem Uncapped.retainOne (hu : h.Uncapped) (x : Hold) : (h.retainOne x).Uncapped := by
  refine hu.of_limits fun name ↦ ?_
  cases x with
  | block b =>
    rw [Heap.retainOne, Pools.get_update]
    split
    · rename_i hname
      obtain ⟨_, heq, -⟩ := (h.pools.get b.pool).retain_eq b.pointer
      rw [hname, heq]
    · rfl
  | handle i => rfl
  | list l => rfl

theorem Uncapped.retain (hu : h.Uncapped) (xs : List Hold) : (h.retain xs).Uncapped := by
  induction xs generalizing h with
  | nil => exact hu
  | cons x xs ih => exact ih (hu.retainOne x)

theorem Uncapped.filled (hu : h.Uncapped) (name : PoolName) (v : Value Obj) :
    (h.filled name v).2.Uncapped := by
  refine hu.of_limits fun other ↦ ?_
  rw [Heap.filled, Pools.get_update]
  split
  · rename_i hother
    rw [hother, Pool.limits_fill (hu.not_exhausted name)]
  · rfl

theorem Uncapped.withValue (hu : h.Uncapped) (b : BlockId) (v : Value Obj) :
    (h.withValue b v).Uncapped := by
  refine hu.of_limits fun name ↦ ?_
  rw [Heap.withValue, Pools.get_update]
  split
  · rename_i hname
    rw [hname, Pool.write]
    split
    · rfl
    · rfl
  · rfl

end Heap

/-! ## Operations -/

/-- Where no pool has a cap, an operation does not end for want of a block, and no pool has a cap
after it. -/
def Ample (act : HeapM Obj α) : Prop :=
  ∀ h, h.Uncapped → Ends act h (fun _ t ↦ t.Uncapped) fun f t ↦
    t.Uncapped ∧ ∀ pool capacity, f ≠ .exhausted pool capacity

namespace Ample

variable {act : HeapM Obj α} {f : α → HeapM Obj β}

theorem not_exhausts {h : Heap Obj} (hact : Ample act) (hu : h.Uncapped) : ¬ Exhausts act h := by
  rintro ⟨pool, capacity, t, hrun⟩
  have hends := hact h hu
  rw [Ends, hrun] at hends
  exact hends.2 pool capacity rfl

theorem pure (a : α) : Ample (pure a : HeapM Obj α) :=
  fun _ hu ↦ .pure hu

/-- One operation after another, where the result of the first is known. -/
theorem bindKnown (hact : Ample act) (hf : ∀ h a t, act h = .ok a t → Ample (f a)) :
    Ample (act >>= f) :=
  fun h hu ↦ (hact h hu).known.bind fun a t ⟨ht, hrun⟩ ↦ hf h a t hrun t ht

theorem bind (hact : Ample act) (hf : ∀ a, Ample (f a)) : Ample (act >>= f) :=
  hact.bindKnown fun _ a _ _ ↦ hf a

theorem throw {fault : Fault} (hfault : ∀ pool capacity, fault ≠ .exhausted pool capacity) :
    Ample (throw fault : HeapM Obj α) :=
  fun _ hu ↦ .throw ⟨hu, hfault⟩

theorem tryCatch {g : Fault → HeapM Obj α} (hact : Ample act)
    (hg : ∀ fault, (∀ pool capacity, fault ≠ .exhausted pool capacity) → Ample (g fault)) :
    Ample (tryCatch act g) :=
  fun h hu ↦ (hact h hu).tryCatch fun fault t ⟨ht, hfault⟩ ↦ hg fault hfault t ht

/-- A change of the heap that gives no pool a cap. -/
theorem modifyGet {g : Heap Obj → α × Heap Obj}
    (hg : ∀ h : Heap Obj, h.Uncapped → (g h).2.Uncapped) :
    Ample (modifyGet g : HeapM Obj α) :=
  fun h hu ↦ .of_ok rfl (hg h hu)

theorem modify {g : Heap Obj → Heap Obj} (hg : ∀ h : Heap Obj, h.Uncapped → (g h).Uncapped) :
    Ample (modify g : HeapM Obj Unit) :=
  modifyGet hg

theorem look (g : Heap Obj → Option α) : Ample (Heap.look g) := by
  refine bind (fun h hu ↦ .of_ok rfl hu) fun h ↦ ?_
  cases g h with
  | some a => exact pure a
  | none => exact throw fun _ _ ↦ by simp

theorem hold (xs : List Hold) : Ample (Heap.hold xs : HeapM Obj Unit) :=
  modify fun _ hu ↦ hu.retain xs

theorem letGo (xs : List Hold) : Ample (Heap.letGo xs : HeapM Obj Unit) :=
  modify fun _ hu ↦ hu.release xs

theorem holding (xs : List Hold) (hact : Ample act) : Ample (Heap.holding xs act) :=
  hact.tryCatch fun _ hfault ↦ (letGo xs).bind fun _ ↦ throw hfault

end Ample

/-! ## New cells -/

variable [HostObject Obj]

theorem ample_allocate (v : Value Obj) : Ample (Heap.allocate v) := by
  intro h hu
  exact .of_ok (Scene.allocate_of_free (hu.not_exhausted _)) (hu.filled _ v)

theorem ample_blankBlock : Ample (Heap.blankBlock : HeapM Obj BlockId) := by
  refine .bind (fun h hu ↦ .of_ok (Scene.get_eq h) hu) fun h ↦ ?_
  cases h.blank with
  | some b => exact (Ample.hold _).bind fun _ ↦ .pure b
  | none =>
    refine (ample_allocate .uninit).bind fun b ↦ (Ample.hold _).bind fun _ ↦ ?_
    exact (Ample.modify fun _ hu ↦ hu).bind fun _ ↦ .pure b

theorem ample_bindNew (v : Value Obj) : Ample (Heap.bindNew v) := by
  refine .bind ?_ fun b ↦ (Ample.look _).bind fun w ↦ .modifyGet fun _ hu ↦ hu
  rw [Heap.place]
  split
  · exact ample_blankBlock
  · exact ample_allocate v

omit [HostObject Obj] in
theorem ample_newList (is : List HandleId) : Ample (Heap.newList is : HeapM Obj ListId) :=
  .modifyGet fun _ hu ↦ hu

/-! ## Data brought into the heap -/

theorem additive_ample : Heap.Additive fun _ α (act : HeapM Obj α) ↦ Ample act where
  pure := .pure
  bind hact hf := hact.bindKnown hf
  passing hact hg := hact.tryCatch fun fault hfault ↦ (hg fault).bind fun _ ↦ .throw hfault
  letGo := .letGo
  newList := ample_newList
  bindNew := ample_bindNew

theorem ample_unpack (bytes : List UInt8) :
    Ample (Heap.unpack bytes : HeapM Obj (Except Packed.DecodeError (Value Obj))) :=
  additive_ample.unpack bytes

end ScriptHeap
