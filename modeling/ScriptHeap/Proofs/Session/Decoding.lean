import ScriptHeap.Proofs.Heap.Numbering
import ScriptHeap.Proofs.Heap.Restoring
import ScriptHeap.Proofs.Heap.Serving
import ScriptHeap.Proofs.Session.Registry

/-!
# Bytes from outside

A packed value may come from anywhere, and what it says of its own size need not be true.  However
it was made up, the attempt to read it comes to an end, it makes no more handles than bytes were
read, and if it fails in the end the heap is as it was.

## What is here

* `Heap.Course.uncapped` — where no pool has a cap, none ever gets one.
* `Heap.serves_unpack` — the attempt has a result unless a pool has no block left.
* `Heap.Restored.live_eq` — the register counts what it counted before.
* `Session.unpack_bounded` — packed values in a session.
-/

set_option autoImplicit false
namespace ScriptHeap

variable {Obj : Type} [HostObject Obj]

namespace Heap

variable {h t g : Heap Obj} {xs : List Hold} {made : List Kind}

/-! ## Blocks enough -/

theorem Alters.uncapped {k : Option Kind} (ha : h.Alters k t) (hu : h.Uncapped) : t.Uncapped := by
  cases ha with
  | retained x => exact hu.retainOne x
  | dropped x => exact hu.of_limits fun name ↦ (h.returns_dropOne x name).limits
  | filled name v => exact hu.filled name v
  | valued b v => exact hu.withValue b v
  | listed is => exact hu
  | made hb => exact hu
  | moved i b => exact hu
  | ordered l is => exact hu
  | blanked b => exact hu
  | named names => exact hu

/-- Where no pool has a cap, none ever gets one. -/
theorem Course.uncapped (hc : h.Course made t) (hu : h.Uncapped) : t.Uncapped := by
  induction hc with
  | start => exact hu
  | next _ ha ih => exact ha.uncapped ih

/-- The attempt to read bytes has a result unless a pool has no block left. -/
theorem serves_unpack (hs : h.Sound xs) (bytes : List UInt8) :
    Serves (unpack bytes) h fun _ _ ↦ True := by
  have hends := (Scene.at_ofHeap hs fun _ ↦ False).unpack bytes
  exact (Serves.of_ends hends trivial (unhurried_unpack bytes)).mono (fun _ _ _ ↦ trivial)
    fun _ _ hf ↦ hf

/-- Where no pool has a cap it always has one. -/
theorem exists_unpack (hs : h.Sound xs) (hu : h.Uncapped) (bytes : List UInt8) :
    ∃ r g, unpack bytes h = .ok r g := by
  obtain ⟨r, g, hrun, -⟩ := (serves_unpack hs bytes).exists_ok ((ample_unpack bytes).not_exhausts hu)
  exact ⟨r, g, hrun⟩

/-! ## What the register counts -/

omit [HostObject Obj] in
theorem nodup_existing (h : Heap Obj) : h.existing.Nodup := by
  rw [existing, List.Nodup, List.pairwise_map]
  refine (Table.pairwise_toList _).imp fun hlt he ↦ ?_
  exact Nat.ne_of_lt hlt (congrArg HandleId.index he)

omit [HostObject Obj] in
/-- A register that lists the handles which are there counts what it counted before. -/
theorem Restored.live_eq (hr : h.Restored g) (hs : h.Sound xs) {more : List Kind} {r r' : Registry}
    (hbefore : h.Registered made r) (hafter : g.Registered more r') : r'.live = r.live := by
  have hperm : g.existing.Perm h.existing := by
    refine (List.perm_ext_iff_of_nodup g.nodup_existing h.nodup_existing).2 fun i ↦ ?_
    rw [mem_existing, mem_existing, hr.isSome_handle? hs]
  rw [hafter.live, hbefore.live, hperm.length_eq]

/-! ## Handles made on the way -/

/-- The handles that are made while bytes are read are at most as many as these. -/
theorem ends_unpack_course (h : Heap Obj) (bytes : List UInt8) :
    Ends (unpack bytes) h
      (fun _ g ↦ ∃ made, h.Course made g ∧ made.length ≤ Packed.consumed Obj bytes)
      fun _ g ↦ ∃ made, h.Course made g ∧ made.length ≤ Packed.consumed Obj bytes := by
  have hboth {g : Heap Obj} (hc : h.ComesTo g)
      (hle : g.handles.next ≤ h.handles.next + Packed.consumed Obj bytes) :
      ∃ made, h.Course made g ∧ made.length ≤ Packed.consumed Obj bytes := by
    obtain ⟨made, hmade⟩ := hc
    rw [hmade.next_eq] at hle
    exact ⟨made, hmade, Nat.le_of_add_le_add_left hle⟩
  exact ((within_unpack bytes h).and (makesAtMost_unpack bytes h)).mono
    (fun _ _ hh ↦ hboth hh.1.1 hh.2) fun _ _ hh ↦ hboth hh.1.1 hh.2

end Heap

namespace Session

open Packed

variable {s : Session Obj}

/-- **Bytes from outside are bounded in what they do**, whatever bytes they are.  No more of them
are read than there are.  The attempt to read a value comes to an end: with a result, or with a
fault if a pool has no block left, so with a result in a runtime without caps.  It makes no more
handles than bytes were read, in either case.  If the result is an error, all that was there is
there as it was, the pools have as many blocks in use as before, and an instrumented runtime counts
as many live handles.  Only the block for variables without a value may have been made. -/
theorem unpack_bounded {config : HeapConfig} (hs : (start config).Succeeds s)
    (bytes : List UInt8) :
    consumed Obj bytes ≤ bytes.length ∧
    Ends (Heap.unpack bytes) s.heap
      (fun r g ↦ (∃ made, s.heap.Course made g ∧ made.length ≤ consumed Obj bytes) ∧
        ∀ cause, r = .error cause →
          (∀ x, s.heap.Born x → g.content? x = s.heap.content? x) ∧
          (∀ name, (g.pools.get name).inUse = (s.heap.pools.get name).inUse +
            if name = .uninit ∧ s.heap.blank = none ∧ g.blank.isSome then 1 else 0) ∧
          (config.instrumented = true → ∃ r r', s.heap.registry = some r ∧
            g.registry = some r' ∧ r'.live = r.live))
      (fun f g ↦ Heap.OutOfBlocks f ∧
        ∃ made, s.heap.Course made g ∧ made.length ≤ consumed Obj bytes) ∧
    (config.limits.cap = none → ∃ r g, Heap.unpack bytes s.heap = .ok r g) := by
  have hb : s.heap.Sound s.holds := (hs.arises (.start config)).books
  obtain ⟨made, hmade⟩ := hs.comesTo
  refine ⟨consumed_le bytes, ?_, fun hcap ↦ ?_⟩
  · have hends := ((Heap.serves_unpack hb bytes).and (s.heap.ends_unpack_course bytes)).known
    refine hends.mono (fun r g ⟨⟨_, hcourse⟩, hrun⟩ ↦ ⟨hcourse, ?_⟩) fun _ _ hf ↦ hf
    rintro cause rfl
    obtain ⟨hr, hb'⟩ := hb.restored_unpack hrun
    refine ⟨hr.content, hr.inUse_eq hb hb', fun hon ↦ ?_⟩
    obtain ⟨more, hmore, -⟩ := hcourse
    obtain ⟨r, hbefore⟩ := hmade.records hon
    obtain ⟨r', hafter⟩ := (hmade.trans hmore).records hon
    exact ⟨r, r', hbefore.registry, hafter.registry, hr.live_eq hb
      (Heap.registered_of_records hbefore) (Heap.registered_of_records hafter)⟩
  · exact Heap.exists_unpack hb (hmade.uncapped (Heap.uncapped_empty hcap)) bytes

/-- An instrumented runtime in which a variable has a value. -/
def oneVariable : Session SampleObject :=
  ((start ⟨true, ⟨4, none⟩⟩).run [.bind "h" (.literal (.scalar (.integer 1)))]).2

/-- The bytes of an array that is said to have 4294967295 elements, and which end after the first of
them, an array with a number and without a value. -/
def overstated : List UInt8 :=
  [5, 255, 255, 255, 255, 5, 2, 0, 0, 0, 3, 7, 0, 0, 0, 1]

/-- Two handles were made for the sixteen bytes before they came to an end, and both are gone.  What
is left of them is the block for variables without a value. -/
theorem unpack_bounded_overstated :
    ∃ made r g, oneVariable.heap.Course made g ∧
      Heap.unpack overstated oneVariable.heap = .ok (.error .unexpectedEnd) g ∧
      consumed SampleObject overstated = 16 ∧ made.length = 2 ∧ made.length ≤ 16 ∧
      (∀ name, (g.pools.get name).inUse = (oneVariable.heap.pools.get name).inUse +
        if name = .uninit then 1 else 0) ∧ g.registry = some r ∧ r.live = 1 := by
  have hs : (start ⟨true, ⟨4, none⟩⟩).Succeeds oneVariable := Succeeds.refl.run _
  obtain ⟨-, hends, hresult⟩ := unpack_bounded hs overstated
  obtain ⟨answer, g, hrun⟩ := hresult rfl
  have hcheck : (match Heap.unpack overstated oneVariable.heap with
      | .ok (.error .unexpectedEnd) g => g.blank.isSome && g.handles.next == 3
      | _ => false) = true := by
    decide +kernel
  have hconsumed : consumed SampleObject overstated = 16 := by decide +kernel
  have hbefore : oneVariable.heap.blank = none ∧ oneVariable.heap.handles.next = 1 ∧
      oneVariable.heap.registry.map Registry.live = some 1 := by
    decide +kernel
  obtain ⟨hblank, hnext, hlive⟩ := hbefore
  rw [hrun] at hcheck
  obtain rfl : answer = .error .unexpectedEnd := by
    split at hcheck
    · rename_i he
      cases he
      rfl
    · cases hcheck
  obtain ⟨hsome, hmore⟩ : g.blank.isSome ∧ g.handles.next = 3 := by simpa using hcheck
  obtain ⟨⟨made, hmade, hle⟩, hleft⟩ := hends.get hrun
  obtain ⟨-, hused, hregister⟩ := hleft _ rfl
  obtain ⟨r, r', hr, hr', hsame⟩ := hregister rfl
  rw [hr] at hlive
  rw [hmade.next_eq, hnext] at hmore
  refine ⟨made, r', g, hmade, hrun, hconsumed, by omega, hconsumed ▸ hle, fun name ↦ ?_, hr', ?_⟩
  · rw [hused, hblank]
    simp [hsome]
  · exact hsame.trans (Option.some.inj hlive)

end Session
end ScriptHeap
