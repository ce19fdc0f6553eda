import ScriptHeap.Proofs.Packed.Reading

/-!
# Packing and unpacking

Unpacking accepts exactly the packed forms of data without host values, with a name for each element
of a struct, and with no more than `nestingLimit` containers nested.  Both directions follow: what
was packed comes back, with no value in the place of host values, and bytes that unpack at all are
the only packed form of what they hold.

## What is here

* `Datum.packed_withoutHost` — host values are packed as no value.
* `unpack_eq_ok_iff` — what unpacks, and to what.
* `unpack_pack` — packing and then unpacking.
* `pack_unpack` — unpacking and then packing.
-/

set_option autoImplicit false
namespace ScriptHeap

open Packed

variable {Obj : Type}

namespace Datum

/-! ## Data without host values -/

theorem isContainer_withoutHost (d : Datum Obj) : d.withoutHost.isContainer = d.isContainer := by
  cases d <;> rfl

theorem named_withoutHost {d : Datum Obj} (h : d.Named) : d.withoutHost.Named := by
  induction d using inductionOn with
  | h d ih =>
    have hd := named_iff.1 h
    refine named_iff.2 ⟨fun ms ds hs ↦ ?_, ?_⟩
    · cases d with
      | struct ms ds =>
        obtain rfl := hd.1 ms ds rfl
        cases hs
        rfl
      | scalar t => cases hs
      | array ds => cases hs
    · rw [elements_withoutHost]
      exact List.forall_mem_map.2 fun e he ↦ ih e he (hd.2 e he)

theorem nesting_withoutHost_le_iff (d : Datum Obj) (n : Nat) :
    d.withoutHost.nesting ≤ n ↔ d.nesting ≤ n := by
  induction d using inductionOn generalizing n with
  | h d ih =>
    cases n with
    | zero =>
      rw [← Nat.not_lt, ← Nat.not_lt, nesting_pos_iff, nesting_pos_iff, isContainer_withoutHost]
    | succ n =>
      rw [nesting_le_succ_iff, nesting_le_succ_iff, elements_withoutHost, List.forall_mem_map]
      exact forall₂_congr fun e he ↦ ih e he n

theorem nesting_withoutHost (d : Datum Obj) : d.withoutHost.nesting = d.nesting :=
  Nat.le_antisymm ((nesting_withoutHost_le_iff d _).2 (Nat.le_refl _))
    ((nesting_withoutHost_le_iff d _).1 (Nat.le_refl _))

theorem pieces_withoutHost (d : Datum Obj) : d.withoutHost.pieces = d.pieces := by
  induction d using inductionOn with
  | h d ih =>
    have hes : d.withoutHost.elements.flatMap pieces = d.elements.flatMap pieces := by
      rw [elements_withoutHost, List.flatMap_map]
      exact congrArg List.flatten (List.map_congr_left ih)
    cases d with
    | scalar s => cases s <;> rfl
    | array ds =>
      rw [withoutHost, withoutHostAll_eq_map] at hes ⊢
      rw [elements_array, elements_array] at hes
      rw [pieces_array, pieces_array, hes, List.length_map]
    | struct ms ds =>
      have hlen := congrArg List.length (elements_withoutHost (struct ms ds))
      rw [List.length_map] at hlen
      rw [withoutHost] at hes hlen ⊢
      rw [pieces_struct, pieces_struct, hes, hlen, withoutHostMembers_eq_map, List.map_map,
        List.length_map]
      rfl

/-- Host values are packed as no value. -/
theorem packed_withoutHost (d : Datum Obj) : d.withoutHost.packed = d.packed := by
  rw [packed, pieces_withoutHost, packed]

theorem fits_withoutHost {d : Datum Obj} (h : d.Fits) : d.withoutHost.Fits := by
  rwa [← firstOversized?_pieces_eq_none_iff, pieces_withoutHost,
    firstOversized?_pieces_eq_none_iff]

end Datum

namespace Packed

/-! ## What unpacks -/

theorem Stream.eq_nil_of_remaining_eq_zero {s : Stream} (h : s.remaining = 0) : s.bytes = [] :=
  List.length_eq_zero_iff.1 h

/-- **What bytes hold.**  They unpack to a datum exactly when they are its packed form, and only
data that can be read have one. -/
theorem unpack_eq_ok_iff {bytes : List UInt8} {d : Datum Obj} :
    unpack bytes = .ok d ↔ d.Readable nestingLimit ∧ d.packed = bytes := by
  have hreads : Reads (takeNested nestingLimit : Decoder Obj (Datum Obj))
      (Datum.Readable nestingLimit) Datum.packed := reads_takeNested nestingLimit
  constructor
  · intro h
    rw [unpack, EStateM.run] at h
    split at h
    · rename_i e rest hdecode
      split at h
      · rename_i hrest
        cases h
        obtain ⟨hd, hp⟩ := hreads.sound hdecode
        refine ⟨hd, ?_⟩
        have hbytes := hp.bytes
        rw [Stream.eq_nil_of_remaining_eq_zero hrest, List.append_nil, Stream.bytes_ofBytes]
          at hbytes
        exact hbytes.symm
      · cases h
    · cases h
  · rintro ⟨hd, rfl⟩
    have hbytes : (Stream.ofBytes d.packed).bytes = d.packed ++ [] := by
      rw [Stream.bytes_ofBytes, List.append_nil]
    obtain ⟨t, ht, -, hrest⟩ := hreads.past hd hbytes
    have hremaining : t.remaining = 0 := by
      rw [Stream.remaining, hrest, List.length_nil]
    rw [unpack, EStateM.run, decode, ht]
    exact if_pos hremaining

theorem unpack_of_nestingLimit_lt {d : Datum Obj} {depth : Nat} (hd : d.Readable depth)
    (hdeep : nestingLimit < d.nesting) :
    ∃ done : List (Datum Obj), unpack d.packed = .error ⟨.tooDeep nestingLimit, done⟩ := by
  have hbytes : (Stream.ofBytes d.packed).bytes = d.packed ++ [] := by
    rw [Stream.bytes_ofBytes, List.append_nil]
  obtain ⟨done, t, ht⟩ := fails_takeNested hd hdeep hbytes
  exact ⟨done, by rw [unpack, EStateM.run, decode, ht]⟩

/-! ## Round trips -/

/-- **Packing and then unpacking.**  A value whose lengths fit packs; when its structs have a name
for each element, it comes back with no value in the place of host values, or is refused as nested
too deep.  A value with a length that does not fit does not pack. -/
theorem unpack_pack (d : Datum Obj) :
    (d.Fits → ∃ bytes, d.pack = .ok bytes ∧
      (d.Named →
        (d.nesting ≤ nestingLimit → unpack bytes = .ok d.withoutHost) ∧
        (nestingLimit < d.nesting →
          ∃ done : List (Datum Obj), unpack bytes = .error ⟨.tooDeep nestingLimit, done⟩))) ∧
    (¬ d.Fits → ∃ n, d.pack = .error (.oversized n) ∧ lengthLimit ≤ n) := by
  refine ⟨fun hfits ↦ ⟨d.packed, d.pack_of_fits hfits, fun hnamed ↦ ?_⟩, fun hfits ↦ ?_⟩
  · have hread (n : Nat) (hn : d.nesting ≤ n) : d.withoutHost.Readable n :=
      ⟨d.hostFree_withoutHost, Datum.named_withoutHost hnamed, Datum.fits_withoutHost hfits,
        d.nesting_withoutHost.symm ▸ hn⟩
    rw [← d.packed_withoutHost]
    refine ⟨fun hle ↦ unpack_eq_ok_iff.2 ⟨hread _ hle, rfl⟩, fun hlt ↦ ?_⟩
    exact unpack_of_nestingLimit_lt (hread _ (Nat.le_refl _)) (d.nesting_withoutHost.symm ▸ hlt)
  · obtain ⟨n, hn, hle, -⟩ := Datum.pack_of_not_fits hfits
    exact ⟨n, hn, hle⟩

/-- An element that no name stands for is packed, but the names are then too few to read it. -/
theorem unpack_pack_unnamed :
    let d : Datum Empty := .struct [("a", .scalar (.integer 1))] [.scalar (.integer 2)]
    let bytes := [10, 2, 0, 0, 0, 3, 1, 0, 0, 0, 3, 2, 0, 0, 0, 1, 0, 0, 0, 1, 0, 0, 0, 97]
    let items : List (Datum Empty) := [.scalar (.integer 1), .scalar (.integer 2)]
    d.Fits ∧ d.nesting ≤ nestingLimit ∧ d.pack = .ok bytes ∧
      unpack bytes = .error ⟨.nameCount 2 1, items⟩ := by
  intro d bytes items
  have hpack : d.pack = .ok bytes := rfl
  exact ⟨(Datum.pack_eq_ok_iff.1 hpack).1, by decide, hpack, rfl⟩

/-- **Unpacking and then packing.**  What unpacks has a single packed form, the bytes that it came
from, and no other bytes unpack to it. -/
theorem pack_unpack {bytes : List UInt8} {d : Datum Obj} (h : unpack bytes = .ok d) :
    d.HostFree ∧ d.nesting ≤ nestingLimit ∧ d.Named ∧
      (d.Everywhere fun e ↦ ∀ t ∈ e.texts, Text.ofUtf8? (Text.utf8 t) = some t) ∧
      d.pack = .ok bytes ∧ ∀ other : List UInt8, unpack other = .ok d → other = bytes := by
  obtain ⟨hd, rfl⟩ := unpack_eq_ok_iff.1 h
  refine ⟨hd.hostFree, hd.nesting_le, hd.named, fun _ _ t _ ↦ Text.ofUtf8?_utf8 t,
    d.pack_of_fits hd.fits, fun other hother ↦ ?_⟩
  exact (unpack_eq_ok_iff.1 hother).2.symm

/-- A struct of one member, from its bytes and back. -/
theorem pack_unpack_struct :
    let bytes := [10, 1, 0, 0, 0, 3, 1, 0, 0, 0, 1, 0, 0, 0, 1, 0, 0, 0, 97]
    let d : Datum Empty := .struct [("a", .scalar (.integer 1))] []
    unpack bytes = .ok d ∧ d.HostFree ∧ d.nesting ≤ nestingLimit ∧ d.Named ∧
      (d.Everywhere fun e ↦ ∀ t ∈ e.texts, Text.ofUtf8? (Text.utf8 t) = some t) ∧
      d.pack = .ok bytes ∧ ∀ other : List UInt8, unpack other = .ok d → other = bytes := by
  intro bytes d
  have h : unpack bytes = .ok d := rfl
  exact ⟨h, pack_unpack h⟩

end Packed
end ScriptHeap
