import ScriptHeap.Proofs.Packed.Incremental
import ScriptHeap.Proofs.Packed.RoundTrip

/-!
# Packed values in streams

A packed value says itself where it ends.  Packed values that stand in a stream one after another,
with anything behind them, are read one by one, each reading stopping right behind its value; the
reader of bytes differs from that of streams only in that it also looks whether something is left.
When a stream ends inside a packed value, or breaks there, then this is what is reported, and never
anything about the bytes before.

## What is here

* `decodeMany` — so many values from a stream, one after another.
* `decode_streams` — packed values in any stream, and the two readers compared.
* `decode_of_cut` — a stream that ends or breaks inside a packed value.
-/

set_option autoImplicit false
namespace ScriptHeap.Packed

variable {Obj : Type}

/-! ## One value -/

/-- What can be unpacked once host values are left out. -/
theorem readable_withoutHost {d : Datum Obj} (hfits : d.Fits) (hnamed : d.Named)
    (hnesting : d.nesting ≤ nestingLimit) : d.withoutHost.Readable nestingLimit :=
  ⟨d.hostFree_withoutHost, Datum.named_withoutHost hnamed, Datum.fits_withoutHost hfits,
    d.nesting_withoutHost.symm ▸ hnesting⟩

theorem reads_decode :
    Reads (decode : Decoder Obj (Datum Obj)) (Datum.Readable nestingLimit) Datum.packed :=
  reads_takeNested nestingLimit

/-- Reading stops right behind a packed value. -/
theorem decode_packed {d : Datum Obj} (hfits : d.Fits) (hnamed : d.Named)
    (hnesting : d.nesting ≤ nestingLimit) {s : Stream} {rest : List UInt8}
    (hs : s.bytes = d.packed ++ rest) :
    ∃ t, decode s = .ok d.withoutHost t ∧ s.Past d.packed t ∧ t.bytes = rest := by
  rw [← d.packed_withoutHost] at hs ⊢
  exact reads_decode.past (readable_withoutHost hfits hnamed hnesting) hs

/-! ## Many values -/

/-- So many values from a stream, one after another. -/
def decodeMany : Nat → Decoder Obj (List (Datum Obj))
  | 0 => return []
  | n + 1 => do
    let d ← decode
    return d :: (← decodeMany n)

/-- Values that are packed one after another are read one after another. -/
theorem decodeMany_packed {ds : List (Datum Obj)}
    (hds : ∀ d ∈ ds, d.Fits ∧ d.Named ∧ d.nesting ≤ nestingLimit) {s : Stream} {rest : List UInt8}
    (hs : s.bytes = ds.flatMap Datum.packed ++ rest) :
    ∃ t, decodeMany ds.length s = .ok (ds.map Datum.withoutHost) t ∧
      s.Past (ds.flatMap Datum.packed) t ∧ t.bytes = rest := by
  induction ds generalizing s with
  | nil => exact ⟨s, rfl, .refl s, hs⟩
  | cons d ds ih =>
    rw [List.forall_mem_cons] at hds
    obtain ⟨⟨hfits, hnamed, hnesting⟩, hds⟩ := hds
    rw [List.flatMap_cons, List.append_assoc] at hs
    obtain ⟨t, ht, hp, hrest⟩ := decode_packed hfits hnamed hnesting hs
    obtain ⟨u, hu, hq, hrest⟩ := ih hds hrest
    refine ⟨u, ?_, hp.trans hq, hrest⟩
    exact (bind_of_ok ht).trans (bind_of_ok hu)

/-- Data that fit are packed, each as its packed form. -/
theorem mapM_pack_of_fits {ds : List (Datum Obj)} (h : ∀ d ∈ ds, d.Fits) :
    ds.mapM Datum.pack = .ok (ds.map Datum.packed) := by
  induction ds with
  | nil => rfl
  | cons d ds ih =>
    rw [List.forall_mem_cons] at h
    rw [List.mapM_cons, d.pack_of_fits h.1, ih h.2]
    rfl

/-! ## Streams and bytes -/

/-- The reader of bytes is that of streams, together with a look at what is left. -/
theorem unpack_bytes {s : Stream} (hs : s.ending = .finished) :
    (unpack s.bytes : Except (DecodeFailure Obj) (Datum Obj)) =
      match decode s with
      | .ok d t => if t.remaining = 0 then .ok d else .error ⟨.trailing t.remaining, [d]⟩
      | .error failure _ => .error failure := by
  have hbytes : (Stream.ofBytes s.bytes).bytes = s.bytes := Stream.bytes_ofBytes _
  have hsame : (decodedFrom (.ofBytes s.bytes) : Except (DecodeFailure Obj) (Datum Obj)) =
      decodedFrom s := (decode_congr hbytes hs.symm).1
  rw [unpack, EStateM.run]
  cases hd : (decode : Decoder Obj (Datum Obj)) s with
  | ok d t =>
    obtain ⟨t', ht', hleft⟩ := (decode_congr hbytes hs.symm).2 d t hd
    have hremaining : t'.remaining = t.remaining := congrArg List.length hleft
    rw [ht']
    dsimp only
    rw [hremaining]
  | error failure t =>
    rw [decodedFrom_of_error hd] at hsame
    cases hd' : (decode : Decoder Obj (Datum Obj)) (.ofBytes s.bytes) with
    | ok d' t' =>
      rw [decodedFrom_of_ok hd'] at hsame
      cases hsame
    | error failure' t' =>
      rw [decodedFrom_of_error hd'] at hsame
      cases hsame
      rfl

/-- Bytes have something left behind their value exactly when a stream of them has. -/
theorem unpack_eq_trailing_iff {s : Stream} (hs : s.ending = .finished) (m : Nat) :
    (∃ done : List (Datum Obj), unpack s.bytes = .error ⟨.trailing m, done⟩) ↔
      0 < m ∧ ∃ (d : Datum Obj) (t : Stream), decode s = .ok d t ∧ t.remaining = m := by
  rw [unpack_bytes hs]
  constructor
  · rintro ⟨done, h⟩
    split at h
    · rename_i d t hd
      split at h
      · cases h
      · rename_i hne
        cases h
        exact ⟨Nat.pos_of_ne_zero hne, d, t, hd, rfl⟩
    · rename_i failure t hd
      cases h
      exact absurd rfl (decode_ne_trailing hd m)
  · rintro ⟨hm, d, t, hd, rfl⟩
    refine ⟨[d], ?_⟩
    rw [hd]
    exact if_neg (Nat.ne_of_gt hm)

/-- **Packed values in a stream.**  Values with lengths that fit, a name for each element of their
structs and not too many containers nested are packed, and from any stream that begins with their
packed forms, however it is cut into chunks and whatever comes behind them, they are read one by
one.  After each of them exactly the bytes of those read so far have been taken, so that an ending
further behind does not show.  What is read from a stream, and what is left of it, is the same for
all ways to cut it into chunks, and reading bytes complains about what is left exactly when reading
a stream leaves it. -/
theorem decode_streams :
    (∀ ds : List (Datum Obj), (∀ d ∈ ds, d.Fits ∧ d.Named ∧ d.nesting ≤ nestingLimit) →
      ∃ packs : List (List UInt8), ds.mapM Datum.pack = .ok packs ∧ packs.length = ds.length ∧
        ∀ (s : Stream) (rest : List UInt8), s.bytes = packs.flatten ++ rest →
          ∀ k ≤ ds.length, ∃ t : Stream,
            decodeMany k s = .ok ((ds.take k).map Datum.withoutHost) t ∧
            t.consumed = s.consumed + (packs.take k).flatten.length ∧
            t.bytes = (packs.drop k).flatten ++ rest ∧ t.ending = s.ending) ∧
    (∀ s s' : Stream, s'.bytes = s.bytes → s'.ending = s.ending →
      (decodedFrom s' : Except (DecodeFailure Obj) (Datum Obj)) = decodedFrom s ∧
        ∀ (d : Datum Obj) (t : Stream), decode s = .ok d t →
          ∃ t', decode s' = .ok d t' ∧ t'.bytes = t.bytes) ∧
    ∀ (s : Stream) (m : Nat), s.ending = .finished →
      ((∃ done : List (Datum Obj), unpack s.bytes = .error ⟨.trailing m, done⟩) ↔
        0 < m ∧ ∃ (d : Datum Obj) (t : Stream), decode s = .ok d t ∧ t.remaining = m) := by
  refine ⟨fun ds hds ↦ ⟨ds.map Datum.packed, mapM_pack_of_fits fun d hd ↦ (hds d hd).1,
    List.length_map .., fun s rest hs k hk ↦ ?_⟩, fun s s' ↦ decode_congr,
    fun s m hs ↦ unpack_eq_trailing_iff hs m⟩
  have hsplit : s.bytes = (ds.take k).flatMap Datum.packed ++
      ((ds.drop k).flatMap Datum.packed ++ rest) := by
    rw [hs, ← List.append_assoc, ← List.flatMap_append, List.take_append_drop, List.flatMap_def]
  obtain ⟨t, ht, hp, hrest⟩ := decodeMany_packed (fun d hd ↦ hds d (List.mem_of_mem_take hd)) hsplit
  rw [List.length_take_of_le hk] at ht
  refine ⟨t, ht, ?_, ?_, hp.ending⟩
  · rw [hp.consumed, ← List.map_take, List.flatMap_def]
  · rw [hrest, ← List.map_drop, List.flatMap_def]

/-- A struct with an element that no name stands for is packed, but not read from any stream. -/
theorem decode_streams_unnamed :
    let d : Datum Empty := .struct [("a", .scalar (.integer 1))] [.scalar (.integer 2)]
    let bytes := [10, 2, 0, 0, 0, 3, 1, 0, 0, 0, 3, 2, 0, 0, 0, 1, 0, 0, 0, 1, 0, 0, 0, 97]
    let items : List (Datum Empty) := [.scalar (.integer 1), .scalar (.integer 2)]
    d.Fits ∧ d.nesting ≤ nestingLimit ∧ d.pack = .ok bytes ∧
      decodedFrom (.ofBytes bytes) = .error ⟨.nameCount 2 1, items⟩ := by
  intro d bytes items
  have hpack : d.pack = .ok bytes := rfl
  exact ⟨(Datum.pack_eq_ok_iff.1 hpack).1, by decide, hpack, rfl⟩

/-! ## Streams that end too early -/

/-- A packed value that is not there to its end makes the ending of the stream show. -/
theorem fails_of_cut {d : Datum Obj} (hfits : d.Fits) (hnamed : d.Named)
    (hnesting : d.nesting ≤ nestingLimit) {k : Nat} (hk : k < d.packed.length) {s : Stream}
    (hs : s.bytes = d.packed.take k) :
    Fails (decode : Decoder Obj (Datum Obj)) s.ending.error s := by
  have hwhole : (Stream.ofBytes d.packed).bytes = s.bytes ++ d.packed.drop k := by
    rw [Stream.bytes_ofBytes, hs, List.take_append_drop]
  refine (decodedFrom_append hwhole).resolve_left fun hsame ↦ ?_
  -- a reader that did without the missing bytes would have read the whole value
  have hbytes : (Stream.ofBytes d.packed).bytes = d.packed ++ [] := by
    rw [Stream.bytes_ofBytes, List.append_nil]
  obtain ⟨t, ht, -⟩ := decode_packed hfits hnamed hnesting hbytes
  rw [decodedFrom_of_ok ht, decodedFrom] at hsame
  split at hsame
  · rename_i e u hu
    cases hsame
    have hp := (reads_decode.sound hu).2.bytes
    rw [hs, d.packed_withoutHost] at hp
    have hlen := congrArg List.length hp
    rw [List.length_append, List.length_take] at hlen
    omega
  · cases hsame

/-- **A packed value that is cut off.**  Its first bytes, as long as they are not all, do not
unpack, because more was expected; neither does a stream of them that ends there, in whatever chunks
it comes, and a stream that breaks there reports the reason for that. -/
theorem decode_of_cut {d : Datum Obj} (hfits : d.Fits) (hnamed : d.Named)
    (hnesting : d.nesting ≤ nestingLimit) :
    ∃ bytes, d.pack = .ok bytes ∧ ∀ k < bytes.length,
      (∃ done : List (Datum Obj), unpack (bytes.take k) = .error ⟨.unexpectedEnd, done⟩) ∧
      ∀ s : Stream, s.bytes = bytes.take k →
        (s.ending = .finished → ∃ (done : List (Datum Obj)) (t : Stream),
          decode s = .error ⟨.unexpectedEnd, done⟩ t) ∧
        ∀ reason, s.ending = .broken reason → ∃ (done : List (Datum Obj)) (t : Stream),
          decode s = .error ⟨.broken reason, done⟩ t := by
  refine ⟨d.packed, d.pack_of_fits hfits, fun k hk ↦ ⟨?_, fun s hs ↦ ⟨fun hend ↦ ?_, ?_⟩⟩⟩
  · have hbytes : (Stream.ofBytes (d.packed.take k)).bytes = d.packed.take k :=
      Stream.bytes_ofBytes _
    obtain ⟨done, t, ht⟩ := fails_of_cut hfits hnamed hnesting hk hbytes
    exact ⟨done, by rw [unpack, EStateM.run, ht]; rfl⟩
  · obtain ⟨done, t, ht⟩ := fails_of_cut hfits hnamed hnesting hk hs
    rw [hend] at ht
    exact ⟨done, t, ht⟩
  · intro reason hend
    obtain ⟨done, t, ht⟩ := fails_of_cut hfits hnamed hnesting hk hs
    rw [hend] at ht
    exact ⟨done, t, ht⟩

/-- A struct of one member, cut off anywhere. -/
theorem decode_of_cut_struct :
    let d : Datum Empty := .struct [("a", .scalar (.integer 1))] []
    (d.Fits ∧ d.Named ∧ d.nesting ≤ nestingLimit) ∧
      ∃ bytes, d.pack = .ok bytes ∧ ∀ k < bytes.length,
        (∃ done : List (Datum Empty), unpack (bytes.take k) = .error ⟨.unexpectedEnd, done⟩) ∧
        ∀ s : Stream, s.bytes = bytes.take k →
          (s.ending = .finished → ∃ (done : List (Datum Empty)) (t : Stream),
            decode s = .error ⟨.unexpectedEnd, done⟩ t) ∧
          ∀ reason, s.ending = .broken reason → ∃ (done : List (Datum Empty)) (t : Stream),
            decode s = .error ⟨.broken reason, done⟩ t := by
  intro d
  have hpack : d.pack = .ok [10, 1, 0, 0, 0, 3, 1, 0, 0, 0, 1, 0, 0, 0, 1, 0, 0, 0, 97] := rfl
  have hunpack : unpack [10, 1, 0, 0, 0, 3, 1, 0, 0, 0, 1, 0, 0, 0, 1, 0, 0, 0, 97] = .ok d := rfl
  have hd := (unpack_eq_ok_iff.1 hunpack).1
  exact ⟨⟨hd.fits, hd.named, hd.nesting_le⟩, decode_of_cut hd.fits hd.named hd.nesting_le⟩

/-- A struct with an element that no name stands for, cut off in front of its last byte: the names
are too few before the end shows. -/
theorem decode_of_cut_unnamed :
    let d : Datum Empty := .struct [("a", .scalar (.integer 1))] [.scalar (.integer 2)]
    let bytes := [10, 2, 0, 0, 0, 3, 1, 0, 0, 0, 3, 2, 0, 0, 0, 1, 0, 0, 0, 1, 0, 0, 0, 97]
    let items : List (Datum Empty) := [.scalar (.integer 1), .scalar (.integer 2)]
    d.Fits ∧ d.nesting ≤ nestingLimit ∧ d.pack = .ok bytes ∧
      unpack (bytes.take 23) = .error ⟨.nameCount 2 1, items⟩ := by
  intro d bytes items
  have hpack : d.pack = .ok bytes := rfl
  exact ⟨(Datum.pack_eq_ok_iff.1 hpack).1, by decide, hpack, rfl⟩

end ScriptHeap.Packed
