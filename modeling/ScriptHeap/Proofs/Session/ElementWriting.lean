import ScriptHeap.Proofs.Heap.Assigning
import ScriptHeap.Proofs.Session.InPlace

/-!
# Arrays that are written

What an array in a variable shows after one of its elements was set, and which handles it has then.

## What is here

* `Heap.assignElement_spec` — an element that is set, and an index that is refused.
* `Session.element_parted` — an array that a snapshot was taken of gives its other elements up, too.
-/

set_option autoImplicit false
namespace ScriptHeap

variable {Obj : Type} [HostObject Obj]

namespace Heap

variable {h g : Heap Obj} {xs ys : List Hold} {i e : HandleId} {b : BlockId} {v : Value Obj}
  {l m : ListId} {is js : List HandleId} {place : Nat} {n : Int32} {keep : Bool}

/-- What is set is found by the subscript. -/
theorem Placed.subscript (hp : h.Placed i (.array l) v is place keep e b m js g)
    (hplace : fromOne? n = some place) :
    Runs (Heap.subscript i (.integer n)) g fun r _ ↦ r = e :=
  hp.alone.owns.subscript hp.alone.valueOf? hp.alone.elements hplace hp.here

/-- **An element of an array is set.**  An index below one, or one that lies too far past the end,
gives an error, and the array is left as it is.  Otherwise the array has the value in the place of
the index, what was missing before the place has no value, and all other elements have the contents
that they had.  The result is what the subscript gives then.  If the array shared neither its block
nor its element list, it has its list still; the handles of all other elements are the same, and
that of the element in the place is kept when this was asked for. -/
theorem assignElement_spec (ho : h.Operands xs i (.array l) v) (his : h.elements? l = some is)
    (hplenty : ¬ Exhausts (assignElement i n v keep) h) :
    ∃ r h' ds d, assignElement i n v keep h = .ok r h' ∧
      h.contents? i = some (.array ds) ∧ ds.length = is.length ∧ h.datum? v = some d ∧
      (n.toInt < 1 ∨ 16384 < n.toInt - 1 - ds.length →
        h'.contents? i = some (.array ds) ∧ ∃ text, h'.valueOf? r = some (.error text)) ∧
      ∀ place : Nat, n.toInt = place + 1 → place - ds.length ≤ 16384 →
        (∃ ds', h'.contents? i = some (.array ds') ∧ ds'.length = max ds.length (place + 1) ∧
          ds'[place]? = some d ∧
          (∀ k, ds.length ≤ k → k < place → ds'[k]? = some (.scalar .uninit)) ∧
          ∀ k, k ≠ place → k < ds.length → ds'[k]? = ds[k]?) ∧
        Runs (subscript i (.integer n)) h' (fun e _ ↦ e = r) ∧
        (h.Owns i l → h'.Owns i l ∧ ∃ js, h'.elements? l = some js ∧
          (∀ k, k ≠ place → k < is.length → js[k]? = is[k]?) ∧
          ∀ e, is[place]? = some e → (js[place]? = some e ↔ keep = true)) := by
  obtain ⟨ds, hds, hwritten, -⟩ := ho.sound.exists_seen ho.grounded his
  obtain ⟨d, hd, hdv⟩ := ho.sound.exists_datum ho.grounded ho.isSome.2
  have hcontents : h.contents? i = some (.array ds) := by
    rw [contents?, ho.left]
    exact hwritten
  have hlength : ds.length = is.length := by
    rw [← hds _ (Nat.le_refl _), length_seen]
  by_cases hrefused : n.toInt < 1 ∨ 16384 < n.toInt - 1 - ds.length
  · have hfar (place : Nat) (hplace : fromOne? n = some place) : fillLimit < place - is.length := by
      rw [fromOne?] at hplace
      split at hplace
      · obtain rfl := Option.some.inj hplace
        simp only [fillLimit]
        omega
      · cases hplace
    obtain ⟨r, h', hrun, hs', hends', hadds, herror⟩ :=
      ho.exists_outcome (ho.assignElement_refused his hfar keep) hplenty
    refine ⟨r, h', ds, d, hrun, hcontents, hlength, hd, fun _ ↦ ⟨?_, herror⟩, fun place hn hle ↦ ?_⟩
    · rw [contents?, hadds.valueOf? ho.sound ho.left, Option.bind_some, ← hwritten]
      have hthere := ho.isSome.1
      refine ho.sound.datum?_congr hs' ho.grounded hends' hthere (fun y hy ↦ ?_)
        (hadds.outline ho.sound hs' hthere)
      obtain ⟨k, hk⟩ := Option.isSome_iff_exists.1 (hthere y hy)
      rw [hadds.content ho.sound hk]
      rfl
    · omega
  · obtain ⟨place, hn⟩ : ∃ place : Nat, n.toInt = place + 1 := ⟨(n.toInt - 1).toNat, by omega⟩
    have hplace := fromOne?_eq_some hn
    have hlimit : place - is.length ≤ fillLimit := by
      simp only [fillLimit]
      omega
    obtain ⟨r, h', hrun, hs', hends', b, m, js, hp⟩ :=
      ho.exists_outcome (ho.assignElement his hplace hlimit keep) hplenty
    refine ⟨r, h', ds, d, hrun, hcontents, hlength, hd, fun hr ↦ (hrefused hr).elim,
      fun place' hn' _ ↦ ?_⟩
    obtain rfl : place = place' := by omega
    refine ⟨⟨_, hp.contents? hs' hends' hds hdv, Datum.length_placed _ _ _, Datum.placed_self _ _ _,
      fun k ↦ Datum.placed_gap, fun k ↦ Datum.placed_ne⟩, hp.subscript hplace, fun howns ↦ ?_⟩
    obtain ⟨rfl, hothers, hold⟩ := hp.kept l howns
    refine ⟨hp.alone.owns, js, hp.alone.elements, hothers, fun e he ↦ ?_⟩
    rw [hp.here, ← hold e he, Option.some.injEq]

end Heap

namespace Session

/-- A reference to the second element of an array, and a snapshot of the array. -/
def elementAndSnapshot : Session SampleObject :=
  ((start ⟨false, ⟨4, none⟩⟩).run
    [.bind "x" (.literal (.array [.scalar (.integer 1), .scalar (.integer 2)])),
      .subscript "x" (.literal (.scalar (.integer 2))) (some "e"), .snapshot "x" "before"]).2

/-- The array is written with itself two places past its end: it has what it had, a gap, and what it
was. -/
theorem assignElement_spec_self :
    ∃ r h', Heap.assignElement ⟨2⟩ 4 (.array ⟨0⟩) true elementAndSnapshot.heap = .ok r h' ∧
      h'.contents? ⟨2⟩ = some (.array [.scalar (.integer 1), .scalar (.integer 2), .scalar .uninit,
        .array [.scalar (.integer 1), .scalar (.integer 2)]]) := by
  have hs : elementAndSnapshot.Books := (books_start _).run _
  have hends : ¬ elementAndSnapshot.heap.Endless := by
    refine Heap.not_endless_of_rank snapshotRank ?_
    decide +kernel
  have ho : elementAndSnapshot.heap.Operands elementAndSnapshot.holds ⟨2⟩ (.array ⟨0⟩)
      (.array ⟨0⟩) :=
    .ofSnapshot (b := ⟨.array, ⟨0, 0⟩⟩) hs hends (by decide +kernel) (by decide +kernel)
      (by cbv) (by cbv)
  have hplenty : ¬ Exhausts (Heap.assignElement ⟨2⟩ 4 (.array ⟨0⟩) true)
      elementAndSnapshot.heap := by
    decide +kernel
  have hvalue : elementAndSnapshot.heap.datum? (.array ⟨0⟩) =
      some (.array [.scalar (.integer 1), .scalar (.integer 2)]) := by
    cbv
  have helements : elementAndSnapshot.heap.elements? ⟨0⟩ = some [⟨0⟩, ⟨1⟩] := by
    cbv
  obtain ⟨r, h', ds, d, hrun, hcontents, -, hd, -, hset⟩ :=
    Heap.assignElement_spec ho helements hplenty
  cases hvalue.symm.trans hd
  cases (show elementAndSnapshot.heap.contents? ⟨2⟩ = _ by cbv).symm.trans hcontents
  obtain ⟨⟨ds', hds', hlength, hplace, hgap, hothers⟩, -⟩ := hset 3 rfl (by decide)
  refine ⟨r, h', hrun, hds'.trans (congrArg (some ∘ Datum.array) ?_)⟩
  refine List.ext_getElem? fun k ↦ ?_
  rcases k with _ | _ | _ | _ | k
  · exact hothers 0 (by decide) (by decide)
  · exact hothers 1 (by decide) (by decide)
  · exact hgap 2 (by decide) (by decide)
  · exact hplace
  · rw [List.getElem?_eq_none (by simp [hlength]), List.getElem?_eq_none (by simp)]

/-- **A snapshot of an array parts it from its elements.**  Nobody but the block of the array holds
its list, but when the first element is set, a new handle takes the place of the second one, too: a
write to the handle that was there is not seen in the array any more. -/
theorem element_parted :
    elementAndSnapshot.references.get? "e" = some (some ⟨1⟩) ∧
      elementAndSnapshot.heap.ElementAt ⟨2⟩ 1 ⟨1⟩ ∧ elementAndSnapshot.heap.count (.list ⟨0⟩) = 1 ∧
      (∀ place, ¬ (elementAndSnapshot.step
        (.assignElement "x" 1 (.literal (.scalar (.integer 9))) false none)).2.heap.ElementAt ⟨2⟩
          place ⟨1⟩) ∧
      (elementAndSnapshot.run [.assignElement "x" 1 (.literal (.scalar (.integer 9))) false none,
        .assign "e" (.literal (.scalar (.integer 99)))]).2.heap.contents? ⟨2⟩ =
          some (.array [.scalar (.integer 9), .scalar (.integer 2)]) := by
  refine ⟨by cbv, ?_, by cbv, fun place ↦ ?_, by cbv⟩
  · exact ⟨⟨0⟩, [⟨0⟩, ⟨1⟩], ⟨⟨.array, ⟨0, 0⟩⟩, .array ⟨0⟩, by cbv, by cbv, rfl⟩, by cbv, rfl⟩
  · exact Heap.not_elementAt [⟨3⟩, ⟨5⟩] ⟨⟨.array, ⟨1, 1⟩⟩, .array ⟨1⟩, by cbv, by cbv, rfl⟩ (by cbv)
      (by decide)

end Session
end ScriptHeap
