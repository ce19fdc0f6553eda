import ScriptHeap.Proofs.Outcome
import ScriptHeap.Proofs.Packed.Writing

/-!
# Packed values in sinks that run full

Writing a packed value is a sequence of many small writes, and a sink may run full in the middle of
any of them.  Nothing is written after that, so what the sink has is a prefix of the packed form, as
long as its room.  It makes no difference how the sink goes about it: it may take a write as a
whole, byte by byte or in other portions, and when it has room for a part of a write only, it may
take this part and fail at once or when it is asked again.

## What is here

* `Outlet`, `Outlet.writeBytes`, `Outlet.writePieces` — anything that bytes can be offered to, and
  writing to it.
* `Outlet.Limited` — it has room for so many bytes and then fails with an error of its own.
* `Outlet.Fills` — what it has in the end, and whether it failed.
* `Outlet.inPortions`, `Sink.offer` — outlets like that: in portions, and the sinks that take each
  write as far as it fits.
* `Sink.writeAll_limited` — writing to these sinks.
* `Datum.packThrough_limited`, `Datum.packOnto_limited`, the payoff.
-/

set_option autoImplicit false
namespace ScriptHeap
namespace Packed

variable {ε σ : Type}

/-! ## Outlets -/

/-- What bytes can be offered to.  It takes some of them, from the first on, and tells how many, or
it fails. -/
abbrev Outlet (ε σ : Type) :=
  List UInt8 → EStateM ε σ Nat

/-- Why writing to an outlet stopped. -/
inductive Stop (ε : Type) where
  /-- A text or container is too long for its length to be written. -/
  | oversized (length : Nat)
  /-- The outlet took nothing of what it was offered. -/
  | idle
  /-- The outlet failed. -/
  | failed (e : ε)
  deriving Repr

namespace Outlet

/-- Offers bytes until all of them are taken.  When none are left, nothing is offered. -/
def writeBytes (o : Outlet ε σ) (bs : List UInt8) : EStateM (Stop ε) σ Unit := fun s ↦
  if bs = [] then .ok () s
  else
    match o bs s with
    | .ok 0 t => .error .idle t
    | .ok (n + 1) t => o.writeBytes (bs.drop (n + 1)) t
    | .error e t => .error (.failed e) t
termination_by bs.length
decreasing_by
  have hpos : 0 < bs.length := List.length_pos_iff.2 ‹_›
  rw [List.length_drop]
  omega

/-- Writes pieces up to the first that fails. -/
def writePieces (o : Outlet ε σ) : List Piece → EStateM (Stop ε) σ Unit
  | [] => return ()
  | .oversized n :: _ => throw (.oversized n)
  | .bytes bs :: ps => do
    o.writeBytes bs
    o.writePieces ps

/-- An outlet has room for so many bytes and then fails with a certain error.  The relation says
what it has taken and how much room is left.  Of what it is offered it takes some bytes, not more
than there is room for; or there are more than that, and it takes those that fit and fails. -/
def Limited (o : Outlet ε σ) (full : ε) (stands : σ → List UInt8 → Nat → Prop) : Prop :=
  ∀ bs s taken room, bs ≠ [] → stands s taken room →
    (∃ n t, o bs s = .ok n t ∧ 0 < n ∧ n ≤ bs.length ∧ n ≤ room ∧
      stands t (taken ++ bs.take n) (room - n)) ∨
    (room < bs.length ∧ ∃ t, o bs s = .error full t ∧ stands t (taken ++ bs.take room) 0)

variable {o : Outlet ε σ} {full : ε} {stands : σ → List UInt8 → Nat → Prop} {bs taken : List UInt8}
  {room n : Nat} {s t : σ} {r : EStateM.Result (Stop ε) σ Unit}

/-- How writing ends where there is room for so many bytes: those that fit have been taken, and it
has failed if these are not all. -/
def Fills (full : ε) (stands : σ → List UInt8 → Nat → Prop) (bs taken : List UInt8) (room : Nat)
    (r : EStateM.Result (Stop ε) σ Unit) : Prop :=
  ∃ t, r = (if bs.length ≤ room then .ok () t else .error (.failed full) t) ∧
    stands t (taken ++ bs.take room) (room - bs.length)

/-- What is left to be written after the first bytes were taken. -/
theorem Fills.after (hn : n ≤ bs.length) (hroom : n ≤ room)
    (h : Fills full stands (bs.drop n) (taken ++ bs.take n) (room - n) r) :
    Fills full stands bs taken room r := by
  obtain ⟨t, hr, ht⟩ := h
  have htake : bs.take room = bs.take n ++ (bs.drop n).take (room - n) := by
    rw [← List.take_add, Nat.add_sub_cancel' hroom]
  have hfits : (bs.length - n ≤ room - n) = (bs.length ≤ room) := propext (by omega)
  simp only [List.length_drop, hfits] at hr
  refine ⟨t, hr, ?_⟩
  rw [List.length_drop] at ht
  rwa [htake, ← List.append_assoc, show room - bs.length = room - n - (bs.length - n) by omega]

/-- The last bytes that fit are taken. -/
theorem Fills.last (hroom : room < bs.length) (ht : stands t (taken ++ bs.take room) 0) :
    Fills full stands bs taken room (.error (.failed full) t) :=
  ⟨t, (if_neg (by omega)).symm, by rwa [Nat.sub_eq_zero_of_le (Nat.le_of_lt hroom)]⟩

/-- Bytes are written as far as there is room, in whatever portions they are taken. -/
theorem Limited.writeBytes (ho : o.Limited full stands) (hs : stands s taken room) :
    Fills full stands bs taken room (o.writeBytes bs s) := by
  induction hlen : bs.length using Nat.strongRecOn generalizing bs s taken room with
  | ind len ih =>
    rw [Outlet.writeBytes]
    split
    · rename_i hnil
      subst hnil
      exact ⟨s, rfl, by simpa using hs⟩
    · rename_i hne
      rcases ho bs s taken room hne hs with
        ⟨n, t, hoffer, hpos, hn, hroom, ht⟩ | ⟨hroom, t, hoffer, ht⟩
      · obtain ⟨m, rfl⟩ := Nat.exists_eq_add_one.2 hpos
        rw [hoffer]
        refine Fills.after hn hroom (ih _ ?_ ht rfl)
        rw [List.length_drop]
        omega
      · rw [hoffer]
        exact .last hroom ht

/-- **So are pieces**, one after another, unless a length among them is too long. -/
theorem Limited.writePieces (ho : o.Limited full stands) {ps : List Piece}
    (hps : firstOversized? ps = none) (hs : stands s taken room) :
    Fills full stands (spelling ps) taken room (o.writePieces ps s) := by
  induction ps generalizing s taken room with
  | nil => exact ⟨s, rfl, by simpa using hs⟩
  | cons p ps ih =>
    cases p with
    | oversized n => cases hps
    | bytes bs =>
      rw [firstOversized?_cons_bytes] at hps
      rw [Outlet.writePieces, spelling_cons_bytes]
      obtain ⟨t, hwrite, ht⟩ : Fills full stands bs taken room (o.writeBytes bs s) :=
        ho.writeBytes hs
      by_cases hroom : bs.length ≤ room
      · rw [if_pos hroom] at hwrite
        rw [List.take_of_length_le hroom] at ht
        rw [bind_of_ok hwrite]
        refine Fills.after (n := bs.length) (by simp) hroom ?_
        rw [List.take_left, List.drop_left]
        exact ih hps ht
      · rw [if_neg hroom] at hwrite
        rw [bind_of_error hwrite]
        have hlt := Nat.lt_of_not_le hroom
        rw [Nat.sub_eq_zero_of_le (Nat.le_of_lt hlt)] at ht
        refine .last (Nat.lt_of_lt_of_le hlt (by simp)) ?_
        rwa [List.take_append_of_le_length (Nat.le_of_lt hlt)]

/-- An outlet that is offered no more than so many bytes at once. -/
def inPortions (o : Outlet ε σ) (size : Nat) : Outlet ε σ :=
  fun bs ↦ o (bs.take size)

/-- In portions the same bytes fit. -/
theorem Limited.inPortions (ho : o.Limited full stands) {size : Nat} (hsize : 0 < size) :
    (o.inPortions size).Limited full stands := by
  intro bs s taken room hne hs
  have hlen : (bs.take size).length = min size bs.length := List.length_take
  have hportion : bs.take size ≠ [] := by simp [hne, Nat.ne_of_gt hsize]
  rcases ho (bs.take size) s taken room hportion hs with
    ⟨n, t, hoffer, hpos, hn, hroom, ht⟩ | ⟨hroom, t, hoffer, ht⟩
  · rw [List.take_take, Nat.min_eq_left (by omega)] at ht
    exact .inl ⟨n, t, hoffer, hpos, by omega, hroom, ht⟩
  · rw [List.take_take, Nat.min_eq_left (by omega)] at ht
    exact .inr ⟨by omega, t, hoffer, ht⟩

end Outlet

/-! ## Sinks -/

namespace Sink

theorem write_limited (taken : Array UInt8) (room : Nat) (bs : List UInt8) :
    write ⟨taken, some room⟩ bs =
      if bs.length ≤ room then (.ok (), ⟨taken ++ bs, some (room - bs.length)⟩)
      else (.error .full, ⟨taken ++ bs.take room, some 0⟩) :=
  rfl

/-- A sink as an outlet: it takes what fits, and fails unless this is all. -/
def offer : Outlet WriteError Sink := fun bs s ↦
  match s.write bs with
  | (.ok (), t) => .ok bs.length t
  | (.error e, t) => .error e t

/-- What a sink with a limit has taken, and the room it has left. -/
def Stands (s : Sink) (taken : List UInt8) (room : Nat) : Prop :=
  s = ⟨taken.toArray, some room⟩

theorem limited_offer : offer.Limited .full Stands := by
  rintro bs _ taken room hne rfl
  rw [offer, write_limited]
  by_cases hroom : bs.length ≤ room
  · have hpos := List.length_pos_iff.2 hne
    rw [if_pos hroom]
    exact .inl ⟨bs.length, _, rfl, hpos, Nat.le_refl _, hroom, by simp [Stands]⟩
  · rw [if_neg hroom]
    exact .inr ⟨Nat.lt_of_not_le hroom, _, rfl, by simp [Stands]⟩

/-- Writing to a sink with room for so many bytes. -/
theorem writeAll_limited {ps : List Piece} (hps : firstOversized? ps = none) (taken : Array UInt8)
    (room : Nat) :
    writeAll ⟨taken, some room⟩ ps =
      (if (spelling ps).length ≤ room then .ok () else .error .full,
        ⟨taken ++ (spelling ps).take room, some (room - (spelling ps).length)⟩) := by
  induction ps generalizing taken room with
  | nil => simp [writeAll]
  | cons p ps ih =>
    cases p with
    | oversized n => cases hps
    | bytes bs =>
      rw [firstOversized?_cons_bytes] at hps
      rw [writeAll, write_limited, spelling_cons_bytes, List.length_append]
      by_cases hroom : bs.length ≤ room
      · have hfits : ((spelling ps).length ≤ room - bs.length) =
            (bs.length + (spelling ps).length ≤ room) := propext (by omega)
        have htake : taken ++ bs ++ (spelling ps).take (room - bs.length) =
            taken ++ (bs ++ spelling ps).take room :=
          Array.ext' (by simp [List.take_append, List.take_of_length_le hroom])
        simp only [if_pos hroom, ih hps, htake, Nat.sub_sub, hfits]
      · have hlt := Nat.lt_of_not_le hroom
        have hover : ¬ bs.length + (spelling ps).length ≤ room := by omega
        simp only [if_neg hroom, if_neg hover]
        rw [List.take_append_of_le_length (Nat.le_of_lt hlt), Nat.sub_eq_zero_of_le (by omega)]

end Sink

end Packed

open Packed

variable {ε σ Obj : Type}

namespace Datum

variable {o : Outlet ε σ} {full : ε} {stands : σ → List UInt8 → Nat → Prop} {taken : List UInt8}
  {room : Nat} {u : σ} {d : Datum Obj}

/-- Writes a value to an outlet. -/
def packThrough (d : Datum Obj) (o : Outlet ε σ) : EStateM (Stop ε) σ Unit :=
  o.writePieces d.pieces

/-- **A value is written as far as there is room**, whatever it consists of and wherever the room
ends. -/
theorem packThrough_limited (hd : d.Fits) (ho : o.Limited full stands) (hu : stands u taken room) :
    Outlet.Fills full stands d.packed taken room (d.packThrough o u) :=
  ho.writePieces (firstOversized?_pieces_eq_none_iff.2 hd) hu

@[inherit_doc packThrough_limited]
theorem packOnto_limited (hd : d.Fits) (taken : Array UInt8) (room : Nat) :
    d.packOnto ⟨taken, some room⟩ =
      (if d.packed.length ≤ room then .ok () else .error .full,
        ⟨taken ++ d.packed.take room, some (room - d.packed.length)⟩) :=
  Sink.writeAll_limited (firstOversized?_pieces_eq_none_iff.2 hd) taken room

end Datum
end ScriptHeap
