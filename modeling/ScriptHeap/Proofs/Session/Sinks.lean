import ScriptHeap.Host.Sample
import ScriptHeap.Proofs.Packed.Sinks
import ScriptHeap.Proofs.Session.Scene

/-!
# Values of a session in sinks that run full

A value that a session holds is written straight to a sink, and the sink may run full on the way.
Writing only reads: whatever became of it, the value is there as it was and can be written again.

## What is here

* `shownIn?`, `datumIn?`, `withRegister` — what is in a value register, and an operation on it
  written out.
* `packOnto`, `packThrough` — the value of an operand written to a sink, or to any other outlet.
* `pack_limited` — of a value that can be packed, a sink gets as much as it has room for.
-/

set_option autoImplicit false
namespace ScriptHeap
namespace Session

open Packed

variable {Obj : Type}

/-- Nothing is held, so nothing is let go. -/
theorem during_nil {α : Type} (act : SessionM Obj α) (s : Session Obj) :
    during [] act s = act s := by
  have hletGo (t : Session Obj) : (letGo [] : SessionM Obj Unit) t = .ok () t := rfl
  cases hact : act s with
  | ok a t =>
    have hholding : holding [] act s = .ok a t := tryCatch_of_ok hact
    exact (bind_of_ok hholding).trans (bind_of_ok (hletGo t))
  | error e t =>
    have hholding : holding [] act s = .error e t :=
      (tryCatch_of_error hact).trans (bind_of_ok (hletGo t))
    exact bind_of_error hholding

/-- The value that a value register shows. -/
def shownIn? (s : Session Obj) (name : String) : Option (Value Obj) :=
  match s.values.get? name with
  | some (.own v) => some v
  | some (.snapshot b) => s.heap.valueAt? b
  | none => some .uninit

/-- What is in a value register, written out. -/
def datumIn? (s : Session Obj) (name : String) : Option (Datum Obj) :=
  (s.shownIn? name).bind s.heap.datum?

variable [HostObject Obj]

/-! ## Values of registers -/

/-- A look at what a value register shows. -/
theorem operandValue_register (s : Session Obj) (name : String) :
    operandValue (.register name) s =
      match s.shownIn? name with
      | some v => .ok (v, []) s
      | none => .error .dangling s := by
  have hget : (get : SessionM Obj (Session Obj)) s = .ok s s := rfl
  rw [operandValue, bind_of_ok hget, shownIn?]
  cases s.values.get? name with
  | none => rfl
  | some x =>
    cases x with
    | own v => rfl
    | snapshot b =>
      simp only
      cases hb : s.heap.valueAt? b with
      | some v => exact bind_of_ok (onHeap_of_ok (Heap.look_eq hb))
      | none => exact bind_of_error (onHeap_of_error (Heap.look_of_none hb))

/-- **An operation on what is in a value register**, written out.  Besides it nothing happens. -/
theorem withRegister {α : Type} (act : Datum Obj → SessionM Obj α) (s : Session Obj)
    (name : String) :
    (withOperand (.register name) fun v ↦ written v >>= act) s =
      match s.datumIn? name with
      | some d => act d s
      | none => .error .dangling s := by
  have hvalue := s.operandValue_register name
  rw [withOperand, datumIn?]
  cases hv : s.shownIn? name with
  | none =>
    simp only [hv] at hvalue
    exact bind_of_error hvalue
  | some v =>
    simp only [hv] at hvalue
    refine (bind_of_ok hvalue).trans ((during_nil _ s).trans ?_)
    rw [Option.bind_some]
    cases hd : s.heap.datum? v with
    | none => exact bind_of_error (onHeap_of_error (Heap.look_of_none hd))
    | some d => exact bind_of_ok (onHeap_of_ok (Heap.look_eq hd))

/-! ## Writing them -/

/-- Writes the value of an operand to a sink. -/
def packOnto (x : Operand Obj) (t : Sink) : SessionM Obj (Except WriteError Unit × Sink) :=
  withOperand x fun v ↦ do return (← written v).packOnto t

/-- Writes the value of an operand to an outlet. -/
def packThrough {ε σ : Type} (x : Operand Obj) (o : Outlet ε σ) (u : σ) :
    SessionM Obj (EStateM.Result (Stop ε) σ Unit) :=
  withOperand x fun v ↦ do return (← written v).packThrough o u

variable {s : Session Obj} {name : String} {bytes : List UInt8}

omit [HostObject Obj] in
/-- What the packed form of a value is answered with. -/
def packAnswer (d : Datum Obj) : Answer Obj :=
  match d.pack with
  | .ok bytes => .bytes bytes
  | .error e => .packFailure e

/-- Packing what is in a value register. -/
theorem step_pack (s : Session Obj) (name : String) :
    s.step (.pack (.register name)) =
      (((s.datumIn? name).map packAnswer).getD (.fault .dangling), s) := by
  have happly : apply (.pack (.register name)) s = _ := s.withRegister
    (fun d ↦ match d.pack with
      | .ok bytes => (return .bytes bytes : SessionM Obj (Answer Obj))
      | .error e => return .packFailure e) name
  rw [step, happly]
  cases s.datumIn? name with
  | none => rfl
  | some d =>
    simp only [Option.map_some, Option.getD_some, packAnswer]
    cases d.pack with
    | ok bytes => rfl
    | error e => rfl

/-- A value register whose value can be packed. -/
theorem exists_datumIn? (hpack : (s.step (.pack (.register name))).1 = .bytes bytes) :
    ∃ d, s.datumIn? name = some d ∧ d.Fits ∧ d.packed = bytes := by
  rw [step_pack] at hpack
  cases hd : s.datumIn? name with
  | none =>
    rw [hd] at hpack
    cases hpack
  | some d =>
    rw [hd, Option.map_some, Option.getD_some, packAnswer] at hpack
    cases hbytes : d.pack with
    | error e =>
      rw [hbytes] at hpack
      cases hpack
    | ok bs =>
      rw [hbytes] at hpack
      cases hpack
      exact ⟨d, rfl, Datum.pack_eq_ok_iff.1 hbytes⟩

/-- **A sink that runs full has a prefix of the packed form.**  Let a value have a packed form.  A
sink with room for so many bytes has in the end the first bytes of this form, as many as it has
room for, and writing fails exactly if these are not all, with the error of the sink.  So it is with
every outlet that has a limit, in whatever portions it takes what it is offered and whatever its
error is.  The session is as it was, so that packing the value once more gives the whole form. -/
theorem pack_limited (hpack : (s.step (.pack (.register name))).1 = .bytes bytes) :
    (s.step (.pack (.register name))).2 = s ∧
    (∀ taken room, packOnto (.register name) ⟨taken, some room⟩ s =
      .ok (if bytes.length ≤ room then .ok () else .error .full,
        ⟨taken ++ bytes.take room, some (room - bytes.length)⟩) s) ∧
    ∀ {ε σ : Type} (o : Outlet ε σ) (full : ε) (stands : σ → List UInt8 → Nat → Prop),
      o.Limited full stands → ∀ u taken room, stands u taken room →
        ∃ t, packThrough (.register name) o u s =
            .ok (if bytes.length ≤ room then .ok () t else .error (.failed full) t) s ∧
          stands t (taken ++ bytes.take room) (room - bytes.length) := by
  obtain ⟨d, hd, hfits, rfl⟩ := exists_datumIn? hpack
  refine ⟨by rw [step_pack], fun taken room ↦ ?_, fun o full stands ho u taken room hu ↦ ?_⟩
  · refine (s.withRegister (fun d ↦ return d.packOnto ⟨taken, some room⟩) name).trans ?_
    rw [hd, ← Datum.packOnto_limited hfits]
    rfl
  · obtain ⟨t, ht, hstands⟩ := Datum.packThrough_limited hfits ho hu
    refine ⟨t, ?_, hstands⟩
    refine (s.withRegister (fun d ↦ return d.packThrough o u) name).trans ?_
    rw [hd, ← ht]
    rfl

/-- A struct with one member, in a value register. -/
def keptStruct : Session SampleObject :=
  ((start ⟨false, ⟨4, none⟩⟩).run
    [.copy (.literal (.struct [("a", .scalar (.integer 7))] [])) "v"]).2

/-- The packed form of a struct, of nineteen bytes, in a sink with room for twelve.  They are taken
whether it is written as it is or byte by byte. -/
theorem pack_limited_struct :
    (keptStruct.step (.pack (.register "v"))).1 =
        .bytes [10, 1, 0, 0, 0, 3, 7, 0, 0, 0, 1, 0, 0, 0, 1, 0, 0, 0, 97] ∧
      packOnto (.register "v") (.ofRoom 12) keptStruct =
        .ok (.error .full, ⟨#[10, 1, 0, 0, 0, 3, 7, 0, 0, 0, 1, 0], some 0⟩) keptStruct ∧
      packThrough (.register "v") (Sink.offer.inPortions 1) (.ofRoom 12) keptStruct =
        .ok (.error (.failed .full) ⟨#[10, 1, 0, 0, 0, 3, 7, 0, 0, 0, 1, 0], some 0⟩)
          keptStruct := by
  have hpack : (keptStruct.step (.pack (.register "v"))).1 =
      .bytes [10, 1, 0, 0, 0, 3, 7, 0, 0, 0, 1, 0, 0, 0, 1, 0, 0, 0, 97] := rfl
  obtain ⟨-, honto, hthrough⟩ := pack_limited hpack
  have hlimited := Sink.limited_offer.inPortions Nat.one_pos
  obtain ⟨_, ht, rfl⟩ := hthrough _ _ _ hlimited (.ofRoom 12) [] 12 rfl
  exact ⟨hpack, honto #[] 12, ht⟩

end Session
end ScriptHeap
