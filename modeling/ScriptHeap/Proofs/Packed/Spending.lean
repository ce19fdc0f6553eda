import ScriptHeap.Proofs.Packed.Reading

/-!
# Elements and the bytes they take

The counts in front of elements may be anything, but an element is there only when its bytes were
read, and each has a tag at least.  So what is read never has more elements, at all depths together,
than bytes were taken from the stream, and neither have the data that were complete before an error.

## What is here

* `Stream.Ahead` — one position in a stream lies at least some bytes behind another.
* `Spends` — a reader takes at least so many bytes as its result costs, and its failure, too;
  `spends_decode` for the decoder.
* `consumed` — the number of bytes that are read of a packed value.
-/

set_option autoImplicit false
namespace ScriptHeap

variable {Obj : Type} {α β : Type}

namespace Packed

/-! ## Positions in a stream -/

/-- The second position lies behind the first, with so many bytes in between at least. -/
structure Stream.Ahead (s : Stream) (n : Nat) (t : Stream) : Prop where
  consumed : s.consumed + n ≤ t.consumed
  total : t.consumed + t.remaining = s.consumed + s.remaining

namespace Stream.Ahead

variable {s t u : Stream} {m n : Nat}

theorem refl (s : Stream) : s.Ahead 0 s :=
  ⟨Nat.le_refl _, rfl⟩

theorem mono (h : s.Ahead n t) (hle : m ≤ n) : s.Ahead m t :=
  ⟨Nat.le_trans (Nat.add_le_add_left hle _) h.consumed, h.total⟩

theorem trans (h : s.Ahead m t) (k : t.Ahead n u) : s.Ahead (m + n) u where
  consumed := by
    have := h.consumed
    have := k.consumed
    omega
  total := k.total.trans h.total

theorem of_past {bs : List UInt8} (h : s.Past bs t) : s.Ahead bs.length t where
  consumed := Nat.le_of_eq h.consumed.symm
  total := by
    rw [h.consumed, Stream.remaining, Stream.remaining, h.bytes, List.length_append, Nat.add_assoc]

end Stream.Ahead

/-! ## Readers and what they take -/

/-- A reader takes at least so many bytes as its result costs.  When it gives up, it has taken one
for each element of the data that were complete. -/
def Spends (act : Decoder Obj α) (cost : α → Nat) : Prop :=
  ∀ s, Ends act s (fun a t ↦ s.Ahead (cost a) t) fun failure t ↦
    s.Ahead (Datum.innerParts failure.completed) t

namespace Spends

variable {act : Decoder Obj α} {f : α → Decoder Obj β} {cost : α → Nat} {cost' : β → Nat} {n : Nat}

theorem mono {less : α → Nat} (h : Spends act cost) (hle : ∀ a, less a ≤ cost a) :
    Spends act less :=
  fun s ↦ (h s).mono (fun a _ hs ↦ hs.mono (hle a)) fun _ _ hs ↦ hs

theorem pure (a : α) : Spends (Pure.pure a : Decoder Obj α) fun _ ↦ 0 :=
  fun s ↦ .pure (.refl s)

theorem refuse (cause : DecodeError) (cost : α → Nat) :
    Spends (Packed.refuse cause : Decoder Obj α) cost :=
  fun s ↦ .throw (.refl s)

/-- **One reading after another.**  What the first takes goes to the account of the second. -/
theorem bind (h : Spends act fun _ ↦ n) (hf : ∀ a, Spends (f a) cost') :
    Spends (act >>= f) fun b ↦ n + cost' b := by
  refine fun s ↦ (h s).bind fun a t ht ↦ (hf a t).mono (fun b u hu ↦ ht.trans hu) fun e u hu ↦ ?_
  exact (ht.trans hu).mono (Nat.le_add_left _ _)

/-- The same where the account does not matter. -/
theorem bindFree (h : Spends act fun _ ↦ n) (hf : ∀ a, Spends (f a) cost') :
    Spends (act >>= f) cost' :=
  (h.bind hf).mono fun _ ↦ Nat.le_add_left _ _

end Spends

/-! ## Numbers and texts -/

theorem spends_takeBytes (n : Nat) : Spends (takeBytes n : Decoder Obj (List UInt8)) fun _ ↦ n := by
  intro s
  rw [Ends, takeBytes_eq]
  by_cases hn : n ≤ s.remaining
  · obtain ⟨t, ht, hp⟩ := Stream.take_of_le hn
    rw [ht]
    exact (Stream.Ahead.of_past hp).mono (Nat.le_of_eq (List.length_take_of_le hn).symm)
  · rw [Stream.take, Stream.splitChunks?_of_lt (Nat.lt_of_not_le hn)]
    exact ⟨Nat.le_add_right _ _, rfl⟩

theorem spends_takeNumber (width : Nat) :
    Spends (takeNumber width : Decoder Obj Nat) fun _ ↦ width :=
  (spends_takeBytes width).bind fun _ ↦ .pure _

theorem spends_takeText : Spends (takeText : Decoder Obj String) fun _ ↦ 0 := by
  refine (spends_takeNumber 4).bindFree fun n ↦ (spends_takeBytes n).bindFree fun bytes ↦ ?_
  split
  · exact .pure _
  · exact .refuse _ _

theorem spends_takeTexts (n : Nat) (read : List String) :
    Spends (takeTexts n read : Decoder Obj (List String)) fun _ ↦ 0 := by
  induction n generalizing read with
  | zero => exact .pure _
  | succ n ih => exact spends_takeText.bindFree fun s ↦ ih (s :: read)

/-! ## Values -/

variable {inner : Decoder Obj (Datum Obj)}

/-- **A counted reading of elements.**  Each of them takes a byte more than its own elements do. -/
theorem spends_takeData (h : Spends inner fun d ↦ d.parts + 1) (n : Nat)
    (read : List (Datum Obj)) (s : Stream) {first : Stream}
    (hs : first.Ahead (Datum.partsOfAll read) s) :
    Ends (takeData inner n read) s (fun ds t ↦ first.Ahead (Datum.partsOfAll ds) t)
      fun failure t ↦ first.Ahead (Datum.innerParts failure.completed) t := by
  induction n generalizing read s with
  | zero =>
    refine .pure ?_
    rwa [Datum.partsOfAll_reverse]
  | succ n ih =>
    refine Ends.bind ((h s).tryCatch fun failure t ht ↦ .throw ?_) fun d t ht ↦ ih (d :: read) t ?_
    · refine (hs.trans ht).mono ?_
      rw [Datum.innerParts_append, Datum.innerParts_reverse, Datum.partsOfAll_eq]
      omega
    · refine (hs.trans ht).mono (Nat.le_of_eq ?_)
      rw [Datum.partsOfAll, Nat.add_comm]

theorem spends_takeArray (h : Spends inner fun d ↦ d.parts + 1) :
    Spends (takeArray inner) Datum.parts := by
  refine fun s ↦ Ends.bind (spends_takeNumber 4 s) fun n t ht ↦ ?_
  refine Ends.bind (spends_takeData h n [] t (ht.mono (Nat.zero_le _))) fun ds u hu ↦ ?_
  exact .pure hu

theorem spends_takeNames (ds : List (Datum Obj)) :
    Spends (takeNames ds : Decoder Obj (List String)) fun _ ↦ 0 := by
  refine (spends_takeNumber 4).bindFree fun count ↦ ?_
  split
  · exact spends_takeTexts count []
  · exact .refuse _ _

theorem spends_takeStruct (h : Spends inner fun d ↦ d.parts + 1) :
    Spends (takeStruct inner) Datum.parts := by
  rw [takeStruct_eq]
  refine fun s ↦ Ends.bind (spends_takeNumber 4 s) fun n t ht ↦ ?_
  refine Ends.bind (spends_takeData h n [] t (ht.mono (Nat.zero_le _))) fun ds u hu ↦ ?_
  -- the names that follow cost nothing, and the elements are complete if they fail
  have hnames : Ends (takeNames ds >>= fun names ↦ pure (Datum.struct (names.zip ds) [])) u
      (fun d v ↦ s.Ahead d.parts v)
      fun failure v ↦ u.Ahead (Datum.innerParts failure.completed) v :=
    Ends.bind (spends_takeNames ds u) fun names v hv ↦
      .pure ((hu.trans hv).mono (Datum.parts_zip_le names ds))
  refine hnames.tryCatch fun failure v hv ↦ .throw ((hu.trans hv).mono ?_)
  rw [Datum.innerParts_append, Datum.partsOfAll_eq]
  omega

theorem spends_scalar (x : Scalar Obj) :
    Spends (pure (.scalar x) : Decoder Obj (Datum Obj)) Datum.parts :=
  fun s ↦ .pure (.refl s)

theorem spends_takeBody {inner : Option (Decoder Obj (Datum Obj))}
    (h : ∀ act, inner = some act → Spends act fun d ↦ d.parts + 1) (kind : Kind) :
    Spends (takeBody inner kind) Datum.parts := by
  cases kind with
  | integer => exact (spends_takeNumber 4).bindFree fun n ↦ spends_scalar _
  | double => exact (spends_takeNumber 8).bindFree fun n ↦ spends_scalar _
  | string => exact spends_takeText.bindFree fun t ↦ spends_scalar _
  | error => exact spends_takeText.bindFree fun t ↦ spends_scalar _
  | array =>
    cases inner with
    | none => exact .refuse _ _
    | some act => exact spends_takeArray (h act rfl)
  | struct =>
    cases inner with
    | none => exact .refuse _ _
    | some act => exact spends_takeStruct (h act rfl)
  | _ => exact spends_scalar _

/-- The tag is the byte that each value takes besides its elements. -/
theorem spends_takeValue {inner : Option (Decoder Obj (Datum Obj))}
    (h : ∀ act, inner = some act → Spends act fun d ↦ d.parts + 1) :
    Spends (takeValue inner) fun d ↦ d.parts + 1 := by
  refine ((spends_takeNumber 1).bind fun n ↦ (?_ : Spends _ Datum.parts)).mono
    fun d ↦ Nat.le_of_eq (Nat.add_comm _ _)
  dsimp only
  split
  · exact .refuse _ _
  · split
    · exact spends_takeBody h _
    · exact .refuse _ _

theorem spends_takeNested (levels : Nat) :
    Spends (takeNested levels : Decoder Obj (Datum Obj)) fun d ↦ d.parts + 1 := by
  induction levels with
  | zero => exact spends_takeValue nofun
  | succ levels ih =>
    refine spends_takeValue fun act hact ↦ ?_
    cases hact
    exact ih

/-- **A value takes more bytes than it has elements**, and what is complete before an error has
taken as many. -/
theorem spends_decode : Spends (decode : Decoder Obj (Datum Obj)) fun d ↦ d.parts + 1 :=
  spends_takeNested nestingLimit

/-! ## Packed values -/

/-- How many bytes are read of those that are to hold a value: up to its end, or up to where there
is something wrong with them. -/
def consumed (Obj : Type) (bytes : List UInt8) : Nat :=
  match (decode : Decoder Obj (Datum Obj)) (.ofBytes bytes) with
  | .ok _ rest => rest.consumed
  | .error _ rest => rest.consumed

variable (Obj) in
theorem ends_decode (bytes : List UInt8) :
    Ends (decode : Decoder Obj (Datum Obj)) (.ofBytes bytes)
      (fun d t ↦ d.parts + 1 ≤ t.consumed ∧ t.consumed ≤ bytes.length) fun failure t ↦
        Datum.innerParts failure.completed ≤ t.consumed ∧ t.consumed ≤ bytes.length := by
  have hle {n : Nat} {t : Stream} (h : (Stream.ofBytes bytes).Ahead n t) :
      n ≤ t.consumed ∧ t.consumed ≤ bytes.length := by
    have hstart : (Stream.ofBytes bytes).consumed = 0 := rfl
    have hall : (Stream.ofBytes bytes).remaining = bytes.length := by
      rw [Stream.remaining, Stream.bytes_ofBytes]
    have hconsumed := h.consumed
    have htotal := h.total
    omega
  exact (spends_decode (.ofBytes bytes)).mono (fun _ _ h ↦ hle h) fun _ _ h ↦ hle h

theorem consumed_le (bytes : List UInt8) : consumed Obj bytes ≤ bytes.length := by
  have hends := ends_decode Obj bytes
  unfold Ends at hends
  unfold consumed
  split
  all_goals rename_i hrun; rw [hrun] at hends; exact hends.2

end Packed
end ScriptHeap
