import ScriptHeap.Proofs.Heap.Owning

/-!
# Ways to what is one's own

What is to be stored must not lead back to where it is stored.  It is enough to know that it does
not lead to the variable: then it does not lead to the block and the list that the variable gets of
its own either, since nobody else has them.

## What is here

* `Heap.reaches_cases_of_valueOf?` — where the ways from a handle go.
* `Scene.onHandle` — the scene of an operation on a handle of which nothing more is known.
* `Scene.own_clears`, `Scene.ownListFor_clears` — no way is opened to a block or list made one's
  own.
* `Scene.At.ownClearing`, `Scene.At.ownListInClearing` — block and list made one's own, with that.
-/

set_option autoImplicit false
namespace ScriptHeap

variable {Obj : Type}

/-! ## Ways from handles -/

/-- A way from a handle ends there, in a block, or it goes on from what the value holds. -/
theorem Heap.reaches_cases_of_valueOf? {h : Heap Obj} {e : HandleId} {v : Value Obj} {x : Hold}
    (hv : h.valueOf? e = some v) (hreach : h.Reaches (.handle e) x) :
    x = .handle e ∨ (∃ b, x = .block b) ∨ ∃ y ∈ v.holds, h.Reaches y x := by
  obtain ⟨b, hb, hbv⟩ := Option.bind_eq_some_iff.1 hv
  obtain he | ⟨y, hy, hyx⟩ := hreach.cases_head
  · exact .inl he
  rw [Heap.holdsOf_handle hb] at hy
  obtain rfl := List.mem_singleton.1 hy
  obtain he | ⟨z, hz, hzx⟩ := hyx.cases_head
  · exact .inr (.inl ⟨b, he⟩)
  · rw [Heap.holdsOf_block hbv] at hz
    exact .inr (.inr ⟨z, hz, hzx⟩)

theorem Heap.not_block_mem_handleHolds (is : List HandleId) (b : BlockId) :
    Hold.block b ∉ handleHolds is := by
  simp [handleHolds]

/-- A cell is seen from outside without a look through another one. -/
def Heap.SeenPast (h : Heap Obj) (xs : List Hold) (x z : Hold) : Prop :=
  ∃ r ∈ xs, h.Reaches r z ∧ ¬ h.Reaches r x

/-- What certain cells lead to is as it was. -/
def Heap.Keeps (h h' : Heap Obj) (zs : List Hold) : Prop :=
  ∀ z ∈ zs, ∀ y, h.Reaches z y → h'.content? y = h.content? y

theorem Heap.Keeps.valueOf? {h h' : Heap Obj} {zs : List Hold} {e : HandleId} {v : Value Obj}
    (hk : h.Keeps h' zs) (he : .handle e ∈ zs) (hv : h.valueOf? e = some v) :
    h'.valueOf? e = some v := by
  obtain ⟨b, hb, hbv⟩ := Option.bind_eq_some_iff.1 hv
  have hhandle := hk _ he _ (.refl h _)
  have hblock := hk _ he _ ((Heap.Reaches.refl h _).next (Heap.mem_holdsOf_of_blockOf? hb))
  rw [Heap.valueOf?, Heap.blockOf?_congr hhandle, hb, Option.bind_some, Heap.valueAt?_congr hblock,
    hbv]

/-- A value that leads to what is as it was is seen as before. -/
theorem Heap.Keeps.outline {h h' : Heap Obj} {v : Value Obj} (hk : h.Keeps h' v.holds)
    (depth : Nat) : Heap.outline depth h' v = Heap.outline depth h v := by
  refine Heap.outline_of_list (fun l hl ↦ ?_) depth
  refine Heap.shape_eq_of_clear (hk _ ?_) fun _ hf ↦ hf.elim
  exact Heap.list_mem_holds hl

/-- Handles that lead to what is as it was show what they showed. -/
theorem Heap.Keeps.seen {h h' : Heap Obj} {is : List HandleId} (hk : h.Keeps h' (handleHolds is))
    (depth : Nat) : Heap.seen depth h' is = Heap.seen depth h is := by
  refine List.map_congr_left fun i hi ↦ Heap.outline_of_shape ?_
  exact Heap.shape_eq_of_clear (hk _ (List.mem_map.2 ⟨i, hi, rfl⟩)) (fun _ hf ↦ hf.elim) depth

namespace Scene

variable [HostObject Obj] {c : Scene Obj} {made : List HandleId} {xs ys zs : List Hold}
  {h : Heap Obj} {i e : HandleId} {b : BlockId} {v w : Value Obj}

/-- A handle does not lead to another one when its value does not. -/
theorem Clears.handle (hclear : c.Clears h v.holds (.handle i)) (hv : h.valueOf? e = some v)
    (hne : i ≠ e) : c.Clears h (handleHolds [e]) (.handle i) := by
  intro hac y hy hreach
  obtain rfl := List.mem_singleton.1 hy
  rcases Heap.reaches_cases_of_valueOf? hv hreach with he | ⟨b, he⟩ | ⟨y, hy, hyi⟩
  · exact hne (Hold.handle.inj he)
  · cases he
  · exact hclear hac y hy hyi

/-- New handles for the elements of a list lead nowhere that the list does not lead. -/
theorem Clears.duplicates {h' : Heap Obj} {touched : Hold → Prop} {l : ListId}
    {is js : List HandleId} (hclear : c.Clears h [.list l] (.handle i)) (ha : c.At made ys h)
    (hi : (h.content? (.handle i)).isSome) (his : h.elements? l = some is)
    (hg : h.Grows h' touched) (hnew : ∀ j ∈ js, ¬ h.Born (.handle j))
    (hjs : List.Forall₂ (fun i j ↦ ∃ b, h.blockOf? i = some b ∧ h'.blockOf? j = some b) is js) :
    c.Clears h' (handleHolds js) (.handle i) := by
  intro hac y hy hreach
  obtain ⟨j, hj, rfl⟩ := List.mem_map.1 hy
  obtain ⟨k, hk, b, hkb, hjb⟩ := Heap.exists_of_forall₂ hjs hj
  obtain he | ⟨z, hz, hzi⟩ := hreach.cases_head
  · cases he
    exact hnew i hj (ha.born hi)
  rw [Heap.holdsOf_handle hjb] at hz
  obtain rfl := List.mem_singleton.1 hz
  -- the list leads to the same block
  have helement : Hold.handle k ∈ h'.holdsOf (.list l) :=
    Heap.handle_mem_holdsOf (hg.elements? his) hk
  have hblock : Hold.block b ∈ h'.holdsOf (.handle k) :=
    Heap.mem_holdsOf_of_blockOf? (hg.blockOf? hkb)
  have hthere (z : Hold) (hz : z ∈ [Hold.list l]) : (h.content? z).isSome := by
    rw [List.mem_singleton.1 hz, Heap.content?_list.2 his]
    rfl
  exact hclear.quiet ha hthere hg.quiet hac (.list l) (List.mem_singleton_self _)
    ((((Heap.Reaches.refl h' _).next helement).next hblock).trans hzi)

/-- A handle without elements leads to no list. -/
theorem Clears.of_scalar {l : ListId} (hv : h.valueOf? e = some v) (hnone : v.holds = []) :
    c.Clears h (handleHolds [e]) (.list l) := by
  intro hac y hy hreach
  obtain rfl := List.mem_singleton.1 hy
  rcases Heap.reaches_cases_of_valueOf? hv hreach with he | ⟨b, he⟩ | ⟨y, hy, -⟩
  · cases he
  · cases he
  · rw [hnone] at hy
    cases hy

/-- A handle has a block of its own: what does not lead to the handle does not lead to the block. -/
theorem Clears.block (hclear : c.Clears h zs (.handle i)) (ha : c.At made ys h)
    (hi : h.blockOf? i = some b) (hsole : h.count (.block b) = 1) (hzs : Hold.block b ∉ zs) :
    c.Clears h zs (.block b) := by
  intro hac z hz hreach
  have hheld : Hold.block b ∈ h.holdsOf (.handle i) :=
    Heap.mem_holdsOf_of_blockOf? hi
  rcases ha.sound.reaches_holder hsole hheld hreach with rfl | hreach
  · exact hzs hz
  · exact hclear hac z hz hreach

/-- What does not lead to the block of a handle does not lead to the handle. -/
theorem Clears.holder (hclear : c.Clears h zs (.block b)) (hi : h.blockOf? i = some b) :
    c.Clears h zs (.handle i) :=
  fun hac z hz hreach ↦ hclear hac z hz (hreach.next (Heap.mem_holdsOf_of_blockOf? hi))

theorem Clears.seenPast {x : Hold} (hclear : c.Clears h zs x) (hzs : ∀ z ∈ zs, z ∈ xs) :
    c.acyclic → ∀ z ∈ zs, h.SeenPast xs x z :=
  fun hac z hz ↦ ⟨z, hzs z hz, .refl h z, hclear hac z hz⟩

/-- A value whose holds stay is seen from outside. -/
theorem Clears.seenPast_of_given (hclear : c.Clears h v.holds (.handle i)) (ha : c.At made ys h)
    (hv : c.Given ys v) :
    c.acyclic → ∀ y ∈ v.holds, h.SeenPast (handleHolds made ++ (ys ++ c.outside)) (.handle i) y := by
  intro hac y hy
  rcases hv y hy with hmem | ⟨b, hb, hmem⟩
  · exact ⟨y, List.mem_append_right _ hmem, .refl h y, hclear hac y hy⟩
  · -- the block that holds it holds nothing else
    obtain ⟨k, hk, hyk⟩ := (Heap.mem_holdsOf y).1 hmem
    obtain ⟨n, hn⟩ := Heap.exists_cell?_of_content? hk
    have hlooks : c.Looks h (.block b) :=
      ⟨fun j hj ↦ (nomatch hj), Heap.born_of_cell? c.sound.tidy hn, .inl hb⟩
    rw [← ha.holdsOf hlooks (.here fun j hj ↦ nomatch hj)] at hmem
    refine ⟨.block b, List.mem_append_right _ (List.mem_append_right _ hb),
      (Heap.Reaches.refl h _).next hmem, fun hreach ↦ ?_⟩
    obtain he | ⟨z, hz, hzi⟩ := hreach.cases_head
    · cases he
    · exact hclear hac y hy (Heap.eq_of_mem_holdsOf_block hmem hz ▸ hzi)

/-! ## Nothing but a handle -/

/-- The scene of an operation on a handle of which nothing more is known: all that is held from
outside is seen past the handle. -/
def onHandle (hs : h.Sound xs) (i : HandleId) : Scene Obj :=
  { ofHeap hs (· = i) with
    acyclic := False
    acyclic_before := False.elim
    tied_before := fun _ _ ↦ False.elim }

theorem At.onHandle (hs : h.Sound xs) (i : HandleId) : (Scene.onHandle hs i).At [] [] h :=
  .start (.refl _)

theorem Calm.onHandle (hs : h.Sound xs) (i : HandleId) : (Scene.onHandle hs i).Calm h :=
  calm_before fun _ _ ↦ False.elim

/-- What does not lead to a handle is seen past it. -/
theorem Remote.ofHeap {y : Hold} (hs : h.Sound xs) (hy : y ∈ xs)
    (hclear : ¬ h.Reaches y (.handle i)) : (Scene.ofHeap hs (· = i)).Remote y where
  spared _ _ := trivial
  born := hs.born_of_mem hy
  held := hy
  apart j hj := by
    rw [show j = i from hj]
    exact hclear

@[inherit_doc Remote.ofHeap]
theorem Remote.onHandle {y : Hold} (hs : h.Sound xs) (hy : y ∈ xs)
    (hclear : ¬ h.Reaches y (.handle i)) : (Scene.onHandle hs i).Remote y :=
  { Remote.ofHeap hs hy hclear with }

/-- What is seen from outside past the variables that may be written keeps all that it leads to. -/
theorem At.keeps (ha : c.At made ys h)
    (hzs : ∀ z ∈ zs, ∃ r, c.Remote r ∧ c.before.Reaches r z) : c.before.Keeps h zs := by
  intro z hz y hy
  obtain ⟨r, hr, hrz⟩ := hzs z hz
  exact ha.kept r (hr.looks h) y (hr.clear (hrz.trans hy))

/-- To make the block of a handle its own opens no way to it. -/
theorem own_clears (hs : h.Sound xs) (hi : Hold.handle i ∈ xs)
    (hzs : ∀ z ∈ zs, h.SeenPast xs (.handle i) z) :
    Ends (Heap.own i) h (fun b h' ↦ (∀ z ∈ zs, ¬ h'.Reaches z (.block b)) ∧ h.Keeps h' zs)
      fun _ _ ↦ True := by
  have ha := At.onHandle hs i
  obtain ⟨_, v, -, -, hv⟩ := ha.exists_value (hs.isSome_of_mem hi)
  refine (ha.own (.onHandle hs i) (List.mem_append_right _ hi) (free_of_blocked rfl h) hv
    False.elim).mono ?_ fun _ _ _ ↦ trivial
  rintro b h' ⟨ha', -, -, hown, -⟩
  refine ⟨fun z hz hreach ↦ ?_, ha'.keeps fun z hz ↦ ?_⟩
  · obtain ⟨r, hr, hrz, hnot⟩ := hzs z hz
    have hremote := Remote.onHandle hs hr hnot
    have hway := ((hremote.clear hrz).congr (ha'.kept r (hremote.looks h'))).reaches
    exact ha'.not_reaches hremote hown.free (hway.trans hreach)
  · obtain ⟨r, hr, hrz, hnot⟩ := hzs z hz
    exact ⟨r, Remote.onHandle hs hr hnot, hrz⟩

/-- What does not lead to the block of a handle is seen past the handle. -/
theorem Remote.onBlock {y : Hold} (hs : h.Sound xs) (hi : h.blockOf? i = some b) (hy : y ∈ xs)
    (hclear : ¬ h.Reaches y (.block b)) : (Scene.onHandle hs i).Remote y :=
  Remote.onHandle hs hy fun hreach ↦ hclear (hreach.next (Heap.mem_holdsOf_of_blockOf? hi))

/-- To make the list of a block its own opens no way to it. -/
theorem ownListFor_clears {l : ListId} (hs : h.Sound xs) (hi : h.blockOf? i = some b)
    (hb : h.valueAt? b = some v) (hsole : h.count (.block b) = 1) (hl : v.list? = some l)
    (hzs : ∀ z ∈ zs, z ∈ xs) (hclear : ∀ z ∈ zs, ¬ h.Reaches z (.block b)) :
    Ends (Heap.ownListFor b l) h
      (fun m h' ↦ ∀ w : Value Obj, w.list? = some m →
        (∀ z ∈ zs, ¬ (h'.withValue b w).Reaches z (.list m)) ∧ h.Keeps (h'.withValue b w) zs)
      fun _ _ ↦ True := by
  have ha := At.onHandle hs i
  have hown := ha.owned (free_of_blocked rfl h) hi hb hsole ((Calm.onHandle hs i).full _)
  refine (ha.ownListFor hown ((Calm.onHandle hs i).ready v) hl).mono ?_ fun _ _ _ ↦ trivial
  intro m h' hex w hw
  obtain ⟨ha', -, -, hlist, -⟩ := hex w hw False.elim
  have hremote (z : Hold) (hz : z ∈ zs) := Remote.onBlock hs hi (hzs z hz) (hclear z hz)
  exact ⟨fun z hz ↦ ha'.not_reaches (hremote z hz) hlist.free,
    (ha'.finish False.elim).keeps fun z hz ↦ ⟨z, hremote z hz, .refl h z⟩⟩

@[inherit_doc ownListFor_clears]
theorem ownListIn_clears (hs : h.Sound xs) (hi : h.blockOf? i = some b)
    (hb : h.valueAt? b = some v) (hsole : h.count (.block b) = 1) (hzs : ∀ z ∈ zs, z ∈ xs)
    (hclear : ∀ z ∈ zs, ¬ h.Reaches z (.block b)) :
    Ends (Heap.ownListIn b) h
      (fun r h' ↦ (∀ m, r = some m → ∀ z ∈ zs, ¬ h'.Reaches z (.list m)) ∧ h.Keeps h' zs)
      fun _ _ ↦ True := by
  rw [Heap.ownListIn]
  refine Ends.after (Heap.look_eq hb) ?_
  cases hl : v.list? with
  | none => exact .pure ⟨fun m hm ↦ (by cases hm), fun _ _ _ _ ↦ rfl⟩
  | some l =>
    refine (ownListFor_clears hs hi hb hsole hl hzs hclear).bind fun m h' hm ↦ ?_
    obtain ⟨hclear', hkeeps⟩ := hm _ (Heap.list?_withList hl m)
    refine Ends.after rfl (.pure ⟨?_, hkeeps⟩)
    rintro _ ⟨⟩
    exact hclear'

/-- The own block of a handle, to which some cells do not lead. -/
theorem At.ownClearing (ha : c.At made ys h) (hcalm : c.Calm h)
    (hheld : Hold.handle i ∈ ys ++ c.outside) (hfree : c.Free h (.handle i))
    (hv : h.valueOf? i = some v) (hset : c.single → v ≠ .uninit)
    (hzs : c.acyclic → ∀ z ∈ zs, h.SeenPast (handleHolds made ++ (ys ++ c.outside)) (.handle i) z) :
    Ends (Heap.own i) h
      (fun b h' ↦ (c.At made ys h' ∧ h.Steady h' ∧ h'.blockOf? i = some b ∧ c.Owned h' b v ∧
        c.Ready h' v) ∧ c.Clears h' zs (.block b) ∧ (c.acyclic → h.Keeps h' zs))
      (c.Faults made ys) := by
  refine ((ha.own hcalm hheld hfree hv hset).andIf fun hac ↦
    own_clears ha.sound (List.mem_append_right _ hheld) (hzs hac)).mono ?_ fun _ _ hf ↦ hf
  exact fun b h' hh ↦ ⟨hh.1, fun hac ↦ (hh.2 hac).1, fun hac ↦ (hh.2 hac).2⟩

/-- The own list of a block, to which some cells do not lead. -/
theorem At.ownListForClearing {l : ListId} (ha : c.At made ys h) (ho : c.Owned h b v)
    (hready : c.Ready h v) (hl : v.list? = some l)
    (hzs : ∀ z ∈ zs, z ∈ handleHolds made ++ (ys ++ c.outside))
    (hclear : c.Clears h zs (.block b)) :
    Ends (Heap.ownListFor b l) h
      (fun m h' ↦ c.Exchanged made ys h b l v m h' ∧
        ∀ w : Value Obj, w.list? = some m → c.Clears (h'.withValue b w) zs (.list m))
      (c.Faults made ys) := by
  obtain ⟨i, hi⟩ := ho.holder
  refine ((ha.ownListFor ho hready hl).andIf fun hac ↦
    ownListFor_clears ha.sound hi ho.value ho.sole hl hzs (hclear hac)).mono ?_ fun _ _ hf ↦ hf
  exact fun m h' hh ↦ ⟨hh.1, fun w hw hac ↦ (hh.2 hac w hw).1⟩

@[inherit_doc At.ownListForClearing]
theorem At.ownListInClearing (ha : c.At made ys h) (ho : c.Owned h b v) (hready : c.Ready h v)
    (hzs : ∀ z ∈ zs, z ∈ handleHolds made ++ (ys ++ c.outside))
    (hclear : c.Clears h zs (.block b)) :
    Ends (Heap.ownListIn b) h
      (fun r h' ↦ (c.At made ys h' ∧ h.Steady h' ∧
        (∀ m, r = some m → c.OwnedList h h' b v m) ∧ (r = none → v.list? = none)) ∧
        (∀ m, r = some m → c.Clears h' zs (.list m)) ∧ (c.acyclic → h.Keeps h' zs))
      (c.Faults made ys) := by
  obtain ⟨i, hi⟩ := ho.holder
  refine ((ha.ownListIn ho hready).andIf fun hac ↦
    ownListIn_clears ha.sound hi ho.value ho.sole hzs (hclear hac)).mono ?_ fun _ _ hf ↦ hf
  exact fun r h' hh ↦ ⟨hh.1, fun m hm hac ↦ (hh.2 hac).1 m hm, fun hac ↦ (hh.2 hac).2⟩

/-! ## New handles -/

section
variable {h' : Heap Obj} {x : Hold}

/-- A handle has a value and does not lead to a cell, if no circle is to be closed. -/
def Bears (c : Scene Obj) (h : Heap Obj) (e : HandleId) (v : Value Obj) (x : Hold) : Prop :=
  c.acyclic → h.valueOf? e = some v ∧ ¬ h.Reaches (.handle e) x

theorem Bears.clears (hb : c.Bears h e v x) : c.Clears h (handleHolds [e]) x := by
  intro hac z hz
  obtain rfl := List.mem_singleton.1 hz
  exact (hb hac).2

/-- A new handle with a value that does not lead to another handle. -/
theorem Clears.bears (hclear : c.Clears h v.holds (.handle i)) (ha : c.At made ys h)
    (hthere : ∀ y ∈ v.holds, (h.content? y).isSome) (hi : (h.content? (.handle i)).isSome)
    (hadds : h.Adds h') (he : h'.valueOf? e = some v) (hnew : ¬ h.Born (.handle e)) :
    c.Bears h' e v (.handle i) := by
  have hquiet := hclear.quiet ha hthere hadds.quiet
  refine fun hac ↦ ⟨he, hquiet.handle he (fun hie ↦ hnew ?_) hac _ (List.mem_singleton_self _)⟩
  exact hie ▸ ha.born hi

theorem Bears.block (hb : c.Bears h e v (.handle i)) (ha : c.At made ys h)
    (hi : h.blockOf? i = some b) (hsole : h.count (.block b) = 1) : c.Bears h e v (.block b) := by
  refine fun hac ↦ ⟨(hb hac).1, ?_⟩
  exact hb.clears.block ha hi hsole (Heap.not_block_mem_handleHolds _ b) hac _
    (List.mem_singleton_self _)

theorem Bears.grows {touched : Hold → Prop} (hb : c.Bears h e v x) (ha : c.At (e :: made) ys h)
    (hg : h.Grows h' touched) : c.Bears h' e v x := by
  intro hac
  refine ⟨hg.valueOf? (hb hac).1, hb.clears.quiet ha (fun z hz ↦ ?_) hg.quiet hac _
    (List.mem_singleton_self _)⟩
  obtain rfl := List.mem_singleton.1 hz
  exact ha.isSome_of_made List.mem_cons_self

/-- What is known of such a handle when its cells are as they were. -/
theorem Clears.bears_of_keeps {y : Hold} (hclear : c.Clears h' (handleHolds [e]) y)
    (hb : c.Bears h e v x) (hkeeps : c.acyclic → h.Keeps h' (handleHolds [e])) :
    c.Bears h' e v y := by
  refine fun hac ↦ ⟨?_, hclear hac _ (List.mem_singleton_self _)⟩
  exact (hkeeps hac).valueOf? (List.mem_singleton_self _) (hb hac).1

/-- A new handle that does not lead to a list does not lead to its elements either, and neither does
its value. -/
theorem Bears.element {l : ListId} {is : List HandleId} {k : HandleId}
    (hb : c.Bears h e v (.list l)) (ha : c.At (e :: made) ys h) (hl : h.elements? l = some is)
    (hk : k ∈ is) : c.Clears h v.holds (.handle k) := by
  intro hac y hy hreach
  obtain ⟨hv, hnot⟩ := hb hac
  have hmem : Hold.handle k ∈ h.holdsOf (.list l) :=
    Heap.handle_mem_holdsOf hl hk
  rcases hreach.holder hmem (ha.sound.single k) with rfl | hlist
  · cases v <;> simp [Value.holds] at hy
  · obtain ⟨b, hby, heb⟩ := Heap.reaches_of_valueOf? hv hy
    exact hnot ((heb.next hby).trans hlist)

end

end Scene
end ScriptHeap
