import ScriptHeap.Proofs.Settings.Taking

/-!
# What settings depend on

Of a settings file only the values count that its lines give to each property: all of them, in their
order, for the package roots, and the first one for everything else.  The lines may be put in another
order as long as those of one property stay in theirs, keys may be written in another case, and lines
that say nothing, unknown properties and later values of a property that has one already may come and
go.

## What is here

* `Settings.Agree` — properties that give the same values, and so the same settings.
* `LinesGive` — the properties that lines give, if none of them is malformed.
* `Edit`, `Reworded` — the ways to change lines that change no setting; `Edit.alike`.
* `Settings.Lacks` — what can be wrong with properties.
* `Settings.parse_by_values`, the payoff: settings depend on the values of their properties alone.
-/

set_option autoImplicit false
namespace ScriptHeap

variable {ps qs rs : List PropertyLine}

/-! ## Properties that agree -/

namespace Settings

/-- Properties that give the same package roots, and the same first value of every other property. -/
structure Agree (ps qs : List PropertyLine) : Prop where
  packageRoots : valuesOf ps packageRootKey = valuesOf qs packageRootKey
  first : ∀ key ∈ keys, (valuesOf ps key).head? = (valuesOf qs key).head?

instance (ps qs : List PropertyLine) : Decidable (Agree ps qs) :=
  decidable_of_iff (valuesOf ps packageRootKey = valuesOf qs packageRootKey ∧
    ∀ key ∈ keys, (valuesOf ps key).head? = (valuesOf qs key).head?)
    ⟨fun h ↦ ⟨h.1, h.2⟩, fun h ↦ ⟨h.1, h.2⟩⟩

theorem Agree.refl (ps : List PropertyLine) : Agree ps ps :=
  ⟨rfl, fun _ _ ↦ rfl⟩

theorem Agree.symm (h : Agree ps qs) : Agree qs ps :=
  ⟨h.packageRoots.symm, fun key hkey ↦ (h.first key hkey).symm⟩

theorem Agree.trans (h : Agree ps qs) (h' : Agree qs rs) : Agree ps rs :=
  ⟨h.packageRoots.trans h'.packageRoots, fun key hkey ↦ (h.first key hkey).trans (h'.first key hkey)⟩

theorem Agree.of_valuesOf (h : ∀ key ∈ keys, valuesOf ps key = valuesOf qs key) : Agree ps qs :=
  ⟨h _ (by decide +kernel), fun key hkey ↦ congrArg _ (h key hkey)⟩

section Edits

variable {p q : PropertyLine}

/-- A property of no setting. -/
theorem Agree.unknown (ps qs : List PropertyLine)
    (h : ∀ key ∈ keys, Text.sameName p.key key = false) : Agree (ps ++ qs) (ps ++ p :: qs) := by
  refine .of_valuesOf fun key hkey ↦ ?_
  rw [valuesOf_append, valuesOf_append, valuesOf_cons, h key hkey]
  rfl

/-- Another value of a property that counts once. -/
theorem Agree.later (qs : List PropertyLine) (hp : p ∈ ps)
    (hsame : Text.sameName p.key q.key = true)
    (hroots : Text.sameName q.key packageRootKey = false) :
    Agree (ps ++ qs) (ps ++ q :: qs) := by
  refine ⟨?_, fun key _ ↦ ?_⟩
  · rw [valuesOf_append, valuesOf_append, valuesOf_cons, hroots]
    rfl
  · rw [valuesOf_append, valuesOf_append, valuesOf_cons]
    cases hkey : Text.sameName q.key key with
    | false => rfl
    | true =>
      have hne : valuesOf ps key ≠ [] :=
        valuesOf_ne_nil hp ((Text.sameName_congr hsame key).trans hkey)
      rw [List.head?_append_of_ne_nil _ hne, List.head?_append_of_ne_nil _ hne]

/-- Another spelling of a key. -/
theorem Agree.respelled (ps qs : List PropertyLine) (hsame : Text.sameName p.key q.key = true)
    (hvalue : p.value = q.value) : Agree (ps ++ p :: qs) (ps ++ q :: qs) := by
  refine .of_valuesOf fun key _ ↦ ?_
  rw [valuesOf_append, valuesOf_append, valuesOf_cons, valuesOf_cons,
    Text.sameName_congr hsame, hvalue]

/-- Different properties that change places. -/
theorem Agree.swapped (ps qs : List PropertyLine) (hapart : Text.sameName p.key q.key = false) :
    Agree (ps ++ p :: q :: qs) (ps ++ q :: p :: qs) := by
  refine .of_valuesOf fun key _ ↦ ?_
  rw [valuesOf_append, valuesOf_append, valuesOf_cons, valuesOf_cons, valuesOf_cons, valuesOf_cons]
  cases hp : Text.sameName p.key key with
  | false => rfl
  | true =>
    rw [Text.sameName_congr hp, Text.sameName_comm] at hapart
    rw [hapart]
    rfl

end Edits

theorem name_mem_keys (f : Flag) : f.name ∈ keys := by
  cases f <;> decide +kernel

/-- **Settings are the same** where properties agree. -/
theorem Agree.ofProperties_eq (h : Agree ps qs) : ofProperties ps = ofProperties qs := by
  have hdir (key : String) (hkey : key ∈ keys) : requiredDir ps key = requiredDir qs key := by
    rw [requiredDir_eq, requiredDir_eq, h.first key hkey]
  have hswitch (f : Flag) (byDefault : Bool) : switch ps f byDefault = switch qs f byDefault := by
    rw [switch_eq, switch_eq, h.first f.name (name_mem_keys f)]
  unfold ofProperties
  simp only [hdir moduleDirectoryKey (by decide +kernel), hdir scriptRootKey (by decide +kernel),
    hswitch, h.packageRoots, h.first includeDirectoryKey (by decide +kernel)]

end Settings

/-! ## The case of letters -/

namespace Text

theorem toLower_cases (c : Char) :
    c.toLower = c ∨ 65 ≤ c.toNat ∧ c.toNat ≤ 90 ∧ c.toLower.toNat = c.toNat + 32 := by
  unfold Char.toLower
  split
  · rename_i hc
    have h1 : 65 ≤ c.toNat := hc.1
    have h2 : c.toNat ≤ 90 := hc.2
    refine .inr ⟨h1, h2, ?_⟩
    show (c.val.toNat + 32) % 4294967296 = c.val.toNat + 32
    have : c.val.toNat = c.toNat := rfl
    omega
  · exact .inl rfl

/-- Only letters have a case. -/
theorem isAlpha_of_toLower_eq {c d : Char} (h : c.toLower = d.toLower) :
    c = d ∨ c.isAlpha = true ∧ d.isAlpha = true := by
  have hletter (c : Char) (hc : 65 ≤ c.toNat ∧ c.toNat ≤ 90 ∨ 97 ≤ c.toNat ∧ c.toNat ≤ 122) :
      c.isAlpha = true := by
    simpa [Char.isAlpha, Char.isUpper, Char.isLower, UInt32.le_iff_toNat_le] using hc
  rcases toLower_cases c with hc | ⟨hc, hc', hlower⟩ <;>
    rcases toLower_cases d with hd | ⟨hd, hd', hlower'⟩
  · exact .inl (by rw [← hc, h, hd])
  · rw [← h, hc] at hlower'
    exact .inr ⟨hletter c (by omega), hletter d (by omega)⟩
  · rw [h, hd] at hlower
    exact .inr ⟨hletter c (by omega), hletter d (by omega)⟩
  · exact .inr ⟨hletter c (by omega), hletter d (by omega)⟩

theorem isBlank_of_toLower_eq {c d : Char} (h : c.toLower = d.toLower) : isBlank c = isBlank d := by
  rcases isAlpha_of_toLower_eq h with rfl | ⟨hc, hd⟩
  · rfl
  · rw [PropertyLine.isBlank_of_isAlpha hc, PropertyLine.isBlank_of_isAlpha hd]

theorem isSilent_cons_cons (c d : Char) (cs : List Char) :
    isSilent (c :: d :: cs) = (c == '#' || c == '/' && d == '/') := by
  rw [Bool.eq_iff_iff]
  simp only [Bool.or_eq_true, Bool.and_eq_true, beq_iff_eq]
  unfold isSilent
  split <;> simp_all

/-- Whether a line says nothing does not depend on the case of its letters. -/
theorem isSilent_of_map_toLower {cs ds : List Char}
    (h : cs.map Char.toLower = ds.map Char.toLower) : isSilent cs = isSilent ds := by
  cases cs with
  | nil => rw [List.map_eq_nil_iff.1 h.symm]
  | cons c cs =>
    obtain ⟨d, ds, rfl, hfirst, hrest⟩ := List.map_eq_cons_iff.1 h.symm
    rcases isAlpha_of_toLower_eq hfirst with rfl | ⟨hd, hc⟩
    · cases cs with
      | nil => rw [List.map_eq_nil_iff.1 hrest]
      | cons c' cs =>
        obtain ⟨d', ds, rfl, hsecond, -⟩ := List.map_eq_cons_iff.1 hrest
        rcases isAlpha_of_toLower_eq hsecond with rfl | ⟨hd', hc'⟩
        · rw [isSilent_cons_cons, isSilent_cons_cons]
        · rw [isSilent_cons_cons, isSilent_cons_cons]
          have hslash {e : Char} (he : e.isAlpha = true) : (e == '/') = false :=
            beq_eq_false_iff_ne.2 fun heq ↦ absurd (heq ▸ he) (by decide)
          rw [hslash hc', hslash hd']
    · rw [PropertyLine.isSilent_cons_of_isAlpha hc, PropertyLine.isSilent_cons_of_isAlpha hd]


theorem splitBlank?_eq_none {word : List Char} (h : ∀ c ∈ word, isBlank c = false) :
    splitBlank? word = none := by
  induction word with
  | nil => rfl
  | cons c word ih =>
    rw [splitBlank?, h c List.mem_cons_self, if_neg Bool.false_ne_true,
      ih fun c hc ↦ h c (List.mem_cons_of_mem _ hc)]
    rfl

/-- Blanks, a word and more: trimming cuts the blanks before the word and those at the end. -/
theorem trim_append {lead word : List Char} (hlead : ∀ c ∈ lead, isBlank c = true)
    (hword : ∀ c ∈ word, isBlank c = false) (hne : word ≠ []) (rest : List Char) :
    trim (lead ++ word ++ rest) = word ++ trimEnd rest := by
  obtain ⟨c, word', rfl⟩ := List.exists_cons_of_ne_nil hne
  have hstart : (lead ++ (c :: word') ++ rest).dropWhile isBlank = (c :: word') ++ rest := by
    rw [List.append_assoc, List.dropWhile_append_of_pos hlead, List.cons_append,
      List.dropWhile_cons_of_neg (by simp [hword c List.mem_cons_self])]
  have hend : trimEnd (c :: word') = c :: word' :=
    List.rdropWhile_eq_self_iff.2 fun _ ↦ by simp [hword _ (List.getLast_mem _)]
  rw [trim, hstart, trimEnd, trimEnd, List.reverse_append, List.dropWhile_append]
  split
  · rename_i h
    rw [List.isEmpty_iff.1 h, List.reverse_nil, List.append_nil]
    exact hend
  · rw [List.reverse_append, List.reverse_reverse]
end Text

/-! ## The properties that lines give -/

/-- A line gives a property. -/
structure PropertyLine.OnLine (p : PropertyLine) (raw : List Char) : Prop where
  silent : isSilent (Text.trim raw) = false
  split : ∃ key value, Text.splitBlank? (Text.trim raw) = some (key, value) ∧
    p = ⟨String.ofList key, String.ofList (Text.trim value)⟩

/-- Lines give these properties, and none of them is malformed. -/
inductive LinesGive : List (List Char) → List PropertyLine → Prop
  | nil : LinesGive [] []
  | silent {raw : List Char} {lines : List (List Char)} {ps : List PropertyLine} :
      isSilent (Text.trim raw) = true → LinesGive lines ps → LinesGive (raw :: lines) ps
  | property {raw : List Char} {p : PropertyLine} {lines : List (List Char)}
      {ps : List PropertyLine} :
      p.OnLine raw → LinesGive lines ps → LinesGive (raw :: lines) (p :: ps)

/-- **Lines are read without an error** exactly when each says nothing or gives a property, wherever
in the text they stand. -/
theorem propertiesFrom_eq_ok_iff {n : Nat} {lines : List (List Char)} :
    propertiesFrom n lines = .ok ps ↔ LinesGive lines ps := by
  constructor
  · intro h
    induction lines generalizing n ps with
    | nil =>
      cases h
      exact .nil
    | cons raw lines ih =>
      rw [propertiesFrom] at h
      split at h
      · rename_i hsilent
        exact .silent hsilent (ih h)
      · rename_i hsilent
        split at h
        · cases h
        · rename_i key value hsplit
          obtain ⟨rest, hrest, heq⟩ := Settings.exists_of_bind_eq_ok h
          cases heq
          exact .property ⟨Bool.eq_false_iff.2 hsilent, key, value, hsplit, rfl⟩ (ih hrest)
  · intro h
    induction h generalizing n with
    | nil => rfl
    | silent hsilent _ ih =>
      rw [propertiesFrom]
      exact (if_pos hsilent).trans ih
    | property hline _ ih =>
      obtain ⟨hsilent, key, value, hsplit, rfl⟩ := hline
      rw [propertiesFrom]
      simp only [hsilent, Bool.false_eq_true, if_false, hsplit, ih]
      rfl

namespace LinesGive

variable {xs ys lines : List (List Char)}

theorem unique (hps : LinesGive lines ps) (hqs : LinesGive lines qs) : ps = qs :=
  Except.ok.inj ((propertiesFrom_eq_ok_iff (n := 1)).2 hps |>.symm.trans
    (propertiesFrom_eq_ok_iff.2 hqs))

theorem append (hxs : LinesGive xs ps) (hys : LinesGive ys qs) : LinesGive (xs ++ ys) (ps ++ qs) := by
  induction hxs with
  | nil => exact hys
  | silent hsilent _ ih => exact .silent hsilent ih
  | property hline _ ih => exact .property hline ih

theorem exists_append (h : LinesGive (xs ++ ys) rs) :
    ∃ ps qs, rs = ps ++ qs ∧ LinesGive xs ps ∧ LinesGive ys qs := by
  induction xs generalizing rs with
  | nil => exact ⟨[], rs, rfl, .nil, h⟩
  | cons raw xs ih =>
    cases h with
    | silent hsilent h =>
      obtain ⟨ps, qs, rfl, hps, hqs⟩ := ih h
      exact ⟨ps, qs, rfl, .silent hsilent hps, hqs⟩
    | property hline h =>
      obtain ⟨ps, qs, rfl, hps, hqs⟩ := ih h
      exact ⟨_ :: ps, qs, rfl, .property hline hps, hqs⟩

/-- A property of a line is among those that the lines give. -/
theorem mem {raw : List Char} {p : PropertyLine} (h : LinesGive lines ps) (hraw : raw ∈ lines)
    (hp : p.OnLine raw) : p ∈ ps := by
  induction h with
  | nil => cases hraw
  | silent hsilent _ ih =>
    rcases List.mem_cons.1 hraw with rfl | hraw
    · exact absurd hsilent (Bool.eq_false_iff.1 hp.silent)
    · exact ih hraw
  | property hline _ ih =>
    rcases List.mem_cons.1 hraw with rfl | hraw
    · obtain ⟨-, key, value, hsplit, rfl⟩ := hp
      obtain ⟨-, key', value', hsplit', rfl⟩ := hline
      cases hsplit.symm.trans hsplit'
      exact List.mem_cons_self
    · exact List.mem_cons_of_mem _ (ih hraw)

theorem singleton {raw : List Char} {p : PropertyLine} (h : p.OnLine raw) : LinesGive [raw] [p] :=
  .property h .nil

theorem of_silent {raw : List Char} (h : isSilent (Text.trim raw) = true) : LinesGive [raw] [] :=
  .silent h .nil

end LinesGive

/-! ## Lines changed -/

/-- The first word of a line in another case. -/
inductive Respelled : List Char → List Char → Prop
  | word {lead key key' rest : List Char} {b : Char} :
      (∀ c ∈ lead, Text.isBlank c = true) → (∀ c ∈ key, Text.isBlank c = false) → key ≠ [] →
      Text.isBlank b = true → key'.map Char.toLower = key.map Char.toLower →
      Respelled (lead ++ key ++ b :: rest) (lead ++ key' ++ b :: rest)

/-- A line gives the same value under the same name when its key is written in another case. -/
theorem PropertyLine.OnLine.respelled {p : PropertyLine} {raw raw' : List Char} (h : p.OnLine raw)
    (hcase : Respelled raw raw') :
    ∃ q : PropertyLine, q.OnLine raw' ∧ Text.sameName p.key q.key = true ∧ p.value = q.value := by
  obtain ⟨hlead, hkey, hne, hb, hcase⟩ := hcase
  rename_i lead key key' rest b
  have hkey' : ∀ c ∈ key', Text.isBlank c = false := by
    intro c hc
    obtain ⟨d, hd, hlower⟩ := List.mem_map.1 (hcase ▸ List.mem_map_of_mem hc)
    rw [← Text.isBlank_of_toLower_eq hlower, hkey d hd]
  have hne' : key' ≠ [] := fun hnil ↦ hne (List.map_eq_nil_iff.1 (by rw [← hcase, hnil]; rfl))
  obtain ⟨hsilent, word, value, hsplit, rfl⟩ := h
  rw [Text.trim_append hlead hkey hne] at hsilent hsplit
  obtain ⟨back, hback⟩ : Text.trimEnd (b :: rest) <+: b :: rest := List.rdropWhile_prefix _ _
  cases hend : Text.trimEnd (b :: rest) with
  | nil =>
    rw [hend, List.append_nil, Text.splitBlank?_eq_none hkey] at hsplit
    cases hsplit
  | cons b' tail =>
    rw [hend] at hback hsilent hsplit
    cases hback
    rw [Text.splitBlank?_append hkey hb] at hsplit
    cases hsplit
    refine ⟨⟨String.ofList key', String.ofList (Text.trim value)⟩, ⟨?_, key', value, ?_, rfl⟩, ?_,
      rfl⟩
    · rw [Text.trim_append hlead hkey' hne', hend, ← hsilent]
      exact Text.isSilent_of_map_toLower (by rw [List.map_append, List.map_append, hcase])
    · rw [Text.trim_append hlead hkey' hne', hend, Text.splitBlank?_append hkey' hb]
    · rw [Text.sameName_iff, Text.folded, Text.folded, String.toList_ofList, String.toList_ofList,
        hcase]

/-- A change of lines that changes no setting: a line that says nothing, an unknown property or a
later value of a property that counts once is put in, a key is written in another case, two lines of
different properties change places. -/
inductive Edit : List (List Char) → List (List Char) → Prop
  | silent (xs ys : List (List Char)) {raw : List Char} :
      isSilent (Text.trim raw) = true → Edit (xs ++ ys) (xs ++ raw :: ys)
  | unknown (xs ys : List (List Char)) {raw : List Char} {p : PropertyLine} :
      p.OnLine raw → (∀ key ∈ Settings.keys, Text.sameName p.key key = false) →
      Edit (xs ++ ys) (xs ++ raw :: ys)
  | later (xs ys : List (List Char)) {first raw : List Char} {p q : PropertyLine} :
      first ∈ xs → p.OnLine first → q.OnLine raw → Text.sameName p.key q.key = true →
      Text.sameName q.key packageRootKey = false → Edit (xs ++ ys) (xs ++ raw :: ys)
  | respelled (xs ys : List (List Char)) {raw raw' : List Char} {p : PropertyLine} :
      p.OnLine raw → Respelled raw raw' → Edit (xs ++ raw :: ys) (xs ++ raw' :: ys)
  | swapped (xs ys : List (List Char)) {raw raw' : List Char} {p q : PropertyLine} :
      p.OnLine raw → q.OnLine raw' → Text.sameName p.key q.key = false →
      Edit (xs ++ raw :: raw' :: ys) (xs ++ raw' :: raw :: ys)

/-- Lines that are both malformed or give properties that agree. -/
structure Alike (lines lines' : List (List Char)) : Prop where
  onward : ∀ ps, LinesGive lines ps → ∃ qs, LinesGive lines' qs ∧ Settings.Agree ps qs
  back : ∀ qs, LinesGive lines' qs → ∃ ps, LinesGive lines ps ∧ Settings.Agree ps qs

namespace Alike

theorem refl (lines : List (List Char)) : Alike lines lines :=
  ⟨fun ps hps ↦ ⟨ps, hps, .refl ps⟩, fun ps hps ↦ ⟨ps, hps, .refl ps⟩⟩

variable {lines lines' lines'' : List (List Char)}

theorem symm (h : Alike lines lines') : Alike lines' lines := by
  refine ⟨fun ps hps ↦ ?_, fun qs hqs ↦ ?_⟩
  · obtain ⟨qs, hqs, hagree⟩ := h.back ps hps
    exact ⟨qs, hqs, hagree.symm⟩
  · obtain ⟨ps, hps, hagree⟩ := h.onward qs hqs
    exact ⟨ps, hps, hagree.symm⟩

theorem trans (h : Alike lines lines') (h' : Alike lines' lines'') : Alike lines lines'' := by
  refine ⟨fun ps hps ↦ ?_, fun rs hrs ↦ ?_⟩
  · obtain ⟨qs, hqs, hagree⟩ := h.onward ps hps
    obtain ⟨rs, hrs, hagree'⟩ := h'.onward qs hqs
    exact ⟨rs, hrs, hagree.trans hagree'⟩
  · obtain ⟨qs, hqs, hagree'⟩ := h'.back rs hrs
    obtain ⟨ps, hps, hagree⟩ := h.back qs hqs
    exact ⟨ps, hps, hagree.trans hagree'⟩

/-- **Some lines in the place of others.**  It is enough that their properties agree where they
stand. -/
theorem replace (xs ys : List (List Char)) {before after : List (List Char)}
    (hbefore : LinesGive before ps) (hafter : LinesGive after qs)
    (hagree : ∀ as bs, LinesGive xs as → Settings.Agree (as ++ (ps ++ bs)) (as ++ (qs ++ bs))) :
    Alike (xs ++ (before ++ ys)) (xs ++ (after ++ ys)) := by
  have houter {mid : List (List Char)} {ms rs : List PropertyLine} (hmid : LinesGive mid ms)
      (h : LinesGive (xs ++ (mid ++ ys)) rs) :
      ∃ as bs, rs = as ++ (ms ++ bs) ∧ LinesGive xs as ∧ LinesGive ys bs := by
    obtain ⟨as, back, rfl, has, hback⟩ := h.exists_append
    obtain ⟨ms', bs, rfl, hms', hbs⟩ := hback.exists_append
    exact ⟨as, bs, by rw [hmid.unique hms'], has, hbs⟩
  refine ⟨fun rs hrs ↦ ?_, fun rs hrs ↦ ?_⟩
  · obtain ⟨as, bs, rfl, has, hbs⟩ := houter hbefore hrs
    exact ⟨_, has.append (hafter.append hbs), hagree as bs has⟩
  · obtain ⟨as, bs, rfl, has, hbs⟩ := houter hafter hrs
    exact ⟨_, has.append (hbefore.append hbs), hagree as bs has⟩

end Alike

/-- **No edit changes what lines say.** -/
theorem Edit.alike {lines lines' : List (List Char)} (h : Edit lines lines') :
    Alike lines lines' := by
  cases h with
  | silent xs ys hsilent => exact .replace xs ys .nil (.of_silent hsilent) fun as bs _ ↦ .refl _
  | unknown xs ys hline hunknown =>
    exact .replace xs ys .nil (.singleton hline) fun as bs _ ↦ .unknown as bs hunknown
  | later xs ys hmem hfirst hline hsame hroots =>
    exact .replace xs ys .nil (.singleton hline) fun as bs has ↦
      .later bs (has.mem hmem hfirst) hsame hroots
  | respelled xs ys hline hcase =>
    obtain ⟨q, hline', hsame, hvalue⟩ := hline.respelled hcase
    exact .replace xs ys (.singleton hline) (.singleton hline') fun as bs _ ↦
      .respelled as bs hsame hvalue
  | swapped xs ys hline hline' hapart =>
    have hlines := (LinesGive.singleton hline).append (.singleton hline')
    have hlines' := (LinesGive.singleton hline').append (.singleton hline)
    exact .replace xs ys hlines hlines' fun as bs _ ↦ .swapped as bs hapart

/-- Texts whose lines come from each other by edits. -/
def Reworded (s t : String) : Prop :=
  Relation.EqvGen Edit (Text.parts '\n' s.toList) (Text.parts '\n' t.toList)

theorem Alike.of_eqvGen {lines lines' : List (List Char)} (h : Relation.EqvGen Edit lines lines') :
    Alike lines lines' := by
  induction h with
  | rel _ _ h => exact h.alike
  | refl lines => exact .refl lines
  | symm _ _ _ ih => exact ih.symm
  | trans _ _ _ _ _ ih ih' => exact ih.trans ih'

/-! ## What may be wrong with properties -/

section Errors

variable {α β : Type} {P : SettingsError → Prop} {act : Except SettingsError α}

theorem forall_error_bind {next : α → Except SettingsError β} (hact : ∀ e, act = .error e → P e)
    (hnext : ∀ a e, next a = .error e → P e) : ∀ e, act >>= next = .error e → P e := by
  intro e he
  cases h : act with
  | error e' =>
    rw [h] at he
    cases he
    exact hact e h
  | ok a =>
    rw [h] at he
    exact hnext a e he

theorem forall_error_mapM {xs : List β} {f : β → Except SettingsError α}
    (hf : ∀ x e, f x = .error e → P e) : ∀ e, xs.mapM f = .error e → P e := by
  induction xs with
  | nil => exact fun e he ↦ nomatch he
  | cons x xs ih =>
    rw [List.mapM_cons]
    exact forall_error_bind (hf x) fun a ↦ forall_error_bind ih fun _ e he ↦ nomatch he

end Errors

namespace Settings

/-- Properties do not stand for settings: a directory is missing, or the first value of a switch is
no word for it. -/
inductive Lacks (ps : List PropertyLine) : SettingsError → Prop
  | missing {key : String} : key ∈ [moduleDirectoryKey, scriptRootKey] → valuesOf ps key = [] →
      Lacks ps (.missing key)
  | notASwitch {f : Flag} {value : String} : (valuesOf ps f.name).head? = some value →
      switchOf? value = none → Lacks ps (.notASwitch f.name value)

theorem lacks_of_requiredDir {key : String} (hkey : key ∈ [moduleDirectoryKey, scriptRootKey]) :
    ∀ e, requiredDir ps key = .error e → Lacks ps e := by
  intro e he
  rw [requiredDir] at he
  split at he
  · cases he
  · rename_i hvalues
    cases he
    exact .missing hkey hvalues

theorem lacks_of_switch {f : Flag} {byDefault : Bool} :
    ∀ e, switch ps f byDefault = .error e → Lacks ps e := by
  intro e he
  rw [switch_eq] at he
  split at he
  · cases he
  · rename_i value hvalue
    split at he
    · cases he
    · rename_i hword
      cases he
      exact .notASwitch hvalue hword

/-- **What properties lack** is the only thing that can be wrong with them. -/
theorem lacks_of_ofProperties : ∀ e, ofProperties ps = .error e → Lacks ps e :=
  forall_error_bind (lacks_of_requiredDir (by simp)) fun _ ↦
    forall_error_bind (lacks_of_requiredDir (by simp)) fun _ ↦
      forall_error_bind lacks_of_switch fun _ ↦
        forall_error_bind
          (forall_error_mapM fun _ ↦ forall_error_bind lacks_of_switch fun _ _ he ↦ nomatch he)
          fun _ _ he ↦ nomatch he

theorem packageRoots_of_ofProperties {c : Settings} (h : ofProperties ps = .ok c) :
    c.packageRoots = (valuesOf ps packageRootKey).map normalizedDir := by
  obtain ⟨_, -, h⟩ := exists_of_bind_eq_ok h
  obtain ⟨_, -, h⟩ := exists_of_bind_eq_ok h
  obtain ⟨_, -, h⟩ := exists_of_bind_eq_ok h
  obtain ⟨_, -, h⟩ := exists_of_bind_eq_ok h
  cases h
  rfl

/-! ## The payoff -/

theorem parse_eq {s : String} (hs : propertyLines s = .ok ps) : parse s = ofProperties ps := by
  rw [parse, hs]
  rfl

/-- **Settings depend on the values of their properties alone.**  Texts without malformed lines that
give the same package roots, and the same first value of every other property, are read as the same
settings or have the same thing wrong with them.  So are texts whose lines change places, keys in
another case, and lines that come and go without saying anything new; and it makes no difference
that properties are taken out one by one.  Package roots stay in the order of their lines. -/
theorem parse_by_values {s : String} (hs : propertyLines s = .ok ps) :
    (∀ t qs, propertyLines t = .ok qs → Agree ps qs → parse t = parse s) ∧
      (∀ t, Reworded s t → ∃ qs, propertyLines t = .ok qs ∧ Agree ps qs ∧ parse t = parse s) ∧
      parse s = (Taking.settings ps).map (·.1) ∧
      ((∃ c, parse s = .ok c ∧
          c.packageRoots = (valuesOf ps packageRootKey).map normalizedDir) ∨
        ∃ e, parse s = .error e ∧ Lacks ps e) := by
  have hagree (t : String) (qs : List PropertyLine) (ht : propertyLines t = .ok qs)
      (h : Agree ps qs) : parse t = parse s := by
    rw [parse_eq ht, parse_eq hs, h.ofProperties_eq]
  refine ⟨hagree, fun t ht ↦ ?_, ?_, ?_⟩
  · obtain ⟨qs, hqs, h⟩ := (Alike.of_eqvGen ht).onward ps (propertiesFrom_eq_ok_iff.1 hs)
    have hlines : propertyLines t = .ok qs := propertiesFrom_eq_ok_iff.2 hqs
    exact ⟨qs, hlines, h, hagree t qs hlines h⟩
  · rw [parse_eq hs, Taking.settings_eq]
  · rw [parse_eq hs]
    cases h : ofProperties ps with
    | ok c => exact .inl ⟨c, rfl, packageRoots_of_ofProperties h⟩
    | error e => exact .inr ⟨e, rfl, lacks_of_ofProperties e h⟩

/-- Lines in another order, keys in another case, a comment, a brace, an unknown property and a
later directory, where the package roots stay in their order; and one comment put in, after which
two lines change places. -/
theorem parse_by_values_reordered :
    parse ("# roots\npackageroot a\nPolScriptRoot r\n\x7b\nColour red\n" ++
          "MODULEDIRECTORY m\nPackageRoot b\nModuleDirectory n") =
        parse "ModuleDirectory m\nPackageRoot a\nPackageRoot b\nPolScriptRoot r" ∧
      parse "# roots\nPackageRoot a\nModuleDirectory m\nPackageRoot b\nPolScriptRoot r" =
        parse "ModuleDirectory m\nPackageRoot a\nPackageRoot b\nPolScriptRoot r" := by
  have hs : propertyLines "ModuleDirectory m\nPackageRoot a\nPackageRoot b\nPolScriptRoot r" =
      .ok [⟨"ModuleDirectory", "m"⟩, ⟨"PackageRoot", "a"⟩, ⟨"PackageRoot", "b"⟩,
        ⟨"PolScriptRoot", "r"⟩] := by
    rfl
  refine ⟨(parse_by_values hs).1 _ [⟨"packageroot", "a"⟩, ⟨"PolScriptRoot", "r"⟩,
    ⟨"Colour", "red"⟩, ⟨"MODULEDIRECTORY", "m"⟩, ⟨"PackageRoot", "b"⟩, ⟨"ModuleDirectory", "n"⟩]
    rfl (by decide +kernel), ?_⟩
  obtain ⟨qs, -, -, hparse⟩ := (parse_by_values hs).2.1
    "# roots\nPackageRoot a\nModuleDirectory m\nPackageRoot b\nPolScriptRoot r"
    (.trans _ _ _ (.rel _ _ (@Edit.silent [] _ "# roots".toList rfl))
      (.rel _ _ (.swapped ["# roots".toList] ["PackageRoot b".toList, "PolScriptRoot r".toList]
        (p := ⟨"ModuleDirectory", "m"⟩) (q := ⟨"PackageRoot", "a"⟩)
        ⟨rfl, _, _, rfl, rfl⟩ ⟨rfl, _, _, rfl, rfl⟩ rfl)))
  exact hparse

end Settings

end ScriptHeap
