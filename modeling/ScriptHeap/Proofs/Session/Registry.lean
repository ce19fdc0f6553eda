import Mathlib
import ScriptHeap.Host.Sample
import ScriptHeap.Proofs.Session.Accounts
import ScriptHeap.Proofs.Session.Course

/-!
# The register of live handles

Handles come and go behind the scenes: with copies of elements, with gaps that are filled, with
values that were read in part only.  All of them are made in one place and removed in one place, and
both keep the register.  So at every moment it lists the handles that are there, with the kinds of
the values that they were made for, and its counters are right.

## What is here

* `Table.toList_eq`, `Table.length_toList` — the numbers in use.
* `Registry.Records` — what the register knows of the handles, kept by every single change.
* `Heap.Registered` — the register read out, compared with what is there.
* `Session.Refers` — the places where a session has a handle.
* `Session.registry_exact` — the register is exact, along every run and in the middle of steps.
-/

set_option autoImplicit false
namespace ScriptHeap

/-! ## Numbers in use -/

namespace Table

variable {α β : Type} {t : Table α}

theorem toList_eq (t : Table α) :
    t.toList = (List.range t.next).filterMap fun n ↦ (t.get? n).map fun a ↦ (n, a) := by
  have hcells : t.cells.toList.zipIdx = (List.range t.next).map fun n ↦ (t.get? n, n) := by
    refine List.ext_getElem (by simp [next]) fun n hn _ ↦ ?_
    have hlt : n < t.cells.size := by simpa using hn
    simp [get?, hlt]
  rw [toList, hcells, List.filterMap_map]
  rfl

theorem length_toList (t : Table α) :
    t.toList.length = ((Finset.range t.next).filter fun n ↦ (t.get? n).isSome = true).card := by
  have hnodup := (List.nodup_range (n := t.next)).filter fun n ↦ (t.get? n).isSome
  rw [toList_eq, List.length_filterMap_eq_countP, List.countP_eq_length_filter]
  simp only [Option.isSome_map]
  rw [← List.toFinset_card_of_nodup hnodup, List.toFinset_filter, List.toFinset_range]

theorem length_toList_insert (t : Table α) (a : α) :
    (t.insert a).toList.length = t.toList.length + 1 := by
  have hnone : (t.insert a).get? t.next = some a := by
    rw [get?_insert, if_pos rfl]
  rw [length_toList, length_toList, next_insert, Finset.range_add_one, Finset.filter_insert,
    if_pos (by rw [hnone]; rfl), Finset.card_insert_of_notMem (by simp)]
  have hsame : ((Finset.range t.next).filter fun n ↦ ((t.insert a).get? n).isSome = true) =
      (Finset.range t.next).filter fun n ↦ (t.get? n).isSome = true := by
    refine Finset.filter_congr fun n hn ↦ ?_
    rw [get?_insert, if_neg (Nat.ne_of_lt (Finset.mem_range.1 hn))]
  rw [hsame]

theorem length_toList_erase {n : Nat} {a : α} (hn : t.get? n = some a) :
    (t.erase n).toList.length + 1 = t.toList.length := by
  have hmem : n ∈ (Finset.range t.next).filter fun m ↦ (t.get? m).isSome = true := by
    rw [Finset.mem_filter, Finset.mem_range, hn]
    exact ⟨lt_next_of_get? hn, rfl⟩
  have herase : ((Finset.range t.next).filter fun m ↦ ((t.erase n).get? m).isSome = true) =
      ((Finset.range t.next).filter fun m ↦ (t.get? m).isSome = true).erase n := by
    ext m
    rw [Finset.mem_erase, Finset.mem_filter, Finset.mem_filter, get?_erase]
    by_cases hm : n = m
    · simp [hm]
    · simp [hm, Ne.symm hm]
  rw [length_toList, length_toList, next_erase, herase, Finset.card_erase_add_one hmem]

/-- Two tables with the same numbers in use, read out one beside the other. -/
theorem forall₂_toList {u : Table β} {R : Nat × α → Nat × β → Prop} (hnext : t.next = u.next)
    (hsome : ∀ n, (t.get? n).isSome = (u.get? n).isSome)
    (hR : ∀ n a b, t.get? n = some a → u.get? n = some b → R (n, a) (n, b)) :
    List.Forall₂ R t.toList u.toList := by
  rw [toList_eq, toList_eq, hnext]
  induction List.range u.next with
  | nil => exact .nil
  | cons n ns ih =>
    have hn := hsome n
    cases ha : t.get? n with
    | none =>
      rw [ha] at hn
      cases hb : u.get? n with
      | none => simpa [ha, hb] using ih
      | some b => simp [hb] at hn
    | some a =>
      rw [ha] at hn
      cases hb : u.get? n with
      | none => simp [hb] at hn
      | some b => simpa [ha, hb] using ⟨hR n a b ha hb, ih⟩

theorem mem_toList {e : Nat × α} : e ∈ t.toList ↔ t.get? e.1 = some e.2 := by
  rw [toList_eq, List.mem_filterMap]
  constructor
  · rintro ⟨n, -, hn⟩
    obtain ⟨a, ha, rfl⟩ := Option.map_eq_some_iff.1 hn
    exact ha
  · exact fun he ↦ ⟨e.1, List.mem_range.2 (lt_next_of_get? he), by rw [he]; rfl⟩

theorem pairwise_toList (t : Table α) : t.toList.Pairwise fun a b ↦ a.1 < b.1 := by
  rw [toList_eq, List.pairwise_filterMap]
  refine List.pairwise_lt_range.imp fun hlt a ha b hb ↦ ?_
  obtain ⟨_, -, rfl⟩ := Option.map_eq_some_iff.1 ha
  obtain ⟨_, -, rfl⟩ := Option.map_eq_some_iff.1 hb
  exact hlt

end Table

/-! ## What the register knows -/

variable {Obj : Type}

/-- What the register knows of the handles in a heap, where the kinds of all handles that were ever
made are given, the oldest first. -/
structure Registry.Records (r : Registry) (h : Heap Obj) (made : List Kind) : Prop where
  registry : h.registry = some r
  handles : h.handles.next = made.length
  numbers : ∀ n cell, h.handles.get? n = some cell → cell.number = some (n + 1)
  next : r.kinds.next = made.length
  kinds : ∀ n, r.kinds.get? n = (h.handles.get? n).bind fun _ ↦ made[n]?
  constructions : r.constructions = made.length
  live : r.live = r.kinds.toList.length

namespace Registry.Records

variable {r : Registry} {h t : Heap Obj} {made : List Kind}

/-- What leaves the handles alone leaves the register right. -/
theorem of_same (hr : r.Records h made) (hregistry : t.registry = h.registry)
    (hnext : t.handles.next = h.handles.next)
    (hcells : ∀ n, (t.handles.get? n).map (·.number) = (h.handles.get? n).map (·.number)) :
    r.Records t (made ++ (none : Option Kind).toList) := by
  rw [Option.toList_none, List.append_nil]
  refine { hr with
    registry := hregistry.trans hr.registry
    handles := hnext.trans hr.handles
    numbers := fun n cell hn ↦ ?_
    kinds := fun n ↦ ?_ }
  · have hcell := hcells n
    rw [hn] at hcell
    obtain ⟨cell', hcell', he⟩ := Option.map_eq_some_iff.1 hcell.symm
    exact he.symm.trans (hr.numbers n cell' hcell')
  · have hcell := hcells n
    rw [hr.kinds]
    cases ha : h.handles.get? n with
    | none =>
      rw [ha] at hcell
      rw [Option.map_eq_none_iff.1 hcell]
    | some c =>
      rw [ha] at hcell
      obtain ⟨c', hc', -⟩ := Option.map_eq_some_iff.1 hcell
      rw [hc']
      rfl

/-- **A handle that is made** gets the next number, and its kind is noted. -/
theorem addHandle (hr : r.Records h made) (b : BlockId) (k : Kind) :
    (r.enter k).Records (h.addHandle b k).2 (made ++ [k]) where
  registry := by
    rw [Heap.addHandle, hr.registry]
    rfl
  handles := by
    rw [List.length_append, ← hr.handles]
    exact Table.next_insert _ _
  numbers n cell hn := by
    have hcell : (h.handles.insert ⟨1, b, h.registry.map (·.nextNumber)⟩).get? n = some cell := hn
    rw [Table.get?_insert] at hcell
    split at hcell
    · rename_i hnew
      cases hcell
      rw [hr.registry, hnew, hr.handles, ← hr.next]
      rfl
    · exact hr.numbers n cell hcell
  next := by
    rw [List.length_append, ← hr.next]
    exact Table.next_insert _ _
  kinds n := by
    have hcells : (h.addHandle b k).2.handles.get? n =
        if n = h.handles.next then some ⟨1, b, h.registry.map (·.nextNumber)⟩
        else h.handles.get? n := Table.get?_insert _ _ _
    have hkinds : (r.enter k).kinds.get? n = if n = r.kinds.next then some k else r.kinds.get? n :=
      Table.get?_insert _ _ _
    rw [hcells, hkinds, hr.next, hr.handles]
    by_cases hn : n = made.length
    · rw [if_pos hn, if_pos hn, hn, Option.bind_some, List.getElem?_concat_length]
    · rw [if_neg hn, if_neg hn, hr.kinds]
      cases hcell : h.handles.get? n with
      | none => rfl
      | some c =>
        have hlt := Table.lt_next_of_get? hcell
        rw [hr.handles] at hlt
        rw [Option.bind_some, Option.bind_some, List.getElem?_append_left hlt]
  constructions := by
    rw [List.length_append, ← hr.constructions]
    rfl
  live := by
    refine (congrArg (· + 1) hr.live).trans ?_
    exact (Table.length_toList_insert _ _).symm

/-- The entry of a handle that is there. -/
theorem exists_kind (hr : r.Records h made) {n : Nat} {cell : Handle}
    (hn : h.handles.get? n = some cell) : ∃ k, made[n]? = some k ∧ r.kinds.get? n = some k := by
  have hlt := Table.lt_next_of_get? hn
  rw [hr.handles] at hlt
  refine ⟨made[n], List.getElem?_eq_getElem hlt, ?_⟩
  rw [hr.kinds, hn, Option.bind_some, List.getElem?_eq_getElem hlt]

/-- There is one entry for each handle, of the kind that it was made with. -/
theorem forall₂_toList (hr : r.Records h made) :
    List.Forall₂ (fun e c ↦ e.1 = c.1 ∧ made[e.1]? = some e.2) r.kinds.toList h.handles.toList := by
  refine Table.forall₂_toList (hr.next.trans hr.handles.symm) (fun n ↦ ?_) fun n k cell hk hn ↦ ?_
  · cases hn : h.handles.get? n with
    | none =>
      rw [hr.kinds, hn]
      rfl
    | some cell =>
      obtain ⟨k, -, hk⟩ := hr.exists_kind hn
      rw [hk]
      rfl
  · obtain ⟨k', hmade, hk'⟩ := hr.exists_kind hn
    cases hk.symm.trans hk'
    exact ⟨rfl, hmade⟩

/-- An entry that leaves takes one from the number of live handles, and there was one to take. -/
theorem live_leave (hr : r.Records h made) {n : Nat} {k : Kind} (hn : r.kinds.get? n = some k) :
    (r.leave (n + 1)).kinds = r.kinds.erase n ∧
      (r.leave (n + 1)).constructions = r.constructions ∧ (r.leave (n + 1)).live + 1 = r.live := by
  have hleave : r.leave (n + 1) = { r with kinds := r.kinds.erase n, live := r.live - 1 } := by
    rw [leave, Nat.add_sub_cancel, hn]
  have hlength := Table.length_toList_erase hn
  rw [hleave]
  refine ⟨rfl, rfl, ?_⟩
  rw [hr.live]
  dsimp only
  omega

/-- **The last hold of a handle** takes its entry away. -/
theorem erase (hr : r.Records h made) {n : Nat} {cell : Handle} (hn : h.handles.get? n = some cell)
    (hregistry : t.registry = some (r.leave (n + 1))) (hhandles : t.handles = h.handles.erase n) :
    (r.leave (n + 1)).Records t (made ++ (none : Option Kind).toList) := by
  obtain ⟨k, -, hk⟩ := hr.exists_kind hn
  obtain ⟨hkinds, hconstructions, hlive⟩ := hr.live_leave hk
  rw [Option.toList_none, List.append_nil]
  refine ⟨hregistry, ?_, fun m c hm ↦ ?_, ?_, fun m ↦ ?_, hconstructions.trans hr.constructions, ?_⟩
  · rw [hhandles, Table.next_erase, hr.handles]
  · rw [hhandles, Table.get?_erase] at hm
    split at hm
    · cases hm
    · exact hr.numbers m c hm
  · rw [hkinds, Table.next_erase, hr.next]
  · rw [hkinds, hhandles, Table.get?_erase, Table.get?_erase]
    split
    · rfl
    · exact hr.kinds m
  · have hlength := Table.length_toList_erase hk
    have hbefore := hr.live
    rw [hkinds]
    omega

end Registry.Records

namespace Heap

variable {h t : Heap Obj} {r : Registry} {made more : List Kind}

/-- What a single change does to the handles: it leaves them with their numbers, it takes one away,
or it makes one. -/
inductive Turns (h : Heap Obj) : Option Kind → Heap Obj → Prop where
  | keeps {t : Heap Obj} (hregistry : t.registry = h.registry)
    (hnext : t.handles.next = h.handles.next)
    (hcells : ∀ n, (t.handles.get? n).map (·.number) = (h.handles.get? n).map (·.number)) :
    Turns h none t
  | loses {t : Heap Obj} {n : Nat} {cell : Handle} (hn : h.handles.get? n = some cell)
    (hhandles : t.handles = h.handles.erase n)
    (hregistry : ∀ r m, h.registry = some r → cell.number = some m →
      t.registry = some (r.leave m)) :
    Turns h none t
  | gains (b : BlockId) (k : Kind) : Turns h (some k) (h.addHandle b k).2

theorem Turns.of_same (hregistry : t.registry = h.registry) (hhandles : t.handles = h.handles) :
    h.Turns none t :=
  .keeps hregistry (by rw [hhandles]) fun _ ↦ by rw [hhandles]

/-- What changes a cell leaves its number. -/
theorem Turns.of_modify {i : Nat} {f : Handle → Handle} (hregistry : t.registry = h.registry)
    (hhandles : t.handles = h.handles.modify i f) (hf : ∀ cell, (f cell).number = cell.number) :
    h.Turns none t := by
  refine .keeps hregistry (by rw [hhandles, Table.next_modify]) fun n ↦ ?_
  rw [hhandles, Table.get?_modify]
  split
  · rw [Option.map_map]
    exact Option.map_congr fun cell _ ↦ hf cell
  · rfl

theorem turns_dropOne (h : Heap Obj) (x : Hold) : h.Turns none (h.dropOne x).2 := by
  cases x with
  | block b => exact .of_same rfl rfl
  | list l =>
    rw [dropOne]
    split
    · split
      · exact .of_same rfl rfl
      · exact .of_same rfl rfl
    · exact .of_same rfl rfl
  | handle i =>
    rw [dropOne]
    split
    · rename_i cell hcell
      split
      · refine .loses hcell rfl fun r m hr hm ↦ ?_
        rw [hr, hm]
      · exact .of_modify rfl rfl fun _ ↦ rfl
    · exact .of_same rfl rfl

variable [HostObject Obj]

theorem Alters.turns {k : Option Kind} (ha : h.Alters k t) : h.Turns k t := by
  cases ha with
  | retained x =>
    cases x with
    | handle i => exact .of_modify rfl rfl fun _ ↦ rfl
    | block b => exact .of_same rfl rfl
    | list l => exact .of_same rfl rfl
  | dropped x => exact h.turns_dropOne x
  | made hb => exact .gains _ _
  | moved i b => exact .of_modify rfl rfl fun _ ↦ rfl
  | filled name v => exact .of_same rfl rfl
  | listed is => exact .of_same rfl rfl
  | valued b v => exact .of_same rfl rfl
  | ordered l is => exact .of_same rfl rfl
  | blanked b => exact .of_same rfl rfl
  | named names => exact .of_same rfl rfl

omit [HostObject Obj] in
/-- **Every single change** leaves the register right. -/
theorem Turns.records {k : Option Kind} (ht : h.Turns k t) (hr : r.Records h made) :
    ∃ r' : Registry, r'.Records t (made ++ k.toList) := by
  cases ht with
  | keeps hregistry hnext hcells => exact ⟨r, hr.of_same hregistry hnext hcells⟩
  | loses hn hhandles hregistry =>
    exact ⟨_, hr.erase hn (hregistry r _ hr.registry (hr.numbers _ _ hn)) hhandles⟩
  | gains b k => exact ⟨_, hr.addHandle b k⟩

omit [HostObject Obj] in
/-- A handle that is there after a change was there before, or it is new. -/
theorem Turns.older {k : Option Kind} (ht : h.Turns k t) :
    h.handles.next ≤ t.handles.next ∧ ∀ n, (t.handles.get? n).isSome →
      (h.handles.get? n).isSome ∨ h.handles.next ≤ n := by
  cases ht with
  | keeps hregistry hnext hcells =>
    refine ⟨Nat.le_of_eq hnext.symm, fun n hn ↦ .inl ?_⟩
    have hcell := congrArg Option.isSome (hcells n)
    rwa [Option.isSome_map, Option.isSome_map, hn, eq_comm] at hcell
  | loses hcell hhandles hregistry =>
    rw [hhandles, Table.next_erase]
    refine ⟨Nat.le_refl _, fun n hn ↦ .inl ?_⟩
    rw [Table.get?_erase] at hn
    split at hn
    · cases hn
    · exact hn
  | gains b k =>
    refine ⟨(Nat.le_succ _).trans (Nat.le_of_eq (Table.next_insert _ _).symm), fun n hn ↦ ?_⟩
    rw [addHandle, Table.get?_insert] at hn
    split at hn
    · rename_i he
      exact .inr (Nat.le_of_eq he.symm)
    · exact .inl hn

omit [HostObject Obj] in
theorem Turns.next_eq {k : Option Kind} (ht : h.Turns k t) :
    t.handles.next = h.handles.next + k.toList.length := by
  cases ht with
  | keeps hregistry hnext hcells => exact hnext
  | loses hcell hhandles hregistry =>
    rw [hhandles, Table.next_erase]
    rfl
  | gains b k => exact Table.next_insert _ _

omit [HostObject Obj] in
theorem records_empty {config : HeapConfig} (hon : config.instrumented = true) :
    Registry.empty.Records (empty config : Heap Obj) [] where
  registry := by
    rw [empty, hon]
    rfl
  handles := rfl
  numbers n cell hn := by
    rw [empty, Table.get?_empty] at hn
    cases hn
  next := rfl
  kinds n := by
    rw [Registry.empty, Table.get?_empty, empty, Table.get?_empty]
    rfl
  constructions := rfl
  live := rfl

/-- And so does every course of them. -/
theorem Course.records {config : HeapConfig} (hon : config.instrumented = true)
    (hc : (empty config).Course made h) : ∃ r : Registry, r.Records h made := by
  induction hc with
  | start => exact ⟨_, records_empty hon⟩
  | next _ ha ih =>
    obtain ⟨r, hr⟩ := ih
    exact ha.turns.records hr

/-- The next number tells how many handles were made. -/
theorem Course.next_eq (hc : h.Course made t) :
    t.handles.next = h.handles.next + made.length := by
  induction hc with
  | start => rfl
  | next _ ha ih => rw [ha.turns.next_eq, ih, List.length_append, Nat.add_assoc]

/-- Along a course no handle that was gone is there again. -/
theorem Course.older (hc : h.Course made t) :
    h.handles.next ≤ t.handles.next ∧ ∀ n, (t.handles.get? n).isSome →
      (h.handles.get? n).isSome ∨ h.handles.next ≤ n := by
  induction hc with
  | start => exact ⟨Nat.le_refl _, fun n hn ↦ .inl hn⟩
  | next _ ha ih =>
    obtain ⟨hle, hold⟩ := ih
    obtain ⟨hle', hold'⟩ := ha.turns.older
    refine ⟨hle.trans hle', fun n hn ↦ ?_⟩
    rcases hold' n hn with hn | hn
    · exact hold n hn
    · exact .inr (hle.trans hn)

/-! ## The register read out -/

omit [HostObject Obj] in
/-- The handles that are there, in the order in which they were made. -/
def existing (h : Heap Obj) : List HandleId :=
  h.handles.toList.map fun e ↦ ⟨e.1⟩

omit [HostObject Obj] in
theorem mem_existing {i : HandleId} : i ∈ h.existing ↔ (h.handle? i).isSome := by
  rw [existing, List.mem_map, Option.isSome_iff_exists]
  constructor
  · rintro ⟨e, he, rfl⟩
    exact ⟨e.2, Table.mem_toList.1 he⟩
  · rintro ⟨cell, hcell⟩
    exact ⟨(i.index, cell), Table.mem_toList.2 hcell, rfl⟩

/-- The register is right, where the kinds of all handles that were ever made are given, the oldest
first. -/
structure Registered (h : Heap Obj) (made : List Kind) (r : Registry) : Prop where
  registry : h.registry = some r
  /-- It counts the handles that were ever made. -/
  constructions : r.constructions = made.length
  /-- It counts the handles that are there. -/
  live : r.live = h.existing.length
  /-- It has one entry for each: its number, and the kind that it was made with. -/
  entries : List.Forall₂ (fun e i ↦ e.1 = i.index + 1 ∧ made[i.index]? = some e.2)
    r.entries h.existing
  ascending : (r.entries.map (·.1)).Pairwise (· < ·)
  /-- A handle knows its number. -/
  numbers : ∀ i cell, h.handle? i = some cell → cell.number = some (i.index + 1)
  /-- The next handle gets the next number, which no handle had before. -/
  next : ∀ b k, ((h.addHandle b k).2.handle? (h.addHandle b k).1).bind Handle.number =
    some (made.length + 1)
  /-- An entry that leaves finds a count to take one from. -/
  leaves : ∀ e ∈ r.entries, (r.leave e.1).live + 1 = r.live

omit [HostObject Obj] in
theorem registered_of_records (hr : r.Records h made) : h.Registered made r where
  registry := hr.registry
  constructions := hr.constructions
  live := by
    rw [hr.live, existing, List.length_map]
    exact hr.forall₂_toList.length_eq
  entries := by
    rw [Registry.entries, existing, List.forall₂_map_left_iff, List.forall₂_map_right_iff]
    exact hr.forall₂_toList.imp fun e c ⟨he, hk⟩ ↦ ⟨congrArg (· + 1) he, he ▸ hk⟩
  ascending := by
    rw [Registry.entries, List.map_map, List.pairwise_map]
    exact (Table.pairwise_toList _).imp fun hlt ↦ Nat.succ_lt_succ hlt
  numbers i cell hi := hr.numbers i.index cell hi
  next b k := by
    obtain ⟨hregistry, hhandles, hnumbers, -⟩ := hr.addHandle b k
    have hnew : (h.addHandle b k).2.handle? (h.addHandle b k).1 =
        some ⟨1, b, h.registry.map (·.nextNumber)⟩ := by
      rw [handle?]
      exact (Table.get?_insert _ _ _).trans (if_pos rfl)
    rw [hnew, Option.bind_some, hnumbers _ _ hnew]
    exact congrArg (fun n ↦ some (n + 1)) hr.handles
  leaves e he := by
    obtain ⟨⟨n, k⟩, hn, rfl⟩ := List.mem_map.1 he
    exact (hr.live_leave (Table.mem_toList.1 hn)).2.2

end Heap

/-! ## Where handles are -/

namespace Session

variable {s : Session Obj}

/-- A session has a handle: a register refers to it, a cursor has it as an element or as its loop
variable, or it is an element of a container. -/
def Refers (s : Session Obj) (i : HandleId) : Prop :=
  some i ∈ s.references.contents ∨
    (∃ k ∈ s.cursors.contents, i ∈ k.elements ∨ k.bound = some i) ∨
      ∃ l is, s.heap.elements? l = some is ∧ i ∈ is

theorem handle_mem_holds {i : HandleId} : Hold.handle i ∈ s.holds ↔
    some i ∈ s.references.contents ∨
      ∃ k ∈ s.cursors.contents, i ∈ k.elements ∨ k.bound = some i := by
  have hvalue (x : Stored Obj) : Hold.handle i ∉ x.holds := by
    cases x with
    | own v => cases v <;> simp [Stored.holds, Value.holds]
    | snapshot b => simp [Stored.holds]
  have hreference (r : Option HandleId) : Hold.handle i ∈ referenceHolds r ↔ r = some i := by
    cases r <;> simp [referenceHolds, handleHolds, eq_comm]
  have hcursor (k : Cursor) : Hold.handle i ∈ k.holds ↔ i ∈ k.elements ∨ k.bound = some i := by
    simp [Cursor.holds, handleHolds]
  simp only [holds, List.mem_append, List.mem_flatMap, List.mem_map, hvalue, hreference, hcursor,
    and_false, exists_false, or_false, reduceCtorEq, exists_eq_right]

/-- **A handle is there as long as a session has it.** -/
theorem Books.mem_existing (hs : s.Books) {i : HandleId} : i ∈ s.heap.existing ↔ s.Refers i := by
  rw [Heap.mem_existing, Refers, ← or_assoc, ← handle_mem_holds]
  have hcontent : (s.heap.content? (.handle i)).isSome = (s.heap.handle? i).isSome := by
    simp [Heap.content?, Heap.cell?]
  rw [← hcontent]
  constructor
  · intro hi
    rcases hs.exists_holder hi with ⟨y, hy⟩ | hout | hown
    · obtain ⟨k, hk, hmem⟩ := (Heap.mem_holdsOf _).1 hy
      rcases Heap.content?_sort hk with ⟨_, v, rfl, rfl, -⟩ | ⟨_, _, rfl, rfl, -⟩ |
        ⟨l, is, rfl, rfl, hl⟩
      · cases v <;> simp [Content.holds, Value.holds] at hmem
      · simp [Content.holds] at hmem
      · obtain ⟨j, hj, he⟩ := List.mem_map.1 hmem
        cases he
        exact .inr ⟨l, is, hl, hj⟩
    · exact .inl hout
    · simp [Heap.ownHolds] at hown
  · rintro (hout | ⟨l, is, hl, hi⟩)
    · obtain ⟨k, hk⟩ := hs.exists_content?_of_mem hout
      rw [hk]
      rfl
    · exact hs.isSome_of_element hl i hi

variable [HostObject Obj]

/-- **The register is exact.**  In an instrumented runtime it counts, at every moment of a run, the
handles that were ever made and those that are there, and lists the latter by their numbers in
ascending order, each with the kind of the value that it was made for.  The numbers are given in
order, none is given twice, and no entry is taken off an empty count.  This is so after each single
change, in the middle of steps that end with a fault and of packed values that turn out to be none;
and between steps the handles that are there are those that registers, cursors and containers
have. -/
theorem registry_exact {config : HeapConfig} (hon : config.instrumented = true) :
    (∀ made (h : Heap Obj), (Heap.empty config).Course made h → ∃ r, h.Registered made r) ∧
    ∀ s t : Session Obj, (start config).Succeeds s → s.Succeeds t →
      ∃ made more r r', (Heap.empty config).Course made s.heap ∧ s.heap.Course more t.heap ∧
        s.heap.Registered made r ∧ t.heap.Registered (made ++ more) r' ∧
        (∀ i, i ∈ s.heap.existing ↔ s.Refers i) ∧
        ∀ i ∈ t.heap.existing, i ∈ s.heap.existing ∨ made.length ≤ i.index := by
  have hregistered (made : List Kind) (h : Heap Obj) (hc : (Heap.empty config).Course made h) :
      ∃ r, h.Registered made r := by
    obtain ⟨r, hr⟩ := hc.records hon
    exact ⟨r, Heap.registered_of_records hr⟩
  refine ⟨hregistered, fun s t hs ht ↦ ?_⟩
  obtain ⟨made, hmade⟩ := hs.comesTo
  obtain ⟨more, hmore⟩ := ht.comesTo
  obtain ⟨r, hr⟩ := hregistered made _ hmade
  obtain ⟨r', hr'⟩ := hregistered (made ++ more) _ (hmade.trans hmore)
  obtain ⟨_, hrecords⟩ := hmade.records hon
  refine ⟨made, more, r, r', hmade, hmore, hr, hr', fun i ↦ ?_, fun i hi ↦ ?_⟩
  · exact (hs.arises (.start config)).books.mem_existing
  · rw [Heap.mem_existing] at hi ⊢
    rw [← hrecords.handles]
    exact hmore.older.2 i.index hi

/-- An instrumented runtime in which a copied array got new handles for its elements, one of them
was set to a string, the array was dropped, and the bytes of an array were received that end too
early. -/
def copiedArray : Session SampleObject :=
  ((start ⟨true, ⟨4, none⟩⟩).run
    [.bind "h" (.literal (.array [.scalar (.integer 1), .scalar (.string "a")])),
      .copy (.reference "h") "x", .elements "h" (.ownPosition 1) (some "e"),
      .assign "e" (.literal (.scalar (.string "b"))), .drop "h"]).2.received "p"
    [5, 2, 0, 0, 0, 5, 1, 0, 0, 0, 3, 7, 0, 0, 0]

/-- Six handles were made: two elements, the array, a copy of each element, and the element that was
read before the bytes ended.  The elements are left, and the copy to which a register refers. -/
theorem registry_exact_copies :
    ∃ made r, copiedArray.heap.Registered made r ∧ made.length = 6 ∧ r.live = 3 ∧
      r.entries = [(1, .integer), (2, .string), (4, .integer)] ∧
      ∀ i, i ∈ [(⟨0⟩ : HandleId), ⟨1⟩, ⟨3⟩] ↔ copiedArray.Refers i := by
  have hs : (start ⟨true, ⟨4, none⟩⟩).Succeeds copiedArray := by
    unfold copiedArray
    exact (Succeeds.refl.run _).receive _ _
  obtain ⟨made, _, r, _, -, -, hr, -, hrefers, -⟩ :=
    (@registry_exact SampleObject _ ⟨true, ⟨4, none⟩⟩ rfl).2 copiedArray copiedArray hs .refl
  have hexisting : copiedArray.heap.existing = [⟨0⟩, ⟨1⟩, ⟨3⟩] := by decide +kernel
  have hentries : copiedArray.heap.registry.map Registry.entries =
      some [(1, .integer), (2, .string), (4, .integer)] := by
    decide +kernel
  have hmade : copiedArray.heap.registry.map Registry.constructions = some 6 := by decide +kernel
  rw [hr.registry] at hentries hmade
  refine ⟨made, r, hr, ?_, ?_, Option.some.inj hentries, fun i ↦ ?_⟩
  · exact hr.constructions.symm.trans (Option.some.inj hmade)
  · rw [hr.live, hexisting]
    rfl
  · rw [← hrefers, hexisting]

end Session
end ScriptHeap
