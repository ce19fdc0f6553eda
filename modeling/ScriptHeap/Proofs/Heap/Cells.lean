import ScriptHeap.Heap.Elements
import ScriptHeap.Proofs.Pool

/-!
# Cells

Blocks, handles and lists are all *cells*: each has a number of holders and a content, and the
content holds other cells.  The operations on the heap are seen here one by one as changes of
single cells.

## What is here

* `Content`, `Heap.cell?` — the contents of cells, and the cell of a name.
* `Heap.Born` — a name that was handed out; no operation hands it out again.
* `Heap.Tidy` — the books of all pools are in order.
* `Heap.filled`, `Heap.withValue`, `Heap.withBlock`, `Heap.withList`, `Heap.withElements` — the
  changes that operations make, each with its effect on cells.
-/

set_option autoImplicit false
namespace ScriptHeap

variable {Obj : Type}

/-! ## Contents -/

/-- What is in a cell: a value in a block, the block of a handle, or the elements in a list. -/
inductive Content (Obj : Type) where
  | value (v : Value Obj)
  | block (b : BlockId)
  | elements (is : List HandleId)

/-- The holds that a content has. -/
def Content.holds : Content Obj → List Hold
  | value v => v.holds
  | block b => [.block b]
  | elements is => handleHolds is

namespace Heap

/-- The number of holders and the content of a cell. -/
def cell? (h : Heap Obj) : Hold → Option (Nat × Content Obj)
  | .block b => (h.find? b).map fun nv ↦ (nv.1, .value nv.2)
  | .handle i => (h.handle? i).map fun c ↦ (c.holders, .block c.block)
  | .list l => (h.list? l).map fun c ↦ (c.holders, .elements c.elements)

/-- The content of a cell. -/
def content? (h : Heap Obj) (x : Hold) : Option (Content Obj) :=
  (h.cell? x).map (·.2)

/-- How many hold a cell; none for a cell that is not there. -/
def count (h : Heap Obj) (x : Hold) : Nat :=
  ((h.cell? x).map (·.1)).getD 0

/-- The holds of a cell. -/
def holdsOf (h : Heap Obj) (x : Hold) : List Hold :=
  ((h.content? x).map Content.holds).getD []

/-- A name that has been handed out. -/
def Born (h : Heap Obj) : Hold → Prop
  | .block b => b.pointer.serial < (h.pools.get b.pool).allocated
  | .handle i => i.index < h.handles.next
  | .list l => l.index < h.lists.next

/-- The books of all pools are in order. -/
def Tidy (h : Heap Obj) : Prop :=
  ∀ name, (h.pools.get name).Tidy

section
variable {h : Heap Obj} {x : Hold} {n : Nat} {k : Content Obj}

theorem content?_eq (hx : h.cell? x = some (n, k)) : h.content? x = some k := by
  rw [content?, hx, Option.map_some]

theorem count_eq (hx : h.cell? x = some (n, k)) : h.count x = n := by
  rw [count, hx, Option.map_some, Option.getD_some]

theorem count_eq_zero (hx : h.cell? x = none) : h.count x = 0 := by
  rw [count, hx, Option.map_none, Option.getD_none]

theorem holdsOf_eq (hx : h.content? x = some k) : h.holdsOf x = k.holds := by
  rw [holdsOf, hx, Option.map_some, Option.getD_some]

theorem exists_cell?_of_content? (hx : h.content? x = some k) : ∃ n, h.cell? x = some (n, k) := by
  cases hc : h.cell? x with
  | none => rw [content?, hc] at hx; cases hx
  | some nk =>
    rw [content?, hc] at hx
    cases hx
    exact ⟨nk.1, rfl⟩

theorem exists_cell?_of_count (hx : 0 < h.count x) : ∃ k, h.cell? x = some (h.count x, k) := by
  cases hc : h.cell? x with
  | none => rw [count_eq_zero hc] at hx; exact absurd hx (Nat.lt_irrefl 0)
  | some nk => exact ⟨nk.2, by rw [count_eq hc]⟩

theorem content?_eq_none (hx : h.cell? x = none) : h.content? x = none := by
  rw [content?, hx, Option.map_none]

theorem mem_holdsOf (y : Hold) : y ∈ h.holdsOf x ↔ ∃ k, h.content? x = some k ∧ y ∈ k.holds := by
  cases hx : h.content? x with
  | none => simp [holdsOf, hx]
  | some k => simp [holdsOf, hx]

/-- A cell has been handed out. -/
theorem born_of_cell? (ht : h.Tidy) (hx : h.cell? x = some (n, k)) : h.Born x := by
  cases x with
  | block b =>
    obtain ⟨nv, hnv, -⟩ := Option.map_eq_some_iff.1 hx
    exact (ht b.pool).serial_lt_of_find? hnv
  | handle i =>
    obtain ⟨c, hc, -⟩ := Option.map_eq_some_iff.1 hx
    exact Table.lt_next_of_get? hc
  | list l =>
    obtain ⟨c, hc, -⟩ := Option.map_eq_some_iff.1 hx
    exact Table.lt_next_of_get? hc

theorem born_of_content? (ht : h.Tidy) (hx : h.content? x = some k) : h.Born x := by
  obtain ⟨n, hn⟩ := exists_cell?_of_content? hx
  exact born_of_cell? ht hn

end

/-! ## What names show -/

section
variable {h : Heap Obj}

theorem cell?_block {b : BlockId} {n : Nat} {v : Value Obj} :
    h.cell? (.block b) = some (n, .value v) ↔ h.find? b = some (n, v) := by
  rw [cell?, Option.map_eq_some_iff]
  constructor
  · rintro ⟨⟨m, w⟩, hnv, he⟩
    cases he
    exact hnv
  · exact fun hnv ↦ ⟨_, hnv, rfl⟩

theorem content?_block {b : BlockId} {v : Value Obj} :
    h.content? (.block b) = some (.value v) ↔ h.valueAt? b = some v := by
  rw [content?, cell?, Option.map_map, valueAt?, Option.map_eq_some_iff, Option.map_eq_some_iff]
  constructor
  · rintro ⟨a, ha, he⟩
    cases he
    exact ⟨a, ha, rfl⟩
  · rintro ⟨a, ha, rfl⟩
    exact ⟨a, ha, rfl⟩

theorem content?_handle {i : HandleId} {b : BlockId} :
    h.content? (.handle i) = some (.block b) ↔ h.blockOf? i = some b := by
  rw [content?, cell?, Option.map_map, blockOf?, Option.map_eq_some_iff, Option.map_eq_some_iff]
  constructor
  · rintro ⟨a, ha, he⟩
    cases he
    exact ⟨a, ha, rfl⟩
  · rintro ⟨a, ha, rfl⟩
    exact ⟨a, ha, rfl⟩

theorem content?_list {l : ListId} {is : List HandleId} :
    h.content? (.list l) = some (.elements is) ↔ h.elements? l = some is := by
  rw [content?, cell?, Option.map_map, elements?, Option.map_eq_some_iff, Option.map_eq_some_iff]
  constructor
  · rintro ⟨a, ha, he⟩
    cases he
    exact ⟨a, ha, rfl⟩
  · rintro ⟨a, ha, rfl⟩
    exact ⟨a, ha, rfl⟩

theorem isSome_of_valueAt? {b : BlockId} {v : Value Obj} (hb : h.valueAt? b = some v) :
    (h.content? (.block b)).isSome := by
  rw [content?_block.2 hb]
  rfl

theorem isSome_of_blockOf? {i : HandleId} {b : BlockId} (hi : h.blockOf? i = some b) :
    (h.content? (.handle i)).isSome := by
  rw [content?_handle.2 hi]
  rfl

theorem isSome_of_elements? {l : ListId} {is : List HandleId} (hl : h.elements? l = some is) :
    (h.content? (.list l)).isSome := by
  rw [content?_list.2 hl]
  rfl

theorem holdsOf_block {b : BlockId} {v : Value Obj} (hb : h.valueAt? b = some v) :
    h.holdsOf (.block b) = v.holds :=
  holdsOf_eq (content?_block.2 hb)

theorem holdsOf_handle {i : HandleId} {b : BlockId} (hi : h.blockOf? i = some b) :
    h.holdsOf (.handle i) = [.block b] :=
  holdsOf_eq (content?_handle.2 hi)

theorem holdsOf_list {l : ListId} {is : List HandleId} (hl : h.elements? l = some is) :
    h.holdsOf (.list l) = handleHolds is :=
  holdsOf_eq (content?_list.2 hl)

/-- A handle holds its block. -/
theorem mem_holdsOf_of_blockOf? {i : HandleId} {b : BlockId} (hi : h.blockOf? i = some b) :
    Hold.block b ∈ h.holdsOf (.handle i) := by
  rw [holdsOf_handle hi]
  exact List.mem_singleton_self _

/-- A list holds its elements. -/
theorem handle_mem_holdsOf {l : ListId} {is : List HandleId} {i : HandleId}
    (hl : h.elements? l = some is) (hi : i ∈ is) : Hold.handle i ∈ h.holdsOf (.list l) := by
  rw [holdsOf_list hl]
  exact List.mem_map.2 ⟨i, hi, rfl⟩

theorem valueAt?_congr {h' : Heap Obj} {b : BlockId}
    (hc : h'.content? (.block b) = h.content? (.block b)) : h'.valueAt? b = h.valueAt? b :=
  Option.ext fun v ↦ by rw [← content?_block, hc, content?_block]

theorem blockOf?_congr {h' : Heap Obj} {i : HandleId}
    (hc : h'.content? (.handle i) = h.content? (.handle i)) : h'.blockOf? i = h.blockOf? i :=
  Option.ext fun b ↦ by rw [← content?_handle, hc, content?_handle]

theorem elements?_congr {h' : Heap Obj} {l : ListId}
    (hc : h'.content? (.list l) = h.content? (.list l)) : h'.elements? l = h.elements? l :=
  Option.ext fun is ↦ by rw [← content?_list, hc, content?_list]

/-! ## The sort of a content -/

section
variable {k : Content Obj}

/-- In a block there is a value. -/
theorem exists_value_of_content? {b : BlockId} (hb : h.content? (.block b) = some k) :
    ∃ v, k = .value v ∧ h.valueAt? b = some v := by
  obtain ⟨⟨n, k⟩, hc, rfl⟩ := Option.map_eq_some_iff.1 hb
  obtain ⟨nv, -, he⟩ := Option.map_eq_some_iff.1 hc
  cases he
  exact ⟨nv.2, rfl, content?_block.1 hb⟩

/-- In a handle there is its block. -/
theorem exists_block_of_content? {i : HandleId} (hi : h.content? (.handle i) = some k) :
    ∃ b, k = .block b ∧ h.blockOf? i = some b := by
  obtain ⟨⟨n, k⟩, hc, rfl⟩ := Option.map_eq_some_iff.1 hi
  obtain ⟨c, -, he⟩ := Option.map_eq_some_iff.1 hc
  cases he
  exact ⟨c.block, rfl, content?_handle.1 hi⟩

/-- In a list there are elements. -/
theorem exists_elements_of_content? {l : ListId} (hl : h.content? (.list l) = some k) :
    ∃ is, k = .elements is ∧ h.elements? l = some is := by
  obtain ⟨⟨n, k⟩, hc, rfl⟩ := Option.map_eq_some_iff.1 hl
  obtain ⟨c, -, he⟩ := Option.map_eq_some_iff.1 hc
  cases he
  exact ⟨c.elements, rfl, content?_list.1 hl⟩

/-- A content is of the sort that its name asks for. -/
theorem content?_sort {x : Hold} (hx : h.content? x = some k) :
    (∃ b v, x = .block b ∧ k = .value v ∧ h.valueAt? b = some v) ∨
      (∃ i b, x = .handle i ∧ k = .block b ∧ h.blockOf? i = some b) ∨
        ∃ l is, x = .list l ∧ k = .elements is ∧ h.elements? l = some is := by
  cases x with
  | block b =>
    obtain ⟨v, hk, hv⟩ := exists_value_of_content? hx
    exact .inl ⟨b, v, rfl, hk, hv⟩
  | handle i =>
    obtain ⟨b, hk, hb⟩ := exists_block_of_content? hx
    exact .inr (.inl ⟨i, b, rfl, hk, hb⟩)
  | list l =>
    obtain ⟨is, hk, his⟩ := exists_elements_of_content? hx
    exact .inr (.inr ⟨l, is, rfl, hk, his⟩)

end

theorem exists_valueAt?_of_isSome {b : BlockId} (hb : (h.content? (.block b)).isSome) :
    ∃ v, h.valueAt? b = some v := by
  obtain ⟨k, hk⟩ := Option.isSome_iff_exists.1 hb
  obtain ⟨v, -, hv⟩ := exists_value_of_content? hk
  exact ⟨v, hv⟩

theorem exists_blockOf?_of_isSome {i : HandleId} (hi : (h.content? (.handle i)).isSome) :
    ∃ b, h.blockOf? i = some b := by
  obtain ⟨k, hk⟩ := Option.isSome_iff_exists.1 hi
  obtain ⟨b, -, hb⟩ := exists_block_of_content? hk
  exact ⟨b, hb⟩

theorem exists_elements?_of_isSome {l : ListId} (hl : (h.content? (.list l)).isSome) :
    ∃ is, h.elements? l = some is := by
  obtain ⟨k, hk⟩ := Option.isSome_iff_exists.1 hl
  obtain ⟨is, -, his⟩ := exists_elements_of_content? hk
  exact ⟨is, his⟩

/-- A block holds one thing at most. -/
theorem eq_of_mem_holdsOf_block {b : BlockId} {y z : Hold} (hy : y ∈ h.holdsOf (.block b))
    (hz : z ∈ h.holdsOf (.block b)) : z = y := by
  obtain ⟨k, hk, -⟩ := (mem_holdsOf y).1 hy
  obtain ⟨u, -, hu⟩ := exists_value_of_content? hk
  rw [holdsOf_block hu] at hy hz
  cases u with
  | scalar s => cases hz
  | array l => exact (List.mem_singleton.1 hz).trans (List.mem_singleton.1 hy).symm
  | struct names l => exact (List.mem_singleton.1 hz).trans (List.mem_singleton.1 hy).symm

end

/-! ## Changes of one cell -/

/-- One cell is changed, made or emptied, and all else stays. -/
structure Changes (h h' : Heap Obj) (x : Hold) (new : Option (Nat × Content Obj)) : Prop where
  cell : ∀ y, h'.cell? y = if y = x then new else h.cell? y
  born : ∀ y, h.Born y → h'.Born y
  tidy : h.Tidy → h'.Tidy
  blank : h'.blank = h.blank

section
variable {h h' : Heap Obj} {x y : Hold} {n : Nat} {k : Content Obj}

/-- Other cells keep their contents. -/
theorem Changes.content?_of_ne {new : Option (Nat × Content Obj)} (hc : h.Changes h' x new)
    (hy : y ≠ x) : h'.content? y = h.content? y := by
  rw [content?, hc.cell, if_neg hy, content?]

theorem Changes.content?_self (hc : h.Changes h' x (some (n, k))) : h'.content? x = some k :=
  content?_eq ((hc.cell x).trans (if_pos rfl))

end

section
variable {h h' : Heap Obj}

theorem Changes.of_pool {b : BlockId} (new : Option (Nat × Value Obj)) (pool : Pool (Value Obj))
    (hh : h'.handles = h.handles) (hl : h'.lists = h.lists) (hblank : h'.blank = h.blank)
    (hp : ∀ name, h'.pools.get name = if name = b.pool then pool else h.pools.get name)
    (hb : ∀ y, pool.find? y = if y = b.pointer then new else (h.pools.get b.pool).find? y)
    (hborn : (h.pools.get b.pool).allocated ≤ pool.allocated)
    (htidy : (h.pools.get b.pool).Tidy → pool.Tidy) :
    h.Changes h' (.block b) (new.map fun nv ↦ (nv.1, .value nv.2)) where
  cell y := by
    cases y with
    | handle i => simp [cell?, handle?, hh]
    | list l => simp [cell?, list?, hl]
    | block c =>
      by_cases hc : c.pool = b.pool
      · have hiff : c = b ↔ c.pointer = b.pointer := by
          cases b; cases c; simp_all
        rw [cell?, find?, hp, if_pos hc, hb]
        by_cases hcb : c.pointer = b.pointer
        · simp [hcb, hiff]
        · simp [hcb, hiff, cell?, find?, hc]
      · have hne : c ≠ b := fun he ↦ hc (he ▸ rfl)
        simp [cell?, find?, hp, hc, hne]
  born y hy := by
    cases y with
    | handle i => rwa [Born, hh]
    | list l => rwa [Born, hl]
    | block c =>
      rw [Born] at hy ⊢
      rw [hp]
      split
      · rename_i hc
        exact Nat.lt_of_lt_of_le (hc ▸ hy) hborn
      · exact hy
  tidy ht name := by
    rw [hp]
    split
    · exact htidy (ht _)
    · exact ht name
  blank := hblank

theorem Changes.of_handles {i : HandleId} (new : Option Handle) (hp : h'.pools = h.pools)
    (hl : h'.lists = h.lists) (hblank : h'.blank = h.blank)
    (hi : ∀ j, h'.handles.get? j = if j = i.index then new else h.handles.get? j)
    (hborn : h.handles.next ≤ h'.handles.next) :
    h.Changes h' (.handle i) (new.map fun c ↦ (c.holders, .block c.block)) where
  cell y := by
    cases y with
    | block b => simp [cell?, find?, hp]
    | list l => simp [cell?, list?, hl]
    | handle j =>
      have hiff : j = i ↔ j.index = i.index := by
        cases i; cases j; simp
      by_cases hj : j.index = i.index
      · simp [cell?, handle?, hi, hj, hiff]
      · simp [cell?, handle?, hi, hj, hiff]
  born y hy := by
    cases y with
    | block b => rwa [Born, hp]
    | list l => rwa [Born, hl]
    | handle j => exact Nat.lt_of_lt_of_le hy hborn
  tidy ht name := by
    rw [hp]
    exact ht name
  blank := hblank

theorem Changes.of_lists {l : ListId} (new : Option ElementList) (hp : h'.pools = h.pools)
    (hh : h'.handles = h.handles) (hblank : h'.blank = h.blank)
    (hl : ∀ j, h'.lists.get? j = if j = l.index then new else h.lists.get? j)
    (hborn : h.lists.next ≤ h'.lists.next) :
    h.Changes h' (.list l) (new.map fun c ↦ (c.holders, .elements c.elements)) where
  cell y := by
    cases y with
    | block b => simp [cell?, find?, hp]
    | handle i => simp [cell?, handle?, hh]
    | list m =>
      have hiff : m = l ↔ m.index = l.index := by
        cases l; cases m; simp
      by_cases hm : m.index = l.index
      · simp [cell?, list?, hl, hm, hiff]
      · simp [cell?, list?, hl, hm, hiff]
  born y hy := by
    cases y with
    | block b => rwa [Born, hp]
    | handle i => rwa [Born, hh]
    | list m => exact Nat.lt_of_lt_of_le hy hborn
  tidy ht name := by
    rw [hp]
    exact ht name
  blank := hblank

end

/-! ## One hold more or less -/

section
variable {h : Heap Obj} {x : Hold} {n : Nat} {k : Content Obj}

/-- One more hold of a cell that is there. -/
theorem changes_retainOne (hx : h.cell? x = some (n, k)) :
    h.Changes (h.retainOne x) x (some (n + 1, k)) := by
  cases x with
  | block b =>
    obtain ⟨⟨n, v⟩, hf, he⟩ := Option.map_eq_some_iff.1 hx
    cases he
    rw [find?] at hf
    refine Changes.of_pool (some (n + 1, v)) ((h.pools.get b.pool).retain b.pointer) rfl rfl rfl
      (fun name ↦ Pools.get_update _ _ _ _) (fun y ↦ ?_) ?_ fun ht ↦ ht.retain _
    · rw [Pool.find?_retain, hf]
      rfl
    · exact Nat.le_of_eq (Pool.allocated_retain ..).symm
  | handle i =>
    obtain ⟨c, hc, he⟩ := Option.map_eq_some_iff.1 hx
    cases he
    refine Changes.of_handles (some { c with holders := c.holders + 1 }) rfl rfl rfl
      (fun j ↦ ?_) (Nat.le_of_eq (Table.next_modify _ _ _).symm)
    rw [handle?] at hc
    by_cases hj : j = i.index
    · simp [retainOne, Table.get?_modify, hj, hc]
    · simp [retainOne, Table.get?_modify, hj, Ne.symm hj]
  | list l =>
    obtain ⟨c, hc, he⟩ := Option.map_eq_some_iff.1 hx
    cases he
    refine Changes.of_lists (some { c with holders := c.holders + 1 }) rfl rfl rfl
      (fun j ↦ ?_) (Nat.le_of_eq (Table.next_modify _ _ _).symm)
    rw [list?] at hc
    by_cases hj : j = l.index
    · simp [retainOne, Table.get?_modify, hj, hc]
    · simp [retainOne, Table.get?_modify, hj, Ne.symm hj]

/-- The last hold of a cell: the cell is emptied, and its own holds are left. -/
theorem changes_dropOne_of_le (hx : h.cell? x = some (n, k)) (hn : n ≤ 1) :
    (h.dropOne x).1 = k.holds ∧ h.Changes (h.dropOne x).2 x none := by
  cases x with
  | block b =>
    obtain ⟨⟨n, v⟩, hf, he⟩ := Option.map_eq_some_iff.1 hx
    cases he
    have hrelease := fun y ↦ Pool.find?_release_of_le (y := y) hf hn
    refine ⟨?_, Changes.of_pool none ((h.pools.get b.pool).release b.pointer).2 rfl rfl rfl
      (fun name ↦ Pools.get_update h.pools b.pool name fun p ↦ p.release b.pointer)
      (fun y ↦ (hrelease y).2) ?_ fun ht ↦ ht.release _⟩
    · simp only [dropOne, Pools.fst_update, (hrelease b.pointer).1]
      rfl
    · exact Nat.le_of_eq (Pool.allocated_release ..).symm
  | handle i =>
    obtain ⟨c, hc, he⟩ := Option.map_eq_some_iff.1 hx
    cases he
    simp only [dropOne, hc, if_pos hn]
    refine ⟨rfl, Changes.of_handles none rfl rfl rfl (fun j ↦ ?_)
      (Nat.le_of_eq (Table.next_erase _ _).symm)⟩
    simp only [Table.get?_erase, eq_comm]
  | list l =>
    obtain ⟨c, hc, he⟩ := Option.map_eq_some_iff.1 hx
    cases he
    simp only [dropOne, hc, if_pos hn]
    refine ⟨rfl, Changes.of_lists none rfl rfl rfl (fun j ↦ ?_)
      (Nat.le_of_eq (Table.next_erase _ _).symm)⟩
    simp only [Table.get?_erase, eq_comm]

/-- A hold of a cell that others hold too. -/
theorem changes_dropOne_of_lt (hx : h.cell? x = some (n, k)) (hn : 1 < n) :
    (h.dropOne x).1 = [] ∧ h.Changes (h.dropOne x).2 x (some (n - 1, k)) := by
  cases x with
  | block b =>
    obtain ⟨⟨n, v⟩, hf, he⟩ := Option.map_eq_some_iff.1 hx
    cases he
    have hrelease := fun y ↦ Pool.find?_release_of_lt (y := y) hf hn
    refine ⟨?_, Changes.of_pool (some (n - 1, v)) ((h.pools.get b.pool).release b.pointer).2 rfl rfl
      rfl (fun name ↦ Pools.get_update h.pools b.pool name fun p ↦ p.release b.pointer)
      (fun y ↦ (hrelease y).2) ?_ fun ht ↦ ht.release _⟩
    · simp only [dropOne, Pools.fst_update, (hrelease b.pointer).1]
      rfl
    · exact Nat.le_of_eq (Pool.allocated_release ..).symm
  | handle i =>
    obtain ⟨c, hc, he⟩ := Option.map_eq_some_iff.1 hx
    cases he
    simp only [dropOne, hc, if_neg (Nat.not_le.2 hn)]
    refine ⟨trivial, Changes.of_handles (some { c with holders := c.holders - 1 }) rfl rfl rfl
      (fun j ↦ ?_) (Nat.le_of_eq (Table.next_modify _ _ _).symm)⟩
    rw [handle?] at hc
    by_cases hj : j = i.index
    · simp [Table.get?_modify, hj, hc]
    · simp [Table.get?_modify, hj, Ne.symm hj]
  | list l =>
    obtain ⟨c, hc, he⟩ := Option.map_eq_some_iff.1 hx
    cases he
    simp only [dropOne, hc, if_neg (Nat.not_le.2 hn)]
    refine ⟨trivial, Changes.of_lists (some { c with holders := c.holders - 1 }) rfl rfl rfl
      (fun j ↦ ?_) (Nat.le_of_eq (Table.next_modify _ _ _).symm)⟩
    rw [list?] at hc
    by_cases hj : j = l.index
    · simp [Table.get?_modify, hj, hc]
    · simp [Table.get?_modify, hj, Ne.symm hj]

end

/-! ## New cells -/

/-- The heap with a new block for a value. -/
def filled (h : Heap Obj) (name : PoolName) (v : Value Obj) : BlockId × Heap Obj :=
  let (pointer, pools) := h.pools.update name fun p ↦ p.fill v
  (⟨name, pointer⟩, { h with pools := pools })

theorem changes_filled {h : Heap Obj} {name : PoolName} (ht : h.Tidy)
    (hfree : (h.pools.get name).isExhausted = false) (v : Value Obj) :
    ¬ h.Born (.block (h.filled name v).1) ∧
      h.Changes (h.filled name v).2 (.block (h.filled name v).1) (some (1, .value v)) := by
  have hfst : (h.filled name v).1 = ⟨name, ((h.pools.get name).fill v).1⟩ := by
    simp only [filled, Pools.fst_update]
  rw [hfst]
  refine ⟨?_, Changes.of_pool (some (1, v)) ((h.pools.get name).fill v).2 rfl rfl rfl
    (fun other ↦ Pools.get_update h.pools name other fun p ↦ p.fill v)
    (fun y ↦ Pool.find?_fill (ht name) hfree v y) ?_ fun hp ↦ hp.fill hfree v⟩
  · simp only [Born, Pool.serial_fill hfree v]
    exact Nat.lt_irrefl _
  · rw [Pool.allocated_fill hfree]
    exact Nat.le_succ _

theorem changes_addHandle (h : Heap Obj) (b : BlockId) (k : Kind) :
    ¬ h.Born (.handle (h.addHandle b k).1) ∧
      h.Changes (h.addHandle b k).2 (.handle (h.addHandle b k).1) (some (1, .block b)) := by
  refine ⟨Nat.lt_irrefl _, Changes.of_handles
    (some ⟨1, b, h.registry.map (·.nextNumber)⟩) rfl rfl rfl (fun j ↦ ?_) ?_⟩
  · exact Table.get?_insert _ _ _
  · exact Nat.le_trans (Nat.le_succ _) (Nat.le_of_eq (Table.next_insert _ _).symm)

/-- The heap with a new list. -/
def withList (h : Heap Obj) (is : List HandleId) : ListId × Heap Obj :=
  (⟨h.lists.next⟩, { h with lists := h.lists.insert ⟨1, is⟩ })

theorem changes_withList (h : Heap Obj) (is : List HandleId) :
    ¬ h.Born (.list (h.withList is).1) ∧
      h.Changes (h.withList is).2 (.list (h.withList is).1) (some (1, .elements is)) := by
  refine ⟨Nat.lt_irrefl _, Changes.of_lists (some ⟨1, is⟩) rfl rfl rfl (fun j ↦ ?_) ?_⟩
  · exact Table.get?_insert _ _ _
  · exact Nat.le_trans (Nat.le_succ _) (Nat.le_of_eq (Table.next_insert _ _).symm)

/-! ## Other contents -/

/-- The heap with another value in a block. -/
def withValue (h : Heap Obj) (b : BlockId) (v : Value Obj) : Heap Obj :=
  { h with pools := (h.pools.update b.pool fun p ↦ ((), p.write b.pointer v)).2 }

theorem changes_withValue {h : Heap Obj} {b : BlockId} {k : Content Obj}
    (hb : h.cell? (.block b) = some (1, k)) (v : Value Obj) :
    h.Changes (h.withValue b v) (.block b) (some (1, .value v)) := by
  obtain ⟨⟨n, w⟩, hf, he⟩ := Option.map_eq_some_iff.1 hb
  cases he
  refine Changes.of_pool (some (1, v)) ((h.pools.get b.pool).write b.pointer v) rfl rfl rfl
    (fun name ↦ Pools.get_update _ _ _ _) (fun y ↦ Pool.find?_write hf v) ?_ fun ht ↦ ht.write _ _
  exact Nat.le_of_eq (Pool.allocated_write ..).symm

theorem valueAt?_withValue {h : Heap Obj} {b : BlockId} {k : Content Obj}
    (hb : h.cell? (.block b) = some (1, k)) (v : Value Obj) :
    (h.withValue b v).valueAt? b = some v :=
  content?_block.1 (changes_withValue hb v).content?_self

theorem valueAt?_withValue_of_ne {h : Heap Obj} {b c : BlockId} {k : Content Obj}
    (hb : h.cell? (.block b) = some (1, k)) (v : Value Obj) (hc : c ≠ b) :
    (h.withValue b v).valueAt? c = h.valueAt? c :=
  valueAt?_congr ((changes_withValue hb v).content?_of_ne fun he ↦ hc (Hold.block.inj he))

theorem update_self {α β : Type} (ps : Pools α) (name : PoolName) (f : Pool α → β × Pool α)
    (hf : (f (ps.get name)).2 = ps.get name) : (ps.update name f).2 = ps := by
  cases ps
  cases name <;> simpa [Pools.update, Pools.get] using hf

theorem withValue_self {h : Heap Obj} {b : BlockId} {v : Value Obj} (hb : h.valueAt? b = some v) :
    h.withValue b v = h := by
  obtain ⟨⟨n, w⟩, hf, he⟩ := Option.map_eq_some_iff.1 hb
  cases he
  have hsame : (h.pools.update b.pool fun p ↦ ((), p.write b.pointer w)).2 = h.pools :=
    update_self _ _ _ (Pool.write_self hf)
  rw [withValue, hsame]

/-- The heap with another block for a handle. -/
def withBlock (h : Heap Obj) (i : HandleId) (b : BlockId) : Heap Obj :=
  { h with handles := h.handles.modify i.index fun c ↦ { c with block := b } }

theorem changes_withBlock {h : Heap Obj} {i : HandleId} {n : Nat} {k : Content Obj}
    (hi : h.cell? (.handle i) = some (n, k)) (b : BlockId) :
    h.Changes (h.withBlock i b) (.handle i) (some (n, .block b)) := by
  obtain ⟨c, hc, he⟩ := Option.map_eq_some_iff.1 hi
  cases he
  refine Changes.of_handles (some { c with block := b }) rfl rfl rfl (fun j ↦ ?_)
    (Nat.le_of_eq (Table.next_modify _ _ _).symm)
  rw [handle?] at hc
  by_cases hj : j = i.index
  · simp [withBlock, Table.get?_modify, hj, hc]
  · simp [withBlock, Table.get?_modify, hj, Ne.symm hj]

/-- The heap with other elements in a list. -/
def withElements (h : Heap Obj) (l : ListId) (is : List HandleId) : Heap Obj :=
  { h with lists := h.lists.modify l.index fun c ↦ { c with elements := is } }

theorem changes_withElements {h : Heap Obj} {l : ListId} {n : Nat} {k : Content Obj}
    (hl : h.cell? (.list l) = some (n, k)) (is : List HandleId) :
    h.Changes (h.withElements l is) (.list l) (some (n, .elements is)) := by
  obtain ⟨c, hc, he⟩ := Option.map_eq_some_iff.1 hl
  cases he
  refine Changes.of_lists (some { c with elements := is }) rfl rfl rfl (fun j ↦ ?_)
    (Nat.le_of_eq (Table.next_modify _ _ _).symm)
  rw [list?] at hc
  by_cases hj : j = l.index
  · simp [withElements, Table.get?_modify, hj, hc]
  · simp [withElements, Table.get?_modify, hj, Ne.symm hj]

theorem blockOf?_withBlock {h : Heap Obj} {i : HandleId} {n : Nat} {k : Content Obj}
    (hi : h.cell? (.handle i) = some (n, k)) (b : BlockId) :
    (h.withBlock i b).blockOf? i = some b :=
  content?_handle.1 (changes_withBlock hi b).content?_self

theorem blockOf?_withBlock_of_ne {h : Heap Obj} {i j : HandleId} {n : Nat} {k : Content Obj}
    (hi : h.cell? (.handle i) = some (n, k)) (b : BlockId) (hj : j ≠ i) :
    (h.withBlock i b).blockOf? j = h.blockOf? j :=
  blockOf?_congr ((changes_withBlock hi b).content?_of_ne fun he ↦ hj (Hold.handle.inj he))

theorem elements?_withElements {h : Heap Obj} {l : ListId} {is : List HandleId}
    (hl : h.elements? l = some is) (is' : List HandleId) :
    (h.withElements l is').elements? l = some is' := by
  obtain ⟨n, hn⟩ := exists_cell?_of_content? (content?_list.2 hl)
  exact content?_list.1 (changes_withElements hn is').content?_self

end Heap
end ScriptHeap
