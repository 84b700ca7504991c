import NeoC.Foundation.InPlace
import NeoC.Runtime.Cells
import Mathlib.Algebra.Group.Nat.Defs

/-!
# Tables of pointers that grow

Two structures of the library keep pointers in a block that is allocated for a
capacity and doubled when the count has reached it.  The size of the block is a
product reduced modulo `2^64`, so a table can have fewer cells than its
capacity says; a table that is full always has as many.
-/

namespace NeoC

open Foundation

/-- The storage, the count and the capacity of an array of pointers. -/
structure PointerTable (α : Type) where
  items : Cells α
  count : Nat
  capacity : Nat
deriving DecidableEq, Repr

namespace PointerTable

variable {α : Type}

/-! ## The operations -/

/-- `sizeof(void*)`. -/
def pointerSize : Nat := 8

/-- `capacity * sizeof(void*)`. -/
def storageBytes (capacity : Nat) : Nat :=
  capacity * pointerSize % sizeModulus

/-- The pointers there is room for. -/
def storageCells (capacity : Nat) : Nat :=
  storageBytes capacity / pointerSize

/-- The storage of a new array. -/
def new (alloc : Allocator) (capacity : Nat) : Option (PointerTable α) :=
  if alloc.neocGrants (storageBytes capacity) then
    some { items := Cells.fresh (storageCells capacity), count := 0, capacity }
  else
    none

/-- `neoc_realloc` of the storage; `false` stands for `NULL`. -/
def resize (alloc : Allocator) (newCapacity : Nat)
    (table : PointerTable α) : Bool × PointerTable α :=
  if storageBytes newCapacity = 0 then
    -- for a size of zero, `neoc_realloc` frees the storage
    (false, { table with items := [] })
  else if alloc.neocGrants (storageBytes newCapacity) = false then
    (false, table)
  else
    (true,
      { table with
        items := table.items.realloc (storageCells newCapacity)
        capacity := newCapacity })

/-- `capacity * 2`. -/
def doubled (capacity : Nat) : Nat :=
  capacity * 2 % sizeModulus

/-- `if (array->count >= array->capacity)` the storage is doubled. -/
def makeRoom (alloc : Allocator) (table : PointerTable α) :
    Bool × PointerTable α :=
  if table.count ≥ table.capacity then
    resize alloc (doubled table.capacity) table
  else
    (true, table)

/-! ## Tables by what they hold -/

/-- The pointers that count. -/
def sequence (table : PointerTable α) : Cells α :=
  table.items.take table.count

/-- The pointers that count stand in front of the free cells. -/
structure Holds (table : PointerTable α) (pointers : List α)
    (free : Cells α) : Prop where
  items_eq : table.items = Cells.written pointers ++ free
  count_eq : table.count = pointers.length
  cells_eq : table.items.length = storageCells table.capacity
  small : storageBytes table.capacity ≤ ptrdiffMax
  positive : 0 < table.capacity

/-- A table that is not full has a cell left. -/
def Roomy (table : PointerTable α) : Prop :=
  table.capacity ≤ table.count ∨ table.count < table.items.length

/-- A full table is not given more storage. -/
def GrowthRefused (alloc : Allocator) (table : PointerTable α) : Prop :=
  table.capacity ≤ table.count ∧
    alloc.neocGrants (storageBytes (doubled table.capacity)) = false

instance (table : PointerTable α) : Decidable table.Roomy :=
  inferInstanceAs (Decidable (_ ∨ _))

instance (alloc : Allocator) (table : PointerTable α) :
    Decidable (GrowthRefused alloc table) :=
  inferInstanceAs (Decidable (_ ∧ _))

variable {alloc : Allocator} {table : PointerTable α}
variable {pointers : List α} {free : Cells α}

theorem storageCells_eq (capacity : Nat) :
    storageCells capacity = capacity % 2 ^ 61 := by
  rw [storageCells, storageBytes, pointerSize,
    show sizeModulus = 2 ^ 61 * 8 from rfl, Nat.mul_mod_mul_right,
    Nat.mul_div_cancel _ (by decide)]

theorem Holds.sequence_eq (holds : table.Holds pointers free) :
    table.sequence = Cells.written pointers := by
  rw [sequence, holds.items_eq, holds.count_eq]
  exact List.take_left' (Cells.length_written pointers)

theorem Holds.length_eq (holds : table.Holds pointers free) :
    pointers.length + free.length = table.items.length := by
  rw [holds.items_eq, List.length_append, Cells.length_written]

theorem Holds.count_le (holds : table.Holds pointers free) :
    table.count ≤ table.capacity := by
  have length := holds.length_eq
  have inside := Nat.mod_le table.capacity (2 ^ 61)
  rw [holds.cells_eq, storageCells_eq] at length
  rw [holds.count_eq]
  omega

/-- A new table holds nothing. -/
theorem holds_new {capacity : Nat} (made : new alloc capacity = some table) :
    table.Holds [] (Cells.fresh (storageCells capacity)) := by
  rw [new] at made
  split at made
  · rename_i granted
    injection made with same
    rw [← same]
    rw [Allocator.neocGrants, Bool.and_eq_true, decide_eq_true_eq]
      at granted
    refine
      ⟨rfl, rfl, Cells.length_fresh _, alloc.grants_le _ granted.2, ?_⟩
    apply Nat.pos_of_ne_zero
    rintro rfl
    exact granted.1 rfl
  · cases made

/-- Other pointers can stand in the same storage. -/
theorem Holds.replace {pointers' : List α} {free' : Cells α}
    (holds : table.Holds pointers free)
    (same : pointers'.length + free'.length =
      pointers.length + free.length) :
    { table with
      items := Cells.written pointers' ++ free'
      count := pointers'.length }.Holds pointers' free' where
  items_eq := rfl
  count_eq := rfl
  cells_eq := by
    rw [List.length_append, Cells.length_written, same, holds.length_eq]
    exact holds.cells_eq
  small := holds.small
  positive := holds.positive

/-- A full table has as many cells as its capacity says. -/
theorem Holds.full (holds : table.Holds pointers free)
    (full : table.capacity ≤ table.count) :
    free = [] ∧ pointers.length = table.capacity ∧
      table.capacity * 8 ≤ ptrdiffMax := by
  have length := holds.length_eq
  have count := holds.count_eq
  have inside := Nat.mod_le table.capacity (2 ^ 61)
  have below := Nat.mod_lt table.capacity (show 2 ^ 61 > 0 by decide)
  rw [holds.cells_eq, storageCells_eq] at length
  have bytes : storageBytes table.capacity = table.capacity * 8 := by
    apply Nat.mod_eq_of_lt
    rw [pointerSize, show sizeModulus = 2 ^ 64 from rfl]
    omega
  have small := holds.small
  rw [bytes] at small
  exact ⟨List.length_eq_zero_iff.mp (by omega), by omega, small⟩

/-- Twice an honest capacity is not reduced. -/
theorem storageBytes_doubled {capacity : Nat}
    (small : capacity * 8 ≤ ptrdiffMax) :
    doubled capacity = capacity * 2 ∧
      storageBytes (doubled capacity) = capacity * 16 := by
  rw [ptrdiffMax] at small
  have twice : doubled capacity = capacity * 2 := by
    apply Nat.mod_eq_of_lt
    rw [show sizeModulus = 2 ^ 64 from rfl]
    omega
  refine ⟨twice, ?_⟩
  rw [twice, storageBytes, pointerSize, Nat.mul_assoc]
  apply Nat.mod_eq_of_lt
  rw [show sizeModulus = 2 ^ 64 from rfl]
  omega

/-- A full table is given twice the storage. -/
theorem Holds.grown (holds : table.Holds pointers free)
    (full : table.capacity ≤ table.count)
    (granted :
      alloc.neocGrants (storageBytes (doubled table.capacity)) = true) :
    { table with
      items := table.items.realloc (storageCells (doubled table.capacity))
      capacity := doubled table.capacity }.Holds pointers
        (Cells.fresh table.capacity) := by
  rcases holds.full full with ⟨none, length, small⟩
  rcases storageBytes_doubled small with ⟨twice, bytes⟩
  have cells :
      storageCells (doubled table.capacity) = table.capacity * 2 := by
    rw [storageCells, bytes, pointerSize]
    omega
  have all : table.items = Cells.written pointers := by
    rw [holds.items_eq, none, List.append_nil]
  have left : table.capacity * 2 - pointers.length = table.capacity := by
    omega
  refine ⟨?_, holds.count_eq, Cells.length_realloc _ _, ?_, ?_⟩
  · rw [all, Cells.realloc, Cells.length_written, cells, left,
      List.take_of_length_le]
    rw [Cells.length_written]
    omega
  · rw [Allocator.neocGrants, Bool.and_eq_true] at granted
    exact alloc.grants_le _ granted.2
  · have positive := holds.positive
    change 0 < doubled table.capacity
    rw [twice]
    omega

/-- Every way in which room can be made. -/
theorem makeRoom_cases (alloc : Allocator)
    (holds : table.Holds pointers free) :
    GrowthRefused alloc table ∧ makeRoom alloc table = (false, table) ∨
      ¬ GrowthRefused alloc table ∧
        ∃ table' free',
          makeRoom alloc table = (true, table') ∧
            table'.Holds pointers free' ∧ (free' = [] ↔ ¬ table.Roomy) := by
  rw [makeRoom]
  split
  · rename_i full
    rcases storageBytes_doubled (holds.full full).2.2 with ⟨twice, bytes⟩
    have positive := holds.positive
    have some : storageBytes (doubled table.capacity) ≠ 0 := by
      omega
    rw [resize, if_neg some, GrowthRefused]
    split
    · rename_i refused
      exact .inl ⟨⟨full, refused⟩, rfl⟩
    · rename_i granted
      refine
        .inr
          ⟨fun refused => granted refused.2, _,
            Cells.fresh table.capacity, rfl,
            holds.grown full (eq_true_of_ne_false granted), ?_⟩
      refine iff_of_false ?_ (fun narrow => narrow (.inl full))
      rw [← List.length_eq_zero_iff, Cells.length_fresh]
      exact Nat.ne_of_gt holds.positive
  · rename_i apart
    have length := holds.length_eq
    have count := holds.count_eq
    refine
      .inr
        ⟨fun refused => apart refused.1, table, free, rfl, holds, ?_⟩
    rw [Roomy, ← List.length_eq_zero_iff]
    omega

/-! ## Pointers that are put in and taken out -/

variable {front back : List α} {pointer other : α} {cell : Option α}

/-- A pointer takes the place of another one. -/
theorem Holds.exchanged (holds : table.Holds (front ++ other :: back) free)
    (pointer : α) :
    { table with
      items := Cells.written (front ++ pointer :: back) ++ free }.Holds
        (front ++ pointer :: back) free := by
  have length :
      (front ++ pointer :: back).length = (front ++ other :: back).length := by
    simp only [List.length_append, List.length_cons]
  have replaced := holds.replace (congrArg (· + free.length) length)
  rwa [length, ← holds.count_eq] at replaced

/-- One more pointer, and one free cell less. -/
theorem Holds.inserted (holds : table.Holds (front ++ back) (cell :: free))
    (pointer : α) :
    { table with
      items := Cells.written (front ++ pointer :: back) ++ free
      count := table.count + 1 }.Holds (front ++ pointer :: back) free := by
  have length :
      (front ++ pointer :: back).length = (front ++ back).length + 1 := by
    simp only [List.length_append, List.length_cons]
    omega
  have replaced :=
    @Holds.replace _ table _ _ (front ++ pointer :: back) free holds
      (by rw [length, List.length_cons]; omega)
  rwa [length, ← holds.count_eq] at replaced

/-- One pointer less, and one more free cell. -/
theorem Holds.removed (holds : table.Holds (front ++ pointer :: back) free)
    (cell : Option α) :
    { table with
      items := Cells.written (front ++ back) ++ cell :: free
      count := table.count - 1 }.Holds (front ++ back) (cell :: free) := by
  have length :
      (front ++ pointer :: back).length = (front ++ back).length + 1 := by
    simp only [List.length_append, List.length_cons]
    omega
  have replaced :=
    @Holds.replace _ table _ _ (front ++ back) (cell :: free) holds
      (by rw [length, List.length_cons]; omega)
  have count : table.count - 1 = (front ++ back).length := by
    rw [holds.count_eq, length]
    rfl
  rwa [← count] at replaced

/-- A cell of the table is overwritten. -/
theorem Holds.store (holds : table.Holds (front ++ other :: back) free)
    (pointer : α) :
    table.items.store front.length (Cells.written [pointer]) =
      .ok (Cells.written (front ++ pointer :: back) ++ free) := by
  have stored :=
    @Cells.store_append _ (Cells.written front) (Cells.written [other])
      (Cells.written [pointer]) (Cells.written back ++ free) rfl
  rw [Cells.length_written] at stored
  have before :
      table.items =
        Cells.written front ++
          (Cells.written [other] ++ (Cells.written back ++ free)) := by
    rw [holds.items_eq, Cells.written_append, List.append_assoc]
    rfl
  rw [before, stored, Cells.written_append, List.append_assoc]
  rfl

/-- A gap in front of other pointers is filled. -/
theorem store_gap (front back : List α) (gap : Option α) (free : Cells α)
    (pointer : α) :
    (Cells.written front ++ (gap :: Cells.written back ++ free)).store
        front.length (Cells.written [pointer]) =
      .ok (Cells.written (front ++ pointer :: back) ++ free) := by
  have stored :=
    @Cells.store_append _ (Cells.written front) [gap]
      (Cells.written [pointer]) (Cells.written back ++ free) rfl
  rw [Cells.length_written] at stored
  refine stored.trans ?_
  rw [Cells.written_append, List.append_assoc]
  rfl

/-- The count is not changed where room is made. -/
theorem count_makeRoom (alloc : Allocator) (table : PointerTable α) :
    (table.makeRoom alloc).2.count = table.count := by
  rw [makeRoom, resize]
  split
  · split
    · rfl
    · split
      · rfl
      · rfl
  · rfl

end PointerTable

end NeoC
