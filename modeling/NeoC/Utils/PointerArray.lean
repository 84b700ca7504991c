import NeoC.Foundation.Reports
import NeoC.Utils.PointerTable

/-!
# Arrays of pointers

The `neoc_array_t` of `utils/neoc_array.h` keeps the pointers that its caller
hands it.  Nothing is allocated for an item, so a call that fails has not yet
changed anything.
-/

namespace NeoC

open Foundation

/--
A `neoc_array_t` of `utils/neoc_array.h`.  An item is `none` for `NULL`;
`released` are the items that were handed to the free function, where there is
one.
-/
structure PointerArray (α : Type) where
  table : PointerTable (Option α)
  freeFunc : Bool
  released : List α
deriving DecidableEq

namespace PointerArray

variable {α : Type}

/-! ## The calls -/

/-- `sizeof(neoc_array_t)`. -/
def structSize : Nat := 32

/-- `neoc_array_create_with_capacity`; `none` is `NULL`. -/
def createWithCapacity (alloc : Allocator) (capacity : Nat) :
    Option (PointerArray α) :=
  if alloc.neocGrants structSize = false then
    none
  else
    (PointerTable.new alloc capacity).map fun table =>
      { table, freeFunc := false, released := [] }

/-- `neoc_array_create`. -/
def create (alloc : Allocator) : Option (PointerArray α) :=
  createWithCapacity alloc 16

/-- `neoc_array_create_with_free_func`. -/
def createWithFreeFunc (alloc : Allocator) (freeFunc : Bool) :
    Option (PointerArray α) :=
  (create alloc).map fun array => { array with freeFunc }

/-- `neoc_array_grow`, where the array is full. -/
def makeRoom (alloc : Allocator) : Routine (PointerArray α) Bool :=
  fun array =>
    (.ok (array.table.makeRoom alloc).1,
      { array with table := (array.table.makeRoom alloc).2 })

/-- `array->items[index] = item;` or a `memmove` to an index. -/
def storeAt (index : Nat) (source : Cells (Option α)) :
    Routine (PointerArray α) Unit :=
  fun array =>
    match array.table.items.store index source with
    | .error reason => Call.halt reason array
    | .ok items => (.ok (), { array with table := { array.table with items } })

/-- What is read from the items. -/
def readAt (index count : Nat) : Routine (PointerArray α) (Cells (Option α)) :=
  fun array => (array.table.items.read index count, array)

/-- `array->count` after a call. -/
def setCount (count : Nat) : Routine (PointerArray α) Unit :=
  Call.update fun array =>
    { array with table := { array.table with count } }

/-- `neoc_array_add`. -/
def add (alloc : Allocator) (item : Option α) :
    Routine (PointerArray α) Bool := do
  if ← makeRoom alloc then
    let count ← Call.read (·.table.count)
    storeAt count (Cells.written [item])
    setCount (count + 1)
    pure true
  else
    pure false

/-- The `memmove` that makes room for an item. -/
def moveUp (count index : Nat) : Routine (PointerArray α) Unit :=
  if index < count then do
    let moved ← readAt index (count - index)
    storeAt (index + 1) moved
  else
    pure ()

/-- The `memmove` that fills the gap of an item. -/
def closeGap (count index : Nat) : Routine (PointerArray α) Unit :=
  if index < count - 1 then do
    let moved ← readAt (index + 1) (count - index - 1)
    storeAt index moved
  else
    pure ()

/-- `neoc_array_insert`. -/
def insert (alloc : Allocator) (index : Nat) (item : Option α) :
    Routine (PointerArray α) Bool := do
  let count ← Call.read (·.table.count)
  if index > count then
    pure false
  else if ← makeRoom alloc then
    moveUp count index
    storeAt index (Cells.written [item])
    setCount (count + 1)
    pure true
  else
    pure false

/-- `neoc_array_remove`; for an index outside, `none` is returned. -/
def remove (index : Nat) : Routine (PointerArray α) (Option α) := do
  let count ← Call.read (·.table.count)
  if index ≥ count then
    pure none
  else
    let item ← readAt index 1
    let values ← Call.lift item.load
    closeGap count index
    setCount (count - 1)
    pure (values.head?.bind id)

/-- `if (array->free_func && array->items[index])` it is called. -/
def release (index : Nat) : Routine (PointerArray α) Unit := do
  if ← Call.read (·.freeFunc) then
    let item ← readAt index 1
    let values ← Call.lift item.load
    Call.update fun array =>
      { array with released := array.released ++ values.reduceOption }

/-- `neoc_array_set`. -/
def set (index : Nat) (item : Option α) : Routine (PointerArray α) Bool := do
  let count ← Call.read (·.table.count)
  if index ≥ count then
    pure false
  else
    release index
    storeAt index (Cells.written [item])
    pure true

/-- `neoc_array_reverse`. -/
def reverse : Routine (PointerArray α) Unit := fun array =>
  if array.table.count < 2 then
    (.ok (), array)
  else
    match
      InPlace.exchangeWhile array.table.count 0 (array.table.count - 1)
        array.table.items
    with
    | none => Call.halt .illegalAccess array
    | some items => (.ok (), { array with table := { array.table with items } })

/-! ## Runs and the list they are compared with -/

/-- The calls of a run. -/
inductive Change (α : Type) where
  | add (item : Option α)
  | insert (index : Nat) (item : Option α)
  | remove (index : Nat)
  | set (index : Nat) (item : Option α)
  | reverse

/-- How a call ended that returns whether it succeeded. -/
def report : Outcome Bool → Report
  | .ok true => .succeeded
  | .ok false => .failed
  | .error _ => .halted

/-- A call that cannot fail. -/
def reportAlways {β : Type} : Outcome β → Report
  | .ok _ => .succeeded
  | .error _ => .halted

/--
A call and how it ended.  A removal fails for an index outside; inside, what it
returns is the item, which may be `NULL`.
-/
def perform (step : Allocator × Change α) (array : PointerArray α) :
    Report × PointerArray α :=
  match step.2 with
  | .add item =>
      (report (add step.1 item array).1, (add step.1 item array).2)
  | .insert index item =>
      (report (insert step.1 index item array).1,
        (insert step.1 index item array).2)
  | .remove index =>
      (if index ≥ array.table.count then .failed
        else reportAlways (remove index array).1,
        (remove index array).2)
  | .set index item =>
      (report (set index item array).1, (set index item array).2)
  | .reverse => (reportAlways (reverse array).1, (reverse array).2)

/-- What a call is to do to a list. -/
def Change.apply : Change α → List (Option α) → List (Option α)
  | .add item, list => list ++ [item]
  | .insert index item, list => list.insertIdx index item
  | .remove index, list => list.eraseIdx index
  | .set index item, list => list.set index item
  | .reverse, list => list.reverse

/-- A call and the allocator it meets. -/
abbrev Step (α : Type) := Allocator × Change α

/-- The pointers that the array keeps. -/
def pointers (array : PointerArray α) : Cells (Option α) :=
  array.table.sequence

/-- The array holds a list. -/
structure Holds (array : PointerArray α) (list : List (Option α)) : Prop where
  count_le : array.table.count ≤ array.table.capacity
  items_eq : array.pointers = Cells.written list

/-- What is put in finds its cell, or the call fails before that. -/
def Exact (array : PointerArray α) (step : Step α) : Prop :=
  match step.2 with
  | .add _ => array.table.Roomy
  | .insert index _ => array.table.count < index ∨ array.table.Roomy
  | _ => True

/-! ## Arrays by the lists they hold -/

/-- The items of a list are in front of the free cells. -/
def Stands (array : PointerArray α) (list : List (Option α)) : Prop :=
  ∃ free, array.table.Holds list free

variable {array : PointerArray α} {list : List (Option α)}
variable {free : Cells (Option α)}

theorem Stands.holds (stands : array.Stands list) : array.Holds list := by
  rcases stands with ⟨free, table⟩
  exact ⟨table.count_le, table.sequence_eq⟩

theorem Stands.split (table : array.table.Holds list free) {index : Nat}
    (inside : index ≤ array.table.count) :
    ∃ front back, list = front ++ back ∧ front.length = index := by
  refine
    ⟨list.take index, list.drop index,
      (List.take_append_drop index list).symm, ?_⟩
  rw [table.count_eq] at inside
  rw [List.length_take, Nat.min_eq_left inside]

theorem Stands.split_at (table : array.table.Holds list free) {index : Nat}
    (inside : index < array.table.count) :
    ∃ front item back, list = front ++ item :: back ∧
      front.length = index := by
  rcases Stands.split table (Nat.le_of_lt inside) with
    ⟨front, _ | ⟨item, back⟩, rfl, rfl⟩
  · have count := table.count_eq
    rw [List.append_nil] at count
    omega
  · exact ⟨front, item, back, rfl, rfl⟩

theorem storeAt_run {index : Nat} {source items : Cells (Option α)}
    (stored : array.table.items.store index source = .ok items) :
    storeAt index source array =
      (.ok (), { array with table := { array.table with items } }) := by
  rw [storeAt, stored]

theorem readAt_run {index count : Nat} {cells : Cells (Option α)}
    (read : array.table.items.read index count = .ok cells) :
    readAt index count array = (.ok cells, array) := by
  rw [readAt, read]

/-! ## Insertion -/

/-- The pointers behind the index move one cell further. -/
theorem moveUp_run {front back : List (Option α)}
    {cell : Option (Option α)}
    (table : array.table.Holds (front ++ back) (cell :: free)) :
    ∃ gap,
      moveUp array.table.count front.length array =
        (.ok (),
          { array with
            table :=
              { array.table with
                items :=
                  Cells.written front ++
                    (gap :: Cells.written back ++ free) } }) := by
  have count := table.count_eq
  rw [List.length_append] at count
  rw [moveUp]
  rcases back with _ | ⟨item, rest⟩
  · refine ⟨cell, ?_⟩
    rw [if_neg (by rw [List.length_nil] at count; omega)]
    have same :
        array.table.items =
          Cells.written front ++ (cell :: Cells.written [] ++ free) := by
      rw [table.items_eq, List.append_nil]
      rfl
    rw [← same]
    rfl
  · refine ⟨some item, ?_⟩
    rw [List.length_cons] at count
    have before :
        array.table.items =
          Cells.written front ++
            (Cells.written (item :: rest) ++ cell :: free) := by
      rw [table.items_eq, Cells.written_append, List.append_assoc]
    have read :=
      Cells.read_append (Cells.written front) (Cells.written (item :: rest))
        (cell :: free)
    have turns :
        array.table.count - front.length =
          (Cells.written (item :: rest)).length := by
      rw [Cells.length_written, List.length_cons]
      omega
    rw [← turns, Cells.length_written, ← before] at read
    have stored :=
      @Cells.store_append _ (Cells.written front ++ [some item])
        (Cells.written rest ++ [cell]) (Cells.written (item :: rest)) free
        (by
          rw [List.length_append, Cells.length_written,
            Cells.length_written]
          rfl)
    rw [List.length_append, Cells.length_written] at stored
    have whole :
        (Cells.written front ++ [some item]) ++
            ((Cells.written rest ++ [cell]) ++ free) =
          array.table.items := by
      rw [before]
      simp only [Cells.written, List.map_cons, List.append_assoc,
        List.cons_append, List.nil_append]
    rw [whole] at stored
    rw [if_pos (by omega), Call.bind_of_ok (readAt_run read)]
    refine (storeAt_run stored).trans ?_
    rw [List.append_assoc]
    rfl

/-- Without a cell for it, an item leaves the storage. -/
theorem outside_run {front back : List (Option α)} (item : Option α)
    (table : array.table.Holds (front ++ back) []) (count : Nat) :
    ∃ array',
      (moveUp array.table.count front.length >>= fun _ =>
          storeAt front.length (Cells.written [item]) >>= fun _ =>
            setCount count >>= fun _ => pure true) array =
        (.error .illegalAccess, array') := by
  have full := table.length_eq
  have counted := table.count_eq
  rw [List.length_nil, Nat.add_zero] at full
  rw [List.length_append] at full counted
  have outside (index : Nat) (source : Cells (Option α))
      (beyond : array.table.items.length < index + source.length) :
      storeAt index source array = (.error .illegalAccess, array) := by
    rw [storeAt, Cells.store, if_neg (Nat.not_le.mpr beyond)]
    rfl
  rw [moveUp]
  split
  · have read :
        array.table.items.read front.length
            (array.table.count - front.length) =
          .ok
            ((array.table.items.drop front.length).take
              (array.table.count - front.length)) :=
      Cells.read_of_le (by omega)
    refine ⟨array, Call.bind_of_error ?_⟩
    rw [Call.bind_of_ok (readAt_run read)]
    apply outside
    rw [List.length_take, List.length_drop]
    omega
  · refine ⟨array, ?_⟩
    refine (Call.bind_of_ok (Call.pure_run () array)).trans ?_
    apply Call.bind_of_error
    apply outside
    rw [Cells.length_written, List.length_singleton]
    omega

/-- What is put behind the front of a list, in a table that has room. -/
theorem put_run {front back : List (Option α)} {cell : Option (Option α)}
    (item : Option α)
    (table : array.table.Holds (front ++ back) (cell :: free)) :
    ∃ array',
      (moveUp array.table.count front.length >>= fun _ =>
          storeAt front.length (Cells.written [item]) >>= fun _ =>
            setCount (array.table.count + 1) >>= fun _ => pure true) array =
          (.ok true, array') ∧
        array'.Stands (front ++ item :: back) := by
  rcases moveUp_run table with ⟨gap, moved⟩
  have stored := PointerTable.store_gap front back gap free item
  refine
    ⟨{ array with
      table :=
        { array.table with
          items := Cells.written (front ++ item :: back) ++ free
          count := array.table.count + 1 } },
      ?_, free, table.inserted item⟩
  rw [Call.bind_of_ok moved]
  refine (Call.bind_of_ok (storeAt_run stored)).trans ?_
  rfl

theorem makeRoom_run (alloc : Allocator)
    (table : array.table.Holds list free) :
    array.table.Roomy ∧ makeRoom alloc array = (.ok false, array) ∨
      ∃ table' free',
        makeRoom alloc array = (.ok true, { array with table := table' }) ∧
          table'.Holds list free' ∧ table'.count = array.table.count ∧
          (free' = [] ↔ ¬ array.table.Roomy) := by
  rcases PointerTable.makeRoom_cases alloc table with
    ⟨refused, same⟩ | ⟨-, table', free', grown, holds, roomy⟩
  · refine .inl ⟨.inl refused.1, ?_⟩
    rw [makeRoom, same]
  · refine .inr ⟨table', free', ?_, holds, ?_, roomy⟩
    · rw [makeRoom, grown]
    · rw [holds.count_eq, table.count_eq]

theorem insert_run (alloc : Allocator) {index : Nat} (item : Option α)
    (inside : index ≤ array.table.count) :
    insert alloc index item array =
      (makeRoom alloc >>= fun room =>
        if room = true then
          moveUp array.table.count index >>= fun _ =>
            storeAt index (Cells.written [item]) >>= fun _ =>
              setCount (array.table.count + 1) >>= fun _ => pure true
        else
          pure false) array := by
  rw [insert]
  refine (Call.bind_of_ok (Call.read_run _ _)).trans ?_
  rw [if_neg (Nat.not_lt.mpr inside)]

/-- An item that is added is inserted at the end. -/
theorem add_eq_insert (alloc : Allocator) (item : Option α)
    (array : PointerArray α) :
    add alloc item array = insert alloc array.table.count item array := by
  have count := PointerTable.count_makeRoom alloc array.table
  rw [insert_run alloc item le_rfl, add]
  have ran :
      makeRoom alloc array =
        (.ok (array.table.makeRoom alloc).1,
          { array with table := (array.table.makeRoom alloc).2 }) :=
    rfl
  rw [Call.bind_of_ok ran, Call.bind_of_ok ran]
  split
  · have still :
        moveUp array.table.count array.table.count
            { array with table := (array.table.makeRoom alloc).2 } =
          (.ok (), { array with table := (array.table.makeRoom alloc).2 }) := by
      rw [moveUp, if_neg (Nat.lt_irrefl _)]
      rfl
    rw [Call.bind_of_ok still]
    refine (Call.bind_of_ok (Call.read_run _ _)).trans ?_
    rw [count]
  · rfl

/-! ## How one call can end -/

/-- A call that returns whether it succeeded, as its caller sees it. -/
def seen (result : Outcome Bool × PointerArray α) : Report × PointerArray α :=
  (report result.1, result.2)

theorem insert_ends (stands : array.Stands list) (alloc : Allocator)
    (index : Nat) (item : Option α) :
    Reports.Ends pointers Stands array list (list.insertIdx index item)
      (array.table.count < index ∨ array.table.Roomy)
      (seen (insert alloc index item array)) := by
  by_cases inside : index ≤ array.table.count
  · rcases stands with ⟨free, table⟩
    rw [insert_run alloc item inside]
    rcases makeRoom_run alloc table with
      ⟨roomy, failed⟩ | ⟨table', free', ran, grown, count, roomy⟩
    · rw [Call.bind_of_ok failed]
      exact .fails (.inr roomy) rfl ⟨free, table⟩
    · rw [Call.bind_of_ok ran, if_pos rfl, ← count]
      rcases Stands.split table inside with ⟨front, back, rfl, rfl⟩
      have exact_iff :
          table'.count < front.length ∨ array.table.Roomy ↔ free' ≠ [] := by
        rw [count, or_iff_right (Nat.not_lt.mpr inside), Ne, roomy,
          Decidable.not_not]
      refine Reports.Ends.congr exact_iff.symm ?_
      cases free' with
      | nil =>
          rcases
              @outside_run _ { array with table := table' } front back item
                grown (table'.count + 1) with ⟨array', outside⟩
          rw [outside]
          exact .halts fun some => some rfl
      | cons cell free' =>
          rcases
              @put_run _ { array with table := table' } free' front back cell
                item grown with ⟨array', put, stands⟩
          rw [put, InPlace.insertIdx_here]
          exact .succeeds (List.cons_ne_nil _ _) stands
  · have failed : insert alloc index item array = (.ok false, array) := by
      rw [insert]
      refine (Call.bind_of_ok (Call.read_run _ _)).trans ?_
      rw [if_pos (Nat.not_le.mp inside)]
      rfl
    rw [failed]
    exact .fails (.inl (Nat.not_le.mp inside)) rfl stands

/-- The pointers behind the index move one cell back. -/
theorem closeGap_run {front back : List (Option α)} {item : Option α}
    (table : array.table.Holds (front ++ item :: back) free) :
    ∃ last,
      closeGap array.table.count front.length array =
        (.ok (),
          { array with
            table :=
              { array.table with
                items := Cells.written (front ++ back) ++ last :: free } }) := by
  have count := table.count_eq
  rw [List.length_append, List.length_cons] at count
  rw [closeGap]
  split
  · have some : Cells.written (item :: back) ≠ [] :=
      List.cons_ne_nil _ _
    have parted := List.dropLast_append_getLast some
    have length :
        (Cells.written (item :: back)).dropLast.length =
          (Cells.written back).length := by
      rw [List.length_dropLast, Cells.length_written, Cells.length_written,
        List.length_cons, Nat.add_sub_cancel]
    have before :
        array.table.items =
          Cells.written front ++
            (Cells.written (item :: back) ++ free) := by
      rw [table.items_eq, Cells.written_append, List.append_assoc]
    have read :=
      Cells.read_append (Cells.written (front ++ [item]))
        (Cells.written back) free
    have whole :
        Cells.written (front ++ [item]) ++ (Cells.written back ++ free) =
          array.table.items := by
      rw [table.items_eq, ← List.append_assoc, ← Cells.written_append,
        List.append_assoc front]
      rfl
    have turns :
        (Cells.written back).length =
          array.table.count - front.length - 1 := by
      rw [Cells.length_written]
      omega
    rw [whole, turns, Cells.length_written, List.length_append,
      List.length_singleton] at read
    have stored :=
      @Cells.store_append _ (Cells.written front)
        (Cells.written (item :: back)).dropLast (Cells.written back)
        ((Cells.written (item :: back)).getLast some :: free) length
    rw [Cells.length_written,
      show
        (Cells.written (item :: back)).dropLast ++
            (Cells.written (item :: back)).getLast some :: free =
          ((Cells.written (item :: back)).dropLast ++
            [(Cells.written (item :: back)).getLast some]) ++ free by
        rw [List.append_assoc]
        rfl, parted, ← before] at stored
    refine ⟨(Cells.written (item :: back)).getLast some, ?_⟩
    rw [Call.bind_of_ok (readAt_run read), Cells.written_append,
      List.append_assoc]
    exact storeAt_run stored
  · rename_i last
    have none : back = [] :=
      List.length_eq_zero_iff.mp (by omega)
    subst none
    refine ⟨some item, ?_⟩
    have same :
        array.table.items =
          Cells.written (front ++ []) ++ some item :: free := by
      rw [table.items_eq, Cells.written_append, List.append_nil,
        List.append_assoc]
      rfl
    rw [← same]
    rfl

theorem load_here {front back : List (Option α)} {item : Option α}
    (table : array.table.Holds (front ++ item :: back) free) :
    readAt front.length 1 array = (.ok (Cells.written [item]), array) := by
  have read :=
    Cells.read_append (Cells.written front) (Cells.written [item])
      (Cells.written back ++ free)
  have whole :
      Cells.written front ++
          (Cells.written [item] ++ (Cells.written back ++ free)) =
        array.table.items := by
    rw [table.items_eq, Cells.written_append, List.append_assoc]
    rfl
  rw [whole, Cells.length_written, Cells.length_written] at read
  exact readAt_run read

/-- A removal, as its caller sees it. -/
theorem remove_ends (stands : array.Stands list) (index : Nat) :
    Reports.Ends pointers Stands array list (list.eraseIdx index) True
      (if index ≥ array.table.count then .failed
        else reportAlways (remove index array).1,
        (remove index array).2) := by
  rcases stands with ⟨free, table⟩
  by_cases inside : index < array.table.count
  · rcases Stands.split_at table inside with ⟨front, item, back, rfl, rfl⟩
    rcases closeGap_run table with ⟨last, closed⟩
    have ran :
        remove front.length array =
          (.ok item,
            { array with
              table :=
                { array.table with
                  items := Cells.written (front ++ back) ++ last :: free
                  count := array.table.count - 1 } }) := by
      rw [remove]
      refine (Call.bind_of_ok (Call.read_run _ _)).trans ?_
      rw [if_neg (Nat.not_le.mpr inside), Call.bind_of_ok (load_here table)]
      have loaded :
          (Call.lift (Cells.load (Cells.written [item])) :
              Routine (PointerArray α) (List (Option α))) array =
            (.ok [item], array) := by
        rw [Call.lift_run, Cells.load_written]
      rw [Call.bind_of_ok loaded, Call.bind_of_ok closed]
      rfl
    rw [if_neg (Nat.not_le.mpr inside), ran, InPlace.eraseIdx_here]
    exact .succeeds trivial ⟨last :: free, table.removed last⟩
  · have failed : remove index array = (.ok none, array) := by
      rw [remove]
      refine (Call.bind_of_ok (Call.read_run _ _)).trans ?_
      rw [if_pos (Nat.not_lt.mp inside)]
      rfl
    rw [if_pos (Nat.not_lt.mp inside), failed]
    exact .fails trivial rfl ⟨free, table⟩

/-- What is handed to the free function does not change the items. -/
theorem release_run {front back : List (Option α)} {item : Option α}
    (table : array.table.Holds (front ++ item :: back) free) :
    ∃ released,
      release front.length array = (.ok (), { array with released }) := by
  rw [release]
  by_cases given : array.freeFunc = true
  · refine ⟨array.released ++ [item].reduceOption, ?_⟩
    refine (Call.bind_of_ok (Call.read_run _ _)).trans ?_
    rw [if_pos given, Call.bind_of_ok (load_here table)]
    have loaded :
        (Call.lift (Cells.load (Cells.written [item])) :
            Routine (PointerArray α) (List (Option α))) array =
          (.ok [item], array) := by
      rw [Call.lift_run, Cells.load_written]
    rw [Call.bind_of_ok loaded]
    rfl
  · refine ⟨array.released, ?_⟩
    refine (Call.bind_of_ok (Call.read_run _ _)).trans ?_
    rw [if_neg given]
    rfl

theorem set_ends (stands : array.Stands list) (index : Nat)
    (item : Option α) :
    Reports.Ends pointers Stands array list (list.set index item) True
      (seen (set index item array)) := by
  rcases stands with ⟨free, table⟩
  by_cases inside : index < array.table.count
  · rcases Stands.split_at table inside with ⟨front, old, back, rfl, rfl⟩
    rcases release_run table with ⟨released, ran⟩
    have stored :=
      @storeAt_run _ { array with released } _ _ _ (table.store item)
    have done :
        set front.length item array =
          (.ok true,
            { array with
              table :=
                { array.table with
                  items := Cells.written (front ++ item :: back) ++ free }
              released }) := by
      rw [set]
      refine (Call.bind_of_ok (Call.read_run _ _)).trans ?_
      rw [if_neg (Nat.not_le.mpr inside), Call.bind_of_ok ran,
        Call.bind_of_ok stored]
      rfl
    rw [done, InPlace.set_here]
    exact .succeeds trivial ⟨free, table.exchanged item⟩
  · have failed : set index item array = (.ok false, array) := by
      rw [set]
      refine (Call.bind_of_ok (Call.read_run _ _)).trans ?_
      rw [if_pos (Nat.not_lt.mp inside)]
      rfl
    rw [failed]
    exact .fails trivial rfl ⟨free, table⟩

theorem reverse_ends (stands : array.Stands list) :
    Reports.Ends pointers Stands array list list.reverse True
      (reportAlways (reverse array).1, (reverse array).2) := by
  rcases stands with ⟨free, table⟩
  have count := table.count_eq
  rw [reverse]
  split
  · rename_i short
    have same : list.reverse = list := by
      rcases list with _ | ⟨item, _ | ⟨other, rest⟩⟩
      · rfl
      · rfl
      · simp only [List.length_cons] at count
        omega
    rw [same]
    exact .succeeds trivial ⟨free, table⟩
  · rename_i long
    have exchanged :=
      @InPlace.exchange_eq _ [] (Cells.written list) free
        (array.table.count / 2) (by rw [Cells.length_written, count])
    rw [List.length_nil, Nat.zero_add, Cells.length_written, List.nil_append,
      List.nil_append, ← count, ← table.items_eq] at exchanged
    have loop :
        InPlace.exchangeWhile array.table.count 0 (array.table.count - 1)
            array.table.items =
          some (Cells.written list.reverse ++ free) := by
      rw [InPlace.exchangeWhile_eq (by omega),
        show (array.table.count - 1 - 0 + 1) / 2 = array.table.count / 2 by
          omega, exchanged, Cells.written, Cells.written, List.map_reverse]
    rw [loop]
    refine .succeeds trivial ⟨free, ?_⟩
    have replaced :=
      @PointerTable.Holds.replace _ _ _ _ list.reverse free table
        (by rw [List.length_reverse])
    rwa [List.length_reverse, ← count] at replaced

/-- Every way in which a call can end. -/
theorem perform_ends (stands : array.Stands list) (step : Step α) :
    Reports.Ends pointers Stands array list (step.2.apply list)
      (Exact array step) (perform step array) := by
  rcases step with ⟨alloc, item | ⟨index, item⟩ | index | ⟨index, item⟩ | _⟩
  · have length : array.table.count = list.length := by
      rcases stands with ⟨free, table⟩
      exact table.count_eq
    have same :
        Change.apply (.add item) list =
          list.insertIdx array.table.count item := by
      rw [length, List.insertIdx_length_self]
      rfl
    have exact_iff :
        array.table.count < array.table.count ∨ array.table.Roomy ↔
          array.table.Roomy :=
      or_iff_right (Nat.lt_irrefl _)
    rw [same]
    change Reports.Ends _ _ _ _ _ _ (seen (add alloc item array))
    rw [add_eq_insert]
    exact
      Reports.Ends.congr exact_iff
        (insert_ends stands alloc array.table.count item)
  · exact insert_ends stands alloc index item
  · exact remove_ends stands index
  · exact set_ends stands index item
  · exact reverse_ends stands

/-! ## Runs -/

/-- How an array is made. -/
inductive Start where
  | create
  | createWithCapacity (capacity : Nat)
  | createWithFreeFunc (freeFunc : Bool)

def Start.perform (alloc : Allocator) : Start → Option (PointerArray α)
  | .create => PointerArray.create alloc
  | .createWithCapacity capacity =>
      PointerArray.createWithCapacity alloc capacity
  | .createWithFreeFunc freeFunc =>
      PointerArray.createWithFreeFunc alloc freeFunc

theorem createWithCapacity_stands {alloc : Allocator} {capacity : Nat}
    (made : createWithCapacity alloc capacity = some array) :
    array.Stands [] := by
  rw [createWithCapacity] at made
  split at made
  · cases made
  · rcases Option.map_eq_some_iff.mp made with ⟨table, new, rfl⟩
    exact ⟨_, PointerTable.holds_new new⟩

/-- A new array holds no items. -/
theorem start_stands {alloc : Allocator} {start : Start}
    (made : start.perform alloc = some array) : array.Stands [] := by
  cases start with
  | create => exact createWithCapacity_stands made
  | createWithCapacity capacity => exact createWithCapacity_stands made
  | createWithFreeFunc freeFunc =>
      rcases Option.map_eq_some_iff.mp made with ⟨before, new, rfl⟩
      rcases createWithCapacity_stands new with ⟨free, table⟩
      exact ⟨free, table⟩

/--
Along every run, the calls keep to their reports and the array holds the list
in every state reached, exactly if what is put in finds its cell.
-/
theorem keeps_and_holds {alloc : Allocator} {start : Start}
    (made : start.perform alloc = some array) (steps : List (Step α)) :
    (Along (Reports.next perform) (Reports.Keeps perform pointers) array
          steps ∧
        ∀ reached, reached <+: steps →
          (finalState (Reports.next perform) array reached).Holds
            (predict (Reports.next perform)
              (Reports.follow perform fun step => step.2.apply) array []
              reached)) ↔
      Along (Reports.next perform) Exact array steps :=
  @Reports.keeps_and_holds_iff _ _ _ _ perform
    (fun step => step.2.apply) pointers Stands Holds Exact
    (fun _ _ stands => stands.holds)
    (fun _ _ step stands => perform_ends stands step)
    _ _ (start_stands made) steps

end PointerArray

end NeoC
