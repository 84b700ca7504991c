import NeoC.Runtime.Cells

/-!
# Iterators over arrays

An iterator of an array is a cursor in it.  The conversion to an array first
counts the items by going through them to the end, and then copies items for
as long as there is a next one.  The cursor is not moved back in between, so
there never is one: the array that is returned has room for all the items and
none of them in it, unless there were none to begin with.
-/

namespace NeoC

open Foundation

/--
A `neoc_iterator_t` with its `array_iterator_context_t`.  There are no other
iterators, so the function pointers are those of the functions below.
-/
structure ArrayIterator where
  items : List UInt8
  count : Nat
  itemSize : Nat
  currentIndex : Nat
deriving DecidableEq, Repr

namespace ArrayIterator

/-! ## The calls -/

/-- `sizeof(neoc_iterator_t)`. -/
def structSize : Nat := 40

/-- `sizeof(array_iterator_context_t)`. -/
def contextSize : Nat := 32

/-- `neoc_iterator_create_from_array`; `none` is `NULL`. -/
def createFromArray (alloc : Allocator) (items : Option (List UInt8))
    (count itemSize : Nat) : Outcome ArrayIterator :=
  match items with
  | none => .error (.error .invalidArgument "Invalid parameters")
  | some items =>
      if count = 0 ∨ itemSize = 0 then
        .error (.error .invalidArgument "Invalid parameters")
      else if alloc.neocGrants structSize = false then
        .error (.error .outOfMemory "Failed to allocate iterator")
      else if alloc.neocGrants contextSize = false then
        .error (.error .outOfMemory "Failed to allocate iterator context")
      else
        .ok { items, count, itemSize, currentIndex := 0 }

/-- `neoc_iterator_has_next`, which calls `array_has_next`. -/
def hasNext (iter : ArrayIterator) : Bool :=
  decide (iter.currentIndex < iter.count)

/--
`neoc_iterator_next`, which calls `array_next`: the offset of the item that
the pointer points to, or `none` for `NULL`.
-/
def next : Routine ArrayIterator (Option Nat) :=
  fun iter =>
    if iter.currentIndex ≥ iter.count then
      (.ok none, iter)
    else
      (.ok (some (iter.currentIndex * iter.itemSize % sizeModulus)),
        { iter with currentIndex := iter.currentIndex + 1 })

/-- The first loop of `neoc_iterator_to_array`. -/
def countItems :
    (fuel itemCount : Nat) → Routine ArrayIterator Nat
  | 0, _ => Call.halt .divergence
  | fuel + 1, itemCount => do
      if ← Call.read hasNext then
        let _ ← next
        countItems fuel (itemCount + 1)
      else
        pure itemCount

/-- The second loop of `neoc_iterator_to_array`. -/
def copyItems (itemCount itemSize : Nat) :
    (fuel itemsCopied currentPos : Nat) → (array : Cells UInt8) →
      Routine ArrayIterator (Cells UInt8)
  | 0, _, _, _ => Call.halt .divergence
  | fuel + 1, itemsCopied, currentPos, array => do
      let iter ← Call.read id
      if itemsCopied < itemCount ∧ iter.hasNext = true then
        match ← next with
        | none =>
            copyItems itemCount itemSize fuel itemsCopied currentPos array
        | some item =>
            let source ←
              Call.lift ((Cells.written iter.items).read item itemSize)
            let array ← Call.lift (array.store currentPos source)
            copyItems itemCount itemSize fuel (itemsCopied + 1)
              (currentPos + itemSize) array
      else
        pure array

/--
`neoc_iterator_to_array`: the array, or `none` for `NULL`, and the count.

Every turn of a loop moves the cursor, so a loop that is still running after
`count + 1` tests of its condition never ends.
-/
def toArray (alloc : Allocator) (itemSize : Nat) :
    Routine ArrayIterator (Option (Cells UInt8) × Nat) :=
  if itemSize = 0 then
    errorSet .invalidArgument "Invalid parameters"
  else do
    let turns ← Call.read fun iter => iter.count + 1
    let itemCount ← countItems turns 0
    if itemCount = 0 then
      pure (none, 0)
    else if
        alloc.neocGrants (itemCount * itemSize % sizeModulus) = false then
      errorSet .outOfMemory "Failed to allocate array"
    else
      let array ←
        copyItems itemCount itemSize turns 0 0
          (Cells.fresh (itemCount * itemSize % sizeModulus))
      pure (some array, itemCount)

/-! ## The cursor -/

variable {iter : ArrayIterator}

/-- The iterator with its cursor somewhere else. -/
def moved (iter : ArrayIterator) (index : Nat) : ArrayIterator :=
  { iter with currentIndex := index }

@[simp]
theorem moved_moved (first second : Nat) :
    (iter.moved first).moved second = iter.moved second :=
  rfl

@[simp]
theorem moved_currentIndex : iter.moved iter.currentIndex = iter :=
  rfl

theorem next_of_lt (inside : iter.currentIndex < iter.count) :
    next iter =
      (.ok (some (iter.currentIndex * iter.itemSize % sizeModulus)),
        iter.moved (iter.currentIndex + 1)) :=
  if_neg (Nat.not_le.mpr inside)

/-- Calls that do not run over the end move the cursor by one each. -/
theorem times_next (calls : Nat)
    (inside : iter.currentIndex + calls ≤ iter.count) :
    ∃ items,
      Call.times next calls iter =
        (.ok items, iter.moved (iter.currentIndex + calls)) := by
  induction calls generalizing iter with
  | zero => exact ⟨[], rfl⟩
  | succ calls induction =>
      have shorter :
          (iter.moved (iter.currentIndex + 1)).currentIndex + calls ≤
            (iter.moved (iter.currentIndex + 1)).count := by
        change iter.currentIndex + 1 + calls ≤ iter.count
        omega
      rcases induction shorter with ⟨items, later⟩
      have end_ :
          (iter.moved (iter.currentIndex + 1)).currentIndex + calls =
            iter.currentIndex + (calls + 1) := by
        change iter.currentIndex + 1 + calls = _
        omega
      rw [moved_moved, end_] at later
      refine
        ⟨some (iter.currentIndex * iter.itemSize % sizeModulus) :: items,
          ?_⟩
      refine (Call.bind_of_ok (next_of_lt (by omega))).trans ?_
      exact Call.bind_of_ok later

/-- The items that are left are counted, and none is left then. -/
theorem countItems_eq {fuel : Nat} (itemCount : Nat)
    (inside : iter.currentIndex ≤ iter.count)
    (enough : iter.count - iter.currentIndex < fuel) :
    countItems fuel itemCount iter =
      (.ok (itemCount + (iter.count - iter.currentIndex)),
        iter.moved iter.count) := by
  induction fuel generalizing iter itemCount with
  | zero => omega
  | succ fuel induction =>
      rw [countItems]
      refine (Call.bind_of_ok (Call.read_run _ _)).trans ?_
      rw [hasNext]
      by_cases more : iter.currentIndex < iter.count
      · have later :=
          @induction (iter.moved (iter.currentIndex + 1))
            (itemCount + 1) more
            (by
              change iter.count - (iter.currentIndex + 1) < fuel
              omega)
        rw [if_pos (decide_eq_true more)]
        refine (Call.bind_of_ok (next_of_lt more)).trans ?_
        rw [later]
        change
          (Except.ok
              (itemCount + 1 + (iter.count - (iter.currentIndex + 1))),
            iter.moved iter.count) = _
        congr 2
        omega
      · have done : iter.currentIndex = iter.count := by
          omega
        rw [if_neg (by simpa using more), done, Nat.sub_self,
          Nat.add_zero, ← done, moved_currentIndex]
        rfl

/-- Behind the last item, nothing is copied. -/
theorem copyItems_of_done {fuel itemCount itemSize : Nat}
    (done : iter.hasNext = false) (positive : 0 < fuel)
    (array : Cells UInt8) :
    copyItems itemCount itemSize fuel 0 0 array iter =
      (.ok array, iter) := by
  cases fuel with
  | zero => omega
  | succ fuel =>
      rw [copyItems]
      refine (Call.bind_of_ok (Call.read_run _ _)).trans ?_
      rw [if_neg]
      · rfl
      · rintro ⟨-, more⟩
        exact Bool.noConfusion (done.symm.trans more)

/-- What the conversion returns: room for the items that were left. -/
theorem toArray_eq (alloc : Allocator) {itemSize : Nat}
    (positive : itemSize ≠ 0)
    (inside : iter.currentIndex ≤ iter.count) :
    (toArray alloc itemSize iter).1 =
      if iter.currentIndex = iter.count then
        .ok (none, 0)
      else if
          alloc.neocGrants
            ((iter.count - iter.currentIndex) * itemSize % sizeModulus) =
              false then
        .error (.error .outOfMemory "Failed to allocate array")
      else
        .ok
          (some
            (Cells.fresh
              ((iter.count - iter.currentIndex) * itemSize % sizeModulus)),
            iter.count - iter.currentIndex) := by
  have counted :=
    @countItems_eq iter (iter.count + 1) 0 inside (by omega)
  rw [Nat.zero_add] at counted
  rw [toArray, if_neg positive]
  refine (congrArg Prod.fst (Call.bind_of_ok (Call.read_run _ _))).trans ?_
  refine (congrArg Prod.fst (Call.bind_of_ok counted)).trans ?_
  by_cases done : iter.currentIndex = iter.count
  · rw [if_pos done, if_pos (by omega)]
    rfl
  · rw [if_neg done, if_neg (by omega)]
    split
    · rfl
    · have behind : (iter.moved iter.count).hasNext = false :=
        decide_eq_false (Nat.lt_irrefl _)
      exact
        congrArg Prod.fst
          (Call.bind_of_ok (copyItems_of_done behind (Nat.succ_pos _) _))

/-! ## What the array should hold -/

variable {size : Nat}

/-- The array of some items, one behind the other. -/
def bytesOf (items : List (Bytes size)) : List UInt8 :=
  items.flatMap Subtype.val

/-- The result of a conversion is the number of items and the items. -/
def Delivers (result : Outcome (Option (Cells UInt8) × Nat))
    (items : List (Bytes size)) : Prop :=
  ∃ array,
    result = .ok (array, items.length) ∧
      array.getD [] = Cells.written (bytesOf items)

theorem createFromArray_eq_ok {alloc : Allocator}
    {items : Option (List UInt8)} {count itemSize : Nat}
    (created : createFromArray alloc items count itemSize = .ok iter) :
    itemSize ≠ 0 ∧ iter.count = count ∧ iter.currentIndex = 0 := by
  cases items with
  | none => cases created
  | some items =>
      rw [createFromArray] at created
      split at created
      · cases created
      rename_i valid
      split at created
      · cases created
      split at created
      · cases created
      injection created with same
      rw [← same]
      exact ⟨fun zero => valid (.inr zero), rfl, rfl⟩

/-- A new object holds nothing. -/
theorem fresh_ne_written {items : List (Bytes size)} (positive : size ≠ 0)
    (some : items ≠ []) (room : Nat) :
    Cells.fresh room ≠ Cells.written (bytesOf items) := by
  intro same
  rcases List.exists_cons_of_ne_nil some with ⟨first, rest, rfl⟩
  have long : first.val ≠ [] := by
    intro empty
    have length := first.property
    rw [empty] at length
    exact positive length.symm
  rcases List.exists_cons_of_ne_nil long with ⟨byte, others, bytes⟩
  have member :
      Option.some byte ∈ Cells.written (bytesOf (first :: rest)) := by
    apply List.mem_map_of_mem
    rw [bytesOf, List.flatMap_cons, bytes]
    exact List.mem_cons_self
  rw [← same] at member
  cases List.eq_of_mem_replicate member

/--
An iterator over items of which some were taken delivers the others exactly
if there are none.
-/
theorem delivers_iff (creator alloc : Allocator)
    (items : List (Bytes size)) (iter : ArrayIterator)
    (created :
      createFromArray creator (some (bytesOf items)) items.length size =
        .ok iter)
    (calls : Nat) (within : calls ≤ items.length) :
    Delivers
        (toArray alloc size (Call.times next calls iter).2).1
        (items.drop calls) ↔
      calls = items.length := by
  rcases createFromArray_eq_ok created with ⟨positive, count, start⟩
  rcases @times_next iter calls (by omega) with ⟨taken, ran⟩
  rw [start, Nat.zero_add] at ran
  have result :=
    @toArray_eq (iter.moved calls) alloc size positive
      (show calls ≤ iter.count by omega)
  rw [ran, result]
  change
    Delivers
        (if calls = iter.count then _ else if _ then _ else
          .ok (_, iter.count - calls)) _ ↔ _
  rw [count]
  constructor
  · rintro ⟨array, returned, holds⟩
    by_contra more
    rw [if_neg more] at returned
    split at returned
    · cases returned
    injection returned with same
    injection same with same _
    rw [← same] at holds
    refine fresh_ne_written positive ?_ _ holds
    intro none
    have length := congrArg List.length none
    rw [List.length_drop, List.length_nil] at length
    omega
  · intro all
    rw [if_pos all, all, List.drop_length]
    exact ⟨none, rfl, rfl⟩

/-- Of three items nothing is left, and of two others only their number. -/
theorem delivers_iff_three :
    @Delivers 1
        (toArray .ample 1
          (Call.times next 3
            { items := [7, 8, 9], count := 3, itemSize := 1,
              currentIndex := 0 }).2).1
        [] ∧
      ¬ @Delivers 1
        (toArray .ample 1
          (Call.times next 1
            { items := [7, 8, 9], count := 3, itemSize := 1,
              currentIndex := 0 }).2).1
        [⟨[8], rfl⟩, ⟨[9], rfl⟩] := by
  have exactly :=
    delivers_iff .ample .ample [⟨[7], rfl⟩, ⟨[8], rfl⟩, ⟨[9], rfl⟩]
      { items := [7, 8, 9], count := 3, itemSize := 1, currentIndex := 0 }
      (by decide)
  exact
    ⟨(exactly 3 (by decide)).mpr rfl,
      fun delivers => absurd ((exactly 1 (by decide)).mp delivers) (by decide)⟩

/-- Two items are announced, and neither is there. -/
theorem delivers_nothing :
    (toArray .ample 1
        { items := [7, 8], count := 2, itemSize := 1, currentIndex := 0 }).1 =
          .ok (some [none, none], 2) ∧
      createFromArray .ample (some [7, 8]) 2 1 =
        .ok { items := [7, 8], count := 2, itemSize := 1, currentIndex := 0 } ∧
      ¬ @Delivers 1
        (toArray .ample 1
          { items := [7, 8], count := 2, itemSize := 1, currentIndex := 0 }).1
        [⟨[7], rfl⟩, ⟨[8], rfl⟩] := by
  have returned :
      (toArray .ample 1
        { items := [7, 8], count := 2, itemSize := 1, currentIndex := 0 }).1 =
          .ok (some [none, none], 2) := by
    decide
  refine ⟨returned, by decide, ?_⟩
  rintro ⟨array, same, holds⟩
  rw [returned] at same
  injection same with same
  injection same with same _
  rw [← same] at holds
  exact absurd holds (by decide)

end ArrayIterator

end NeoC
