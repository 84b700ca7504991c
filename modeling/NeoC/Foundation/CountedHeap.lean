import NeoC.Foundation.Call
import Mathlib.Algebra.BigOperators.Group.Finset.Basic
import Mathlib.Algebra.Order.BigOperators.Group.Finset

/-!
# Heaps of counted objects

Objects that refer to each other are kept alive by counts.  A count is a
machine word; it is meant to be the number of clients that hold the object
plus the number of slots in other objects that do.  Dropping a reference
lowers the count, and an object whose count reaches zero drops everything it
refers to and is freed.

While an object is being dropped the books are not balanced: some references
are already taken away but not yet counted off, and some objects have no
count left but are not yet freed.  `Balanced` accounts for both, with a list
of pending references and a set of released objects.  It does not look at
the contents of the objects: what each of them refers to is given beside the
heap, so that a reference can be moved from a slot to the pending ones and
back without touching the heap.
-/

namespace NeoC.Foundation

/-- An object with its count. -/
structure Counted (α : Type) where
  count : Nat
  content : α
deriving DecidableEq, Repr

/--
A heap of objects.  Addresses are handed out in order and never again, so an
address that was freed stays empty.
-/
structure CountedHeap (α : Type) where
  next : Nat
  cell : Nat → Option (Counted α)
  fresh : ∀ address, next ≤ address → cell address = none

namespace CountedHeap

variable {α ε : Type}

/-! ## Operations -/

/-- The heap without objects. -/
def empty : CountedHeap α where
  next := 0
  cell := fun _ => none
  fresh := fun _ _ => rfl

/-- A new object with one reference to it. -/
def push (heap : CountedHeap α) (content : α) : CountedHeap α where
  next := heap.next + 1
  cell := fun address =>
    if address = heap.next then some ⟨1, content⟩ else heap.cell address
  fresh := by
    intro address above
    rw [if_neg (by omega)]
    exact heap.fresh address (by omega)

/-- Change an object in place. -/
def modify (heap : CountedHeap α) (target : Nat)
    (change : Counted α → Counted α) : CountedHeap α where
  next := heap.next
  cell := fun address =>
    if address = target then (heap.cell target).map change
    else heap.cell address
  fresh := by
    intro address above
    split
    · rename_i same
      rw [← same, heap.fresh address above]
      rfl
    · exact heap.fresh address above

/-- Free an object. -/
def free (heap : CountedHeap α) (target : Nat) : CountedHeap α where
  next := heap.next
  cell := fun address =>
    if address = target then none else heap.cell address
  fresh := by
    intro address above
    split
    · rfl
    · exact heap.fresh address above

/-- Set the count of an object. -/
def setCount (heap : CountedHeap α) (target count : Nat) : CountedHeap α :=
  heap.modify target fun object => { object with count }

/-- Set the content of an object. -/
def setContent (heap : CountedHeap α) (target : Nat) (content : α) :
    CountedHeap α :=
  heap.modify target fun object => { object with content }

/-- Load an object, or halt where there is none. -/
def load (missing : ε) (address : Nat) :
    Call ε (CountedHeap α) (Counted α) :=
  fun heap =>
    match heap.cell address with
    | none => Call.halt missing heap
    | some object => (.ok object, heap)

/-- Take one more reference to an object; the count wraps at the modulus. -/
def take (modulus : Nat) (missing : ε) (address : Nat) :
    Call ε (CountedHeap α) Unit := do
  let object ← load missing address
  Call.update fun heap =>
    heap.setCount address ((object.count + 1) % modulus)

/--
Drop a reference to an object.  Where no other one is left, the object drops
what it refers to and is freed.  The fuel bounds how deep this goes.
-/
def drop (children : α → List Nat) (modulus : Nat) (missing endless : ε) :
    (fuel : Nat) → (address : Nat) → Call ε (CountedHeap α) Unit
  | 0, _ => Call.halt endless
  | fuel + 1, address => do
      let object ← load missing address
      let count := (object.count + modulus - 1) % modulus
      Call.update fun heap => heap.setCount address count
      if count > 0 then
        pure ()
      else do
        Call.forEach (drop children modulus missing endless fuel)
          (children object.content)
        Call.update fun heap => heap.free address

/-! ## Looking at a changed heap -/

theorem cell_push (heap : CountedHeap α) (content : α) (address : Nat) :
    (heap.push content).cell address =
      if address = heap.next then some ⟨1, content⟩
      else heap.cell address :=
  rfl

theorem cell_modify_self {heap : CountedHeap α} {target : Nat}
    {object : Counted α} (there : heap.cell target = some object)
    (change : Counted α → Counted α) :
    (heap.modify target change).cell target = some (change object) := by
  rw [modify]
  dsimp only
  rw [if_pos rfl, there]
  rfl

theorem cell_modify_of_ne {target address : Nat} (heap : CountedHeap α)
    (change : Counted α → Counted α) (different : address ≠ target) :
    (heap.modify target change).cell address = heap.cell address :=
  if_neg different

theorem cell_free_self (heap : CountedHeap α) (target : Nat) :
    (heap.free target).cell target = none :=
  if_pos rfl

theorem cell_free_of_ne {target address : Nat} (heap : CountedHeap α)
    (different : address ≠ target) :
    (heap.free target).cell address = heap.cell address :=
  if_neg different

/-- What a changed object was before. -/
theorem of_cell_modify {heap : CountedHeap α} {target address : Nat}
    {change : Counted α → Counted α} {object : Counted α}
    (there : (heap.modify target change).cell address = some object) :
    (address = target ∧
        ∃ before, heap.cell target = some before ∧ object = change before) ∨
      (address ≠ target ∧ heap.cell address = some object) := by
  by_cases same : address = target
  · refine .inl ⟨same, ?_⟩
    rw [same, modify] at there
    dsimp only at there
    rw [if_pos rfl] at there
    rcases Option.map_eq_some_iff.mp there with ⟨before, found, changed⟩
    exact ⟨before, found, changed.symm⟩
  · rw [cell_modify_of_ne heap change same] at there
    exact .inr ⟨same, there⟩

/-! ## The objects of a heap -/

/-- The addresses of the objects. -/
def live (heap : CountedHeap α) : Finset Nat :=
  (Finset.range heap.next).filter fun address =>
    (heap.cell address).isSome = true

theorem mem_live {heap : CountedHeap α} {address : Nat} :
    address ∈ heap.live ↔ ∃ object, heap.cell address = some object := by
  rw [live, Finset.mem_filter, Finset.mem_range, Option.isSome_iff_exists]
  constructor
  · exact And.right
  · rintro ⟨object, there⟩
    refine ⟨?_, object, there⟩
    by_contra above
    rw [heap.fresh address (Nat.le_of_not_lt above)] at there
    cases there

theorem not_mem_live {heap : CountedHeap α} {address : Nat} :
    address ∉ heap.live ↔ heap.cell address = none := by
  rw [mem_live, ← Option.isSome_iff_exists, Option.not_isSome_iff_eq_none]

theorem card_live_le (heap : CountedHeap α) :
    heap.live.card ≤ heap.next := by
  have bounded :=
    Finset.card_filter_le (Finset.range heap.next) fun address =>
      (heap.cell address).isSome = true
  rwa [Finset.card_range] at bounded

@[simp]
theorem live_modify (heap : CountedHeap α) (target : Nat)
    (change : Counted α → Counted α) :
    (heap.modify target change).live = heap.live := by
  ext address
  rw [mem_live, mem_live]
  by_cases same : address = target
  · rw [same, modify]
    dsimp only
    rw [if_pos rfl]
    cases heap.cell target with
    | none => simp
    | some object => simp
  · rw [cell_modify_of_ne heap change same]

theorem live_free (heap : CountedHeap α) (target : Nat) :
    (heap.free target).live = heap.live.erase target := by
  ext address
  rw [Finset.mem_erase, mem_live, mem_live]
  by_cases same : address = target
  · rw [same, cell_free_self]
    simp
  · rw [cell_free_of_ne heap same]
    simp [same]

theorem live_push (heap : CountedHeap α) (content : α) :
    (heap.push content).live = insert heap.next heap.live := by
  ext address
  rw [Finset.mem_insert, mem_live, mem_live, cell_push]
  split
  · rename_i same
    simp [same]
  · rename_i different
    simp [different]

theorem next_not_mem_live (heap : CountedHeap α) :
    heap.next ∉ heap.live :=
  not_mem_live.mpr (heap.fresh heap.next le_rfl)

end CountedHeap

end NeoC.Foundation
