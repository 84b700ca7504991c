import Mathlib.Data.List.Basic
import Mathlib.Data.List.Induction

/-!
# Moving the entries of an array

A loop that moves entries of an array copies one place to another, or
exchanges two places, turn by turn.  Each loop is defined as the turns it
takes, and a turn that leaves the array has no result.  For an array that is
cut into the part that is moved and what stands around it, the result of the
whole loop is a list again.
-/

namespace NeoC.Foundation.InPlace

variable {α : Type}

/-! ## One turn -/

/-- `items[target] = items[source]`. -/
def copy (items : List α) (target source : Nat) : Option (List α) :=
  if target < items.length then
    items[source]?.map fun item => items.set target item
  else
    none

/-- The contents of two places are exchanged. -/
def swap (items : List α) (left right : Nat) : Option (List α) :=
  match items[left]?, items[right]? with
  | some first, some last => some ((items.set left last).set right first)
  | _, _ => none

variable {front middle back items : List α} {item first last : α}

theorem getElem?_here :
    (front ++ item :: back)[front.length]? = some item := by
  rw [List.getElem?_append_right (Nat.le_refl _), Nat.sub_self]
  rfl

theorem set_here (other : α) :
    (front ++ item :: back).set front.length other =
      front ++ other :: back := by
  rw [List.set_append_right _ _ (Nat.le_refl _), Nat.sub_self, List.set_cons_zero]

/-- A place takes over what the one behind it holds. -/
theorem copy_next :
    copy (front ++ first :: last :: back) front.length (front.length + 1) =
      some (front ++ last :: last :: back) := by
  have found :
      (front ++ first :: last :: back)[front.length + 1]? = some last := by
    rw [List.getElem?_append_right (Nat.le_add_right _ 1),
      Nat.add_sub_cancel_left]
    rfl
  have inside : front.length < (front ++ first :: last :: back).length := by
    simp only [List.length_append, List.length_cons]
    omega
  rw [copy, if_pos inside, found, Option.map_some, set_here]

/-- A place takes over what the one in front of it holds. -/
theorem copy_previous :
    copy (front ++ first :: last :: back) (front.length + 1) front.length =
      some (front ++ first :: first :: back) := by
  have inside :
      front.length + 1 < (front ++ first :: last :: back).length := by
    simp only [List.length_append, List.length_cons]
    omega
  rw [copy, if_pos inside, getElem?_here, Option.map_some,
    List.set_append_right _ _ (Nat.le_add_right _ 1),
    Nat.add_sub_cancel_left]
  rfl

theorem swap_ends :
    swap (front ++ first :: (middle ++ last :: back)) front.length
        (front.length + middle.length + 1) =
      some (front ++ last :: (middle ++ first :: back)) := by
  have apart (one other : α) :
      front ++ one :: (middle ++ other :: back) =
        (front ++ one :: middle) ++ other :: back := by
    rw [List.append_assoc, List.cons_append]
  have length (one : α) :
      front.length + middle.length + 1 = (front ++ one :: middle).length := by
    rw [List.length_append, List.length_cons, Nat.add_assoc]
  have behind :
      (front ++ first :: (middle ++ last :: back))[
          front.length + middle.length + 1]? =
        some last := by
    rw [apart, length first, getElem?_here]
  rw [swap, getElem?_here, behind]
  dsimp only
  rw [set_here, apart, length last, set_here, ← apart]

theorem length_of_swap {left right : Nat} {result : List α}
    (swapped : swap items left right = some result) :
    result.length = items.length := by
  rw [swap] at swapped
  split at swapped
  · injection swapped with same
    rw [← same, List.length_set, List.length_set]
  · cases swapped

/-! ## Loops -/

/-- From the right end on, every entry moves one place to the right. -/
def shiftRight : (turns index : Nat) → (items : List α) → Option (List α)
  | 0, _, items => some items
  | turns + 1, index, items =>
      (copy items (index + turns + 1) (index + turns)).bind
        (shiftRight turns index)

/-- From the left end on, every entry moves one place to the left. -/
def shiftLeft : (turns index : Nat) → (items : List α) → Option (List α)
  | 0, _, items => some items
  | turns + 1, index, items =>
      (copy items index (index + 1)).bind (shiftLeft turns (index + 1))

/-- The outermost places are exchanged, then the ones next to them. -/
def exchange :
    (turns left right : Nat) → (items : List α) → Option (List α)
  | 0, _, _, items => some items
  | turns + 1, left, right, items =>
      (swap items left right).bind (exchange turns (left + 1) (right - 1))

/-- The same while two places are apart. -/
def exchangeWhile :
    (fuel left right : Nat) → (items : List α) → Option (List α)
  | 0, _, _, _ => none
  | fuel + 1, left, right, items =>
      if left < right then
        (swap items left right).bind
          (exchangeWhile fuel (left + 1) (right - 1))
      else
        some items

/-- The first entry of the part stays behind, and the place after it goes. -/
theorem shiftRight_eq (last : α) :
    shiftRight middle.length front.length (front ++ (middle ++ last :: back)) =
      some (front ++ (middle.head?.getD last :: middle ++ back)) := by
  induction middle using List.reverseRecOn generalizing last back with
  | nil => rfl
  | append_singleton middle item induction =>
      have apart :
          front ++ (middle ++ [item] ++ last :: back) =
            (front ++ middle) ++ item :: last :: back := by
        simp only [List.append_assoc, List.cons_append, List.nil_append]
      have turn :
          copy (front ++ (middle ++ [item] ++ last :: back))
              (front.length + middle.length + 1)
              (front.length + middle.length) =
            some (front ++ (middle ++ item :: item :: back)) := by
        rw [apart, ← List.length_append, copy_previous, List.append_assoc]
      rw [List.length_append, List.length_singleton, shiftRight, turn,
        Option.bind_some, induction item]
      cases middle <;> simp

/-- The entry in front of the part goes, and the last one stays behind. -/
theorem shiftLeft_eq (first : α) :
    shiftLeft middle.length front.length (front ++ (first :: middle ++ back)) =
      some (front ++ (middle ++ middle.getLast?.getD first :: back)) := by
  induction middle generalizing front first with
  | nil => rfl
  | cons item middle induction =>
      have later := @induction (front ++ [item]) item
      rw [List.length_append, List.length_singleton, List.append_assoc]
        at later
      rw [List.length_cons, shiftLeft, List.cons_append, List.cons_append,
        copy_next, Option.bind_some]
      refine later.trans ?_
      rw [List.getLast?_cons]
      simp

/-- Exchanged from both ends to the middle, the part is reversed. -/
theorem exchange_eq (turns : Nat) (half : middle.length / 2 = turns) :
    exchange turns front.length (front.length + middle.length - 1)
        (front ++ (middle ++ back)) =
      some (front ++ (middle.reverse ++ back)) := by
  induction turns generalizing front middle back with
  | zero =>
      rcases middle with _ | ⟨item, _ | ⟨other, rest⟩⟩
      · rfl
      · rfl
      · simp only [List.length_cons] at half
        omega
  | succ turns induction =>
      rcases middle with _ | ⟨first, rest⟩
      · simp at half
      rcases rest.eq_nil_or_concat' with rfl | ⟨inner, last, rfl⟩
      · simp at half
      have length :
          front.length + (first :: (inner ++ [last])).length - 1 =
            front.length + inner.length + 1 := by
        simp only [List.length_cons, List.length_append, List.length_nil]
        omega
      have later :=
        @induction (front ++ [last]) inner (first :: back)
          (by
            simp only [List.length_cons, List.length_append,
              List.length_nil] at half
            omega)
      have next :
          front.length + inner.length + 1 - 1 =
            (front ++ [last]).length + inner.length - 1 := by
        rw [List.length_append, List.length_singleton]
        omega
      have apart :
          front ++ (first :: (inner ++ [last]) ++ back) =
            front ++ first :: (inner ++ last :: back) := by
        simp
      rw [exchange, length, apart, swap_ends, Option.bind_some, next]
      rw [List.append_assoc] at later
      have index : front.length + 1 = (front ++ [last]).length := by
        rw [List.length_append, List.length_singleton]
      rw [index]
      refine later.trans ?_
      simp

theorem length_of_exchange {turns left right : Nat} {result : List α}
    (exchanged : exchange turns left right items = some result) :
    result.length = items.length := by
  induction turns generalizing left right items with
  | zero =>
      injection exchanged with same
      rw [same]
  | succ turns induction =>
      rcases Option.bind_eq_some_iff.mp exchanged with ⟨next, turn, others⟩
      rw [induction others, length_of_swap turn]

/-- The loop that compares the places takes as many turns. -/
theorem exchangeWhile_eq {fuel left right : Nat}
    (enough : (right - left + 1) / 2 < fuel) :
    exchangeWhile fuel left right items =
      exchange ((right - left + 1) / 2) left right items := by
  induction fuel generalizing left right items with
  | zero => exact absurd enough (Nat.not_lt_zero _)
  | succ fuel induction =>
      rw [exchangeWhile]
      split
      · rename_i apart
        have turns :
            (right - left + 1) / 2 =
              (right - 1 - (left + 1) + 1) / 2 + 1 := by
          omega
        rw [turns, exchange]
        cases swap items left right with
        | none => rfl
        | some exchanged =>
            rw [Option.bind_some, Option.bind_some]
            exact induction (by omega)
      · rename_i met
        have none : (right - left + 1) / 2 = 0 := by
          omega
        rw [none]
        rfl

/-! ## Insertion and removal -/

/-- What is inserted behind the front stands there. -/
theorem insertIdx_here :
    (front ++ back).insertIdx front.length item = front ++ item :: back := by
  induction front with
  | nil => rfl
  | cons first front induction =>
      rw [List.cons_append, List.length_cons, List.insertIdx_succ_cons,
        induction, List.cons_append]

/-- What is removed behind the front is gone. -/
theorem eraseIdx_here :
    (front ++ item :: back).eraseIdx front.length = front ++ back := by
  rw [List.eraseIdx_append_of_length_le (Nat.le_refl _), Nat.sub_self]
  rfl

/-- Without a cell behind the part, its last entry has no place to go to. -/
theorem shiftRight_outside {turns index : Nat} (some : 0 < turns)
    (full : items.length ≤ index + turns) :
    shiftRight turns index items = none := by
  cases turns with
  | zero => exact absurd some (Nat.lt_irrefl 0)
  | succ turns =>
      rw [shiftRight, copy, if_neg (by omega)]
      rfl

end NeoC.Foundation.InPlace
