import Mathlib.Data.List.Basic
import Mathlib.Data.Nat.ModEq

/-!
# Lists that are cut into blocks

A list is the blocks of some size that fit into it and a rest that is shorter
than a block.  A list that arrives in pieces is cut into the same blocks: the
rest of the first piece stands in front of the second one.  So whatever is
folded over the blocks does not depend on the pieces.
-/

namespace NeoC.Foundation.BlockStream

variable {α : Type} {size : Nat}

/-- Blocks from the front of a list. -/
def cut (size : Nat) : (count : Nat) → List α → List (List α)
  | 0, _ => []
  | count + 1, items => items.take size :: cut size count (items.drop size)

/-- The blocks that fit into a list. -/
def blocks (size : Nat) (items : List α) : List (List α) :=
  cut size (items.length / size) items

/-- What the blocks leave. -/
def rest (size : Nat) (items : List α) : List α :=
  items.drop (size * (items.length / size))

theorem length_rest (items : List α) :
    (rest size items).length = items.length % size := by
  rw [rest, List.length_drop, ← Nat.mod_eq_sub_mul_div]

theorem blocks_short {items : List α} (short : items.length < size) :
    blocks size items = [] ∧ rest size items = items := by
  rw [blocks, rest, Nat.div_eq_of_lt short, Nat.mul_zero, List.drop_zero]
  exact ⟨rfl, rfl⟩

/-- A block in front is the first one. -/
theorem blocks_block (positive : 0 < size) {block : List α}
    (full : block.length = size) (items : List α) :
    blocks size (block ++ items) = block :: blocks size items ∧
      rest size (block ++ items) = rest size items := by
  have count :
      (block ++ items).length / size = items.length / size + 1 := by
    rw [List.length_append, full, Nat.add_comm,
      Nat.add_div_right _ positive]
  constructor
  · rw [blocks, count, cut, List.take_left' full, List.drop_left' full,
      blocks]
  · have behind :
        size * (items.length / size + 1) =
          block.length + size * (items.length / size) := by
      rw [full, Nat.mul_add, Nat.mul_one, Nat.add_comm]
    rw [rest, count, behind, ← List.drop_drop, List.drop_left, rest]

/-- A list with a block in front, or one without any. -/
theorem block_cases (size : Nat) (items : List α) :
    items.length < size ∨
      ∃ block later,
        block.length = size ∧ items = block ++ later := by
  by_cases short : items.length < size
  · exact .inl short
  · refine .inr ⟨items.take size, items.drop size, ?_, ?_⟩
    · rw [List.length_take, Nat.min_eq_left (Nat.le_of_not_lt short)]
    · exact (List.take_append_drop size items).symm

/-- What holds of short lists and comes back with a block holds of all. -/
theorem block_induction {property : List α → Prop} (positive : 0 < size)
    (short : ∀ items, items.length < size → property items)
    (step :
      ∀ block items,
        block.length = size → property items → property (block ++ items))
    (items : List α) : property items := by
  induction same : items.length using Nat.strong_induction_on
    generalizing items with
  | _ length induction =>
      rcases block_cases size items with few | ⟨block, later, full, rfl⟩
      · exact short items few
      · refine step block later full (induction later.length ?_ later rfl)
        rw [List.length_append] at same
        omega

/-- The pieces of a list are cut into the blocks of the list. -/
theorem blocks_append (positive : 0 < size) (first second : List α) :
    blocks size (first ++ second) =
        blocks size first ++ blocks size (rest size first ++ second) ∧
      rest size (first ++ second) =
        rest size (rest size first ++ second) := by
  induction first using block_induction positive with
  | short items few =>
      rw [(blocks_short few).1, (blocks_short few).2]
      exact ⟨rfl, rfl⟩
  | step block items full induction =>
      have front := blocks_block positive full items
      have whole := blocks_block positive full (items ++ second)
      rw [List.append_assoc, whole.1, whole.2, front.1, front.2,
        List.cons_append, induction.1, induction.2]
      exact ⟨rfl, rfl⟩

/-- A list of whole blocks leaves no rest, and only such a list. -/
theorem rest_eq_nil_iff {items : List α} :
    rest size items = [] ↔ size ∣ items.length := by
  rw [← List.length_eq_zero_iff, length_rest]
  exact Nat.dvd_iff_mod_eq_zero.symm

/-- The blocks and the rest make up the list. -/
theorem flatten_blocks (positive : 0 < size) (items : List α) :
    (blocks size items).flatten ++ rest size items = items := by
  induction items using block_induction positive with
  | short items few =>
      rw [(blocks_short few).1, (blocks_short few).2]
      rfl
  | step block items full induction =>
      have front := blocks_block positive full items
      rw [front.1, front.2, List.flatten_cons, List.append_assoc,
        induction]

theorem length_of_mem_blocks (positive : 0 < size) {items : List α} :
    ∀ block ∈ blocks size items, block.length = size := by
  induction items using block_induction positive with
  | short items few =>
      rw [(blocks_short few).1]
      exact List.forall_mem_nil _
  | step block items full induction =>
      rw [(blocks_block positive full items).1]
      exact List.forall_mem_cons.mpr ⟨full, induction⟩

/-! ## Folding over the blocks -/

variable {State : Type} (compress : State → List α → State)

/-- The state after the blocks of a list. -/
def digest (size : Nat) (state : State) (items : List α) : State :=
  (blocks size items).foldl compress state

theorem digest_short {items : List α} (short : items.length < size)
    (state : State) : digest compress size state items = state := by
  rw [digest, (blocks_short short).1]
  rfl

theorem digest_block (positive : 0 < size) {block : List α}
    (full : block.length = size) (state : State) (items : List α) :
    digest compress size state (block ++ items) =
      digest compress size (compress state block) items := by
  rw [digest, (blocks_block positive full items).1]
  rfl

theorem digest_append (positive : 0 < size) (state : State)
    (first second : List α) :
    digest compress size state (first ++ second) =
      digest compress size (digest compress size state first)
        (rest size first ++ second) := by
  rw [digest, (blocks_append positive first second).1, List.foldl_append]
  rfl

/-- Beside the state, the blocks are written down. -/
def recorded (entry : State × List (List α)) (block : List α) :
    State × List (List α) :=
  (compress entry.1 block, entry.2 ++ [block])

theorem digest_recorded (state : State) (record : List (List α))
    (items : List α) :
    digest (recorded compress) size (state, record) items =
      (digest compress size state items, record ++ blocks size items) := by
  rw [digest, digest]
  generalize blocks size items = parts
  induction parts generalizing state record with
  | nil => rw [List.append_nil]; rfl
  | cons block parts induction =>
      rw [List.foldl_cons, recorded, induction, List.foldl_cons,
        List.append_assoc]
      rfl

end NeoC.Foundation.BlockStream
