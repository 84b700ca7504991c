import NeoC.Runtime.Memory

/-!
# Objects that are written cell by cell

The cells of a new object are indeterminate until something is stored in
them.  A copy that leaves its object is an illegal access, and so is a string
function that runs into an indeterminate cell or over the end.
-/

namespace NeoC

open Foundation

/-- The cells of an object; `none` has not been written yet. -/
abbrev Cells (α : Type) := List (Option α)

namespace Cells

variable {α : Type}

/-- A new object. -/
def fresh (size : Nat) : Cells α :=
  List.replicate size none

/-- Cells that hold values. -/
def written (content : List α) : Cells α :=
  content.map some

/-- The source of `memcpy`: some cells from an offset on. -/
def read (cells : Cells α) (offset count : Nat) : Outcome (Cells α) :=
  if offset + count ≤ cells.length then
    .ok ((cells.drop offset).take count)
  else
    .error .illegalAccess

/-- The target of `memcpy`: what was read is stored from an offset on. -/
def store (cells : Cells α) (offset : Nat) (source : Cells α) :
    Outcome (Cells α) :=
  if offset + source.length ≤ cells.length then
    .ok (cells.take offset ++ source ++ cells.drop (offset + source.length))
  else
    .error .illegalAccess

/-- The values of cells that have all been written. -/
def load : Cells α → Outcome (List α)
  | [] => .ok []
  | none :: _ => .error .illegalAccess
  | some value :: rest => do
      let values ← load rest
      .ok (value :: values)

/-- `realloc`: the old cells stay, new cells have not been written. -/
def realloc (cells : Cells α) (size : Nat) : Cells α :=
  cells.take size ++ fresh (size - cells.length)

/-- The characters up to the first NUL. -/
def readString : Cells UInt8 → Outcome (List UInt8)
  | [] => .error .illegalAccess
  | none :: _ => .error .illegalAccess
  | some character :: rest =>
      if character = 0 then
        .ok []
      else do
        let characters ← readString rest
        .ok (character :: characters)

variable {cells front old source back : Cells α}

@[simp]
theorem length_fresh (size : Nat) : (fresh size : Cells α).length = size :=
  List.length_replicate

@[simp]
theorem length_written (content : List α) :
    (written content).length = content.length :=
  List.length_map _

@[simp]
theorem written_append (first second : List α) :
    written (first ++ second) = written first ++ written second :=
  List.map_append

theorem written_inj {first second : List α} :
    written first = written second ↔ first = second :=
  List.map_inj_right fun _ _ => Option.some.inj

/-- A part in the middle is overwritten. -/
theorem store_append (same : old.length = source.length) :
    store (front ++ (old ++ back)) front.length source =
      .ok (front ++ (source ++ back)) := by
  have fits :
      front.length + source.length ≤ (front ++ (old ++ back)).length := by
    simp only [List.length_append]
    omega
  rw [store, if_pos fits, List.take_left, ← List.drop_drop,
    List.drop_left, ← same, List.drop_left, List.append_assoc]

/-- A part at the beginning is overwritten. -/
theorem store_zero (same : old.length = source.length) :
    store (old ++ back) 0 source = .ok (source ++ back) :=
  @store_append α [] old source back same

/-- An object is overwritten as a whole. -/
theorem store_whole (same : old.length = source.length) :
    store old 0 source = .ok source := by
  have stored := @store_zero α old source [] same
  rwa [List.append_nil, List.append_nil] at stored

theorem load_written (content : List α) :
    load (written content) = .ok content := by
  induction content with
  | nil => rfl
  | cons value rest induction => exact Except.bind_of_ok induction _

theorem length_realloc (cells : Cells α) (size : Nat) :
    (cells.realloc size).length = size := by
  rw [realloc, List.length_append, List.length_take, length_fresh]
  omega

theorem written_take (content : List α) (count : Nat) :
    (written content).take count = written (content.take count) :=
  List.map_take.symm

theorem written_drop (content : List α) (count : Nat) :
    (written content).drop count = written (content.drop count) :=
  List.map_drop.symm

theorem read_of_le {offset count : Nat}
    (fits : offset + count ≤ cells.length) :
    read cells offset count = .ok ((cells.drop offset).take count) :=
  if_pos fits

/-- A part in the middle is read. -/
theorem read_append (front middle back : Cells α) :
    read (front ++ (middle ++ back)) front.length middle.length =
      .ok middle := by
  rw [read_of_le, List.drop_left, List.take_left]
  rw [List.length_append, List.length_append]
  omega

theorem read_written (before middle behind : List α) :
    read (written (before ++ (middle ++ behind))) before.length
        middle.length =
      .ok (written middle) := by
  have found :=
    read_append (written before) (written middle) (written behind)
  rwa [length_written, length_written, ← written_append,
    ← written_append] at found

theorem length_of_store {offset : Nat} {result : Cells α}
    (stored : store cells offset source = .ok result) :
    result.length = cells.length := by
  rw [store] at stored
  split at stored
  · rename_i fits
    injection stored with same
    rw [← same]
    simp only [List.length_append, List.length_take, List.length_drop]
    omega
  · cases stored

theorem store_of_le {offset : Nat}
    (fits : offset + source.length ≤ cells.length) :
    store cells offset source =
      .ok
        (cells.take offset ++
          (source ++ cells.drop (offset + source.length))) := by
  rw [store, if_pos fits, List.append_assoc]

/-- What finds room is stored behind what is there. -/
theorem store_behind (content values : List α) {stale : Cells α}
    (room : values.length ≤ stale.length) :
    (written content ++ stale).store content.length (written values) =
      .ok (written (content ++ values) ++ stale.drop values.length) := by
  have stored :=
    @store_append α (written content) (stale.take values.length)
      (written values) (stale.drop values.length)
      (by rw [List.length_take, length_written]; omega)
  rwa [List.take_append_drop, length_written, ← List.append_assoc,
    ← written_append] at stored

/-- A string is read back from where it was stored with its NUL. -/
theorem readString_written {text : List UInt8} (free : 0 ∉ text)
    (rest : Cells UInt8) :
    readString (written (text ++ [0]) ++ rest) = .ok text := by
  induction text with
  | nil => rfl
  | cons character text induction =>
      rw [List.mem_cons, not_or] at free
      change readString (some character :: (written (text ++ [0]) ++ rest)) = _
      rw [readString, if_neg (Ne.symm free.1)]
      exact Except.bind_of_ok (induction free.2) _

end Cells

end NeoC
