import NeoC.Utils.ElementArray
import NeoC.Utils.PointerArray

/-!
# The two arrays and their lists

The array that owns copies and the array of pointers are compared with lists
along the same kind of run.  For both it is known exactly which runs they
survive: storage as large as the capacity says, and for the first one no
allocation that fails between two steps of a change.
-/

namespace NeoC.ArrayRefinement

open Foundation

/--
Both arrays are lists along a run, and failures leave them alone, exactly if
every call of the run meets the condition of its array.
-/
theorem arrays_are_lists_iff (elementSize : Nat) (α : Type)
    (alloc : Allocator) :
    (∀ (initialCapacity : Nat) (array : ElementArray elementSize),
      ElementArray.create alloc elementSize initialCapacity = .ok array →
        ∀ steps : List (ElementArray.Step elementSize),
          (Along (Reports.next ElementArray.perform)
                (Reports.Keeps ElementArray.perform ElementArray.pointers)
                array steps ∧
              ∀ reached, reached <+: steps →
                (finalState (Reports.next ElementArray.perform) array
                    reached).Holds
                  (predict (Reports.next ElementArray.perform)
                    (Reports.follow ElementArray.perform
                      fun step => step.2.apply)
                    array [] reached)) ↔
            Along (Reports.next ElementArray.perform) ElementArray.Exact
              array steps) ∧
      ∀ (start : PointerArray.Start) (array : PointerArray α),
        start.perform alloc = some array →
          ∀ steps : List (PointerArray.Step α),
            (Along (Reports.next PointerArray.perform)
                  (Reports.Keeps PointerArray.perform PointerArray.pointers)
                  array steps ∧
                ∀ reached, reached <+: steps →
                  (finalState (Reports.next PointerArray.perform) array
                      reached).Holds
                    (predict (Reports.next PointerArray.perform)
                      (Reports.follow PointerArray.perform
                        fun step => step.2.apply)
                      array [] reached)) ↔
              Along (Reports.next PointerArray.perform) PointerArray.Exact
                array steps := by
  constructor
  · intro initialCapacity array made steps
    exact ElementArray.keeps_and_holds made steps
  · intro start array made steps
    exact PointerArray.keeps_and_holds made steps

/-- Elements of one byte. -/
def element (value : UInt8) : Bytes 1 :=
  ⟨[value], rfl⟩

/-- An allocator that refuses everything. -/
def noMemory : Allocator where
  grants _ := false
  grants_le _ granted := Bool.noConfusion granted

/-- An array of one cell that is given a second one. -/
def oneCell : ElementArray 1 where
  table := { items := [none], count := 0, capacity := 1 }
  objects := []

theorem arrays_are_lists_grown :
    (finalState (Reports.next ElementArray.perform) oneCell
        [(.ample, .append (some (element 1))),
          (.ample, .prepend (some (element 2)))]).Holds
      [element 2, element 1] := by
  have run :=
    ((arrays_are_lists_iff 1 Nat .ample).1 1 oneCell (by rfl)
      [(.ample, .append (some (element 1))),
        (.ample, .prepend (some (element 2)))]).mpr
      ⟨.inr (.inr (by decide)), .inr (.inr (by decide)), trivial⟩
  exact run.2 _ List.prefix_rfl

/--
An insertion that fails shows one element twice and not the other, and a
setting that fails leaves a `NULL`.
-/
theorem failures_change_elements :
    ∃ array,
      ElementArray.create .ample 1 0 = .ok array ∧
        ∃ steps : List (ElementArray.Step 1),
          steps =
              [(.ample, .append (some (element 1))),
                (.ample, .append (some (element 2)))] ∧
            (finalState (Reports.next ElementArray.perform) array
                steps).elements =
              some [element 1, element 2] ∧
            (ElementArray.perform
                (noMemory, .insert 0 (some (element 3)))
                (finalState (Reports.next ElementArray.perform) array
                  steps)).1 =
              .failed ∧
            (finalState (Reports.next ElementArray.perform) array
                (steps ++ [(noMemory, .insert 0 (some (element 3)))])
              ).elements =
              some [element 1, element 1] ∧
            (ElementArray.perform (noMemory, .set 0 (some (element 3)))
                (finalState (Reports.next ElementArray.perform) array
                  steps)).1 =
              .failed ∧
            (finalState (Reports.next ElementArray.perform) array
                (steps ++ [(noMemory, .set 0 (some (element 3)))])
              ).elements =
              none :=
  ⟨_, rfl, _, rfl, by decide, by decide, by decide, by decide, by decide⟩

end NeoC.ArrayRefinement
