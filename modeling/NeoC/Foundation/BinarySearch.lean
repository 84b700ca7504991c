import Mathlib.Data.List.Chain

/-!
# Binary search in a table

The search halves the places that may hold a key until one of them does or
none is left.  It asks for the order of the key and the entry at a place, and
that answer has to be monotone: behind an entry above the key all are above
it, and before one below the key all are below it.  A table whose entries
increase has this property, and each of its entries is found where it stands.
-/

namespace NeoC.Foundation

/--
Look between `first`, which is included, and `stop`, which is not.  The first
argument bounds the number of halvings.
-/
def search (answers : Nat → Ordering) : Nat → Nat → Nat → Option Nat
  | 0, _, _ => none
  | fuel + 1, first, stop =>
      if first < stop then
        let middle := first + (stop - 1 - first) / 2
        match answers middle with
        | .eq => some middle
        | .lt => search answers fuel first middle
        | .gt => search answers fuel (middle + 1) stop
      else
        none

/-- The answers over the first `size` places are those of a sorted table. -/
structure Sorted (answers : Nat → Ordering) (size : Nat) : Prop where
  below :
    ∀ {place later}, place ≤ later → later < size →
      answers place = .lt → answers later = .lt
  above :
    ∀ {place later}, place ≤ later → later < size →
      answers later = .gt → answers place = .gt

variable {answers : Nat → Ordering} {size fuel first stop place : Nat}

theorem search_succ :
    search answers (fuel + 1) first stop =
      if first < stop then
        match answers (first + (stop - 1 - first) / 2) with
        | .eq => some (first + (stop - 1 - first) / 2)
        | .lt => search answers fuel first (first + (stop - 1 - first) / 2)
        | .gt => search answers fuel (first + (stop - 1 - first) / 2 + 1) stop
      else
        none :=
  rfl

/-- What is found has been asked for. -/
theorem answer_of_search (found : search answers fuel first stop = some place) :
    answers place = .eq ∧ first ≤ place ∧ place < stop := by
  induction fuel generalizing first stop with
  | zero => cases found
  | succ fuel induction =>
      rw [search_succ] at found
      split at found
      · split at found
        · rename_i asked
          injection found with same
          rw [same] at asked
          exact ⟨asked, by omega, by omega⟩
        · rcases induction found with ⟨asked, low, high⟩
          exact ⟨asked, low, by omega⟩
        · rcases induction found with ⟨asked, low, high⟩
          exact ⟨asked, by omega, high⟩
      · cases found

/-- A sorted table is searched through with one halving for every place. -/
theorem search_eq_none (sorted : Sorted answers size) (bounded : stop ≤ size)
    (enough : stop - first ≤ fuel)
    (missed : search answers fuel first stop = none) :
    ∀ place, first ≤ place → place < stop → answers place ≠ .eq := by
  induction fuel generalizing first stop with
  | zero =>
      intro place low high
      omega
  | succ fuel induction =>
      intro place low high asked
      rw [search_succ, if_pos (by omega)] at missed
      split at missed
      · cases missed
      · rename_i lower
        have before : place < first + (stop - 1 - first) / 2 := by
          by_contra behind
          have answer :=
            sorted.below (Nat.not_lt.mp behind) (by omega) lower
          rw [asked] at answer
          cases answer
        exact
          induction (by omega) (by omega) missed place low before asked
      · rename_i upper
        have behind : first + (stop - 1 - first) / 2 < place := by
          by_contra before
          have answer :=
            sorted.above (Nat.not_lt.mp before) (by omega) upper
          rw [asked] at answer
          cases answer
        exact induction bounded (by omega) missed place behind high asked

/-! ## Tables -/

section Tables

variable {α : Type} [Ord α]

/-- Every entry of the table is below the entries behind it. -/
def Increasing (table : List α) : Prop :=
  table.Pairwise fun entry later => compare entry later = .lt

/-- An entry and those behind it, each of them below the next one. -/
def ascends (entry : α) : List α → Bool
  | [] => true
  | next :: rest => compare entry next == .lt && ascends next rest

/-- The order of a key and the entry at a place. -/
def probe (table : List α) (key : α) (place : Nat) : Ordering :=
  table[place]?.elim .lt (compare key)

/-- The place of a key in a table. -/
def find (table : List α) (key : α) : Option Nat :=
  search (probe table key) table.length 0 table.length

variable {table : List α} {key : α}

theorem Increasing.lt (increasing : Increasing table) {place later : Nat}
    {entry behind : α} (ordered : place < later)
    (here : table[place]? = some entry) (there : table[later]? = some behind) :
    compare entry behind = .lt := by
  obtain ⟨inside, rfl⟩ := List.getElem?_eq_some_iff.mp here
  obtain ⟨within, rfl⟩ := List.getElem?_eq_some_iff.mp there
  exact List.pairwise_iff_getElem.mp increasing _ _ inside within ordered

theorem probe_of_getElem? {place : Nat} {entry : α}
    (here : table[place]? = some entry) :
    probe table key place = compare key entry := by
  rw [probe, here, Option.elim_some]

variable [Std.TransOrd α]

theorem compare_self_ne_lt (entry : α) : compare entry entry ≠ .lt := by
  rw [Std.ReflOrd.compare_self]
  decide

instance transCompareLt :
    Trans (fun entry later : α => compare entry later = .lt)
      (fun entry later => compare entry later = .lt)
      (fun entry later => compare entry later = .lt) where
  trans := Std.TransCmp.lt_trans

/-- It is enough to compare every entry with the next one. -/
theorem increasing_of_ascends {entry : α} {rest : List α}
    (checked : ascends entry rest = true) : Increasing (entry :: rest) := by
  refine List.isChain_iff_pairwise.mp ?_
  induction rest generalizing entry with
  | nil => exact List.isChain_singleton entry
  | cons next rest induction =>
      rw [ascends, Bool.and_eq_true, beq_iff_eq] at checked
      exact List.isChain_cons_cons.mpr ⟨checked.1, induction checked.2⟩

/-- A table whose entries increase is sorted for every key. -/
theorem Increasing.sorted (increasing : Increasing table) :
    Sorted (probe table key) table.length where
  below {place later} ordered bounded answer := by
    rcases Nat.eq_or_lt_of_le ordered with rfl | before
    · exact answer
    · have here := List.getElem?_eq_getElem (before.trans bounded)
      have there := List.getElem?_eq_getElem bounded
      rw [probe_of_getElem? here] at answer
      rw [probe_of_getElem? there]
      exact Std.TransCmp.lt_trans answer (increasing.lt before here there)
  above {place later} ordered bounded answer := by
    rcases Nat.eq_or_lt_of_le ordered with rfl | before
    · exact answer
    · have here := List.getElem?_eq_getElem (before.trans bounded)
      have there := List.getElem?_eq_getElem bounded
      rw [probe_of_getElem? there] at answer
      rw [probe_of_getElem? here]
      apply Std.TransCmp.gt_trans answer
      exact Std.OrientedCmp.gt_of_lt (increasing.lt before here there)

theorem Increasing.nodup (increasing : Increasing table) : table.Nodup := by
  refine List.Pairwise.imp ?_ increasing
  rintro entry later less rfl
  exact compare_self_ne_lt entry less

variable [Std.LawfulEqOrd α]

/-- In such a table every entry is found, at its only place. -/
theorem Increasing.find_eq_some_iff (increasing : Increasing table)
    {place : Nat} :
    find table key = some place ↔ table[place]? = some key := by
  constructor
  · intro found
    rcases answer_of_search found with ⟨asked, -, inside⟩
    have here := List.getElem?_eq_getElem inside
    rw [probe_of_getElem? here] at asked
    rw [here, Std.LawfulEqCmp.eq_of_compare asked]
  · intro here
    obtain ⟨inside, -⟩ := List.getElem?_eq_some_iff.mp here
    have asked : probe table key place = .eq := by
      rw [probe_of_getElem? here]
      exact Std.ReflOrd.compare_self
    cases found : find table key with
    | none =>
        have missed :=
          search_eq_none increasing.sorted le_rfl (Nat.sub_le _ _) found
        exact absurd asked (missed place (Nat.zero_le _) inside)
    | some other =>
        rcases answer_of_search found with ⟨answered, -, within⟩
        have there := List.getElem?_eq_getElem within
        rw [probe_of_getElem? there] at answered
        rw [← Std.LawfulEqCmp.eq_of_compare answered] at there
        congr 1
        rcases Nat.lt_trichotomy other place with before | same | behind
        · have less := increasing.lt before there here
          exact absurd less (compare_self_ne_lt key)
        · exact same
        · have less := increasing.lt behind here there
          exact absurd less (compare_self_ne_lt key)

end Tables

end NeoC.Foundation
