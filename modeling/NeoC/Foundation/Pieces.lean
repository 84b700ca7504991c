import Mathlib.Data.List.Basic

/-!
# Pieces between separators

A list is read as a sequence of pieces by cutting it at a separator and
leaving out the empty pieces, so runs of separators count as one.  Pieces
that are written with one separator between them are read again.  A reader
that goes through the list once keeps the piece it is in the middle of, and
the rules below say how that piece goes on.
-/

namespace NeoC.Foundation

variable {α : Type} [DecidableEq α] {separator : α} {front items : List α}

/-- The pieces of a list between separators that are not empty. -/
def pieces (separator : α) (items : List α) : List (List α) :=
  (items.splitOn separator).filter (· ≠ [])

@[simp]
theorem pieces_nil : pieces separator ([] : List α) = [] :=
  rfl

@[simp]
theorem pieces_cons_self :
    pieces separator (separator :: items) = pieces separator items := by
  rw [pieces, List.splitOn_cons_eq_if_modifyHead, if_pos BEq.rfl,
    List.filter_cons_of_neg (by simp)]
  rfl

/-- A piece in front of a separator is the first one. -/
theorem pieces_append_cons (absent : separator ∉ front)
    (nonempty : front ≠ []) :
    pieces separator (front ++ separator :: items) =
      front :: pieces separator items := by
  rw [pieces, List.splitOn_append_cons_self_of_not_mem absent,
    List.filter_cons_of_pos (by simpa using nonempty)]
  rfl

/-- A list without a separator is one piece. -/
theorem pieces_of_not_mem (absent : separator ∉ front)
    (nonempty : front ≠ []) : pieces separator front = [front] := by
  rw [pieces, List.splitOn_eq_singleton absent,
    List.filter_cons_of_pos (by simpa using nonempty)]
  rfl

/-- What is read of a piece is the front of the first one. -/
theorem exists_pieces_append (absent : separator ∉ front)
    (nonempty : front ≠ []) (items : List α) :
    ∃ tail rest,
      pieces separator (front ++ items) = (front ++ tail) :: rest := by
  by_cases member : separator ∈ items
  · obtain ⟨tail, behind, rfl, missing⟩ :=
      List.eq_append_cons_of_mem member
    refine ⟨tail, pieces separator behind, ?_⟩
    rw [← List.append_assoc]
    apply pieces_append_cons
    · rw [List.mem_append, not_or]
      exact ⟨absent, missing⟩
    · exact List.append_ne_nil_of_left_ne_nil nonempty _
  · refine ⟨items, [], pieces_of_not_mem ?_ ?_⟩
    · rw [List.mem_append, not_or]
      exact ⟨absent, member⟩
    · exact List.append_ne_nil_of_left_ne_nil nonempty _

/-- Pieces with one separator between them are read again. -/
theorem pieces_intercalate {parts : List (List α)}
    (proper : ∀ part ∈ parts, part ≠ [] ∧ separator ∉ part) :
    pieces separator ([separator].intercalate parts) = parts := by
  rcases eq_or_ne parts [] with rfl | nonempty
  · rfl
  · rw [pieces,
      List.splitOn_intercalate separator
        (fun part member => (proper part member).2) nonempty,
      List.filter_eq_self]
    intro part member
    simpa using (proper part member).1

/-! ## Lists cut at the first separator -/

/-- A list is built up piece by piece. -/
theorem pieces_induction {motive : List α → Prop} (separator : α)
    (empty : motive [])
    (skip : ∀ items, motive items → motive (separator :: items))
    (last : ∀ front, separator ∉ front → front ≠ [] → motive front)
    (cut :
      ∀ front items,
        separator ∉ front → front ≠ [] → motive items →
          motive (front ++ separator :: items))
    (items : List α) : motive items := by
  induction length : items.length using Nat.strongRecOn
    generalizing items with
  | ind size induction =>
      by_cases member : separator ∈ items
      · obtain ⟨front, behind, rfl, absent⟩ :=
          List.eq_append_cons_of_mem member
        rw [List.length_append, List.length_cons] at length
        have later := induction behind.length (by omega) behind rfl
        rcases eq_or_ne front [] with rfl | nonempty
        · exact skip behind later
        · exact cut front behind absent nonempty later
      · rcases eq_or_ne items [] with rfl | nonempty
        · exact empty
        · exact last items member nonempty

/-- A separator ends a piece. -/
theorem pieces_append_separator (front items : List α) :
    pieces separator (front ++ separator :: items) =
      pieces separator front ++ pieces separator items := by
  induction front using pieces_induction separator with
  | empty => exact pieces_cons_self
  | skip front induction =>
      rw [List.cons_append, pieces_cons_self, pieces_cons_self, induction]
  | last front absent nonempty =>
      rw [pieces_append_cons absent nonempty,
        pieces_of_not_mem absent nonempty]
      rfl
  | cut piece front absent nonempty induction =>
      rw [List.append_assoc, List.cons_append,
        pieces_append_cons absent nonempty,
        pieces_append_cons absent nonempty, induction]
      rfl

/-- Separators behind a list do not count. -/
theorem pieces_append_replicate (items : List α) (count : Nat) :
    pieces separator (items ++ List.replicate count separator) =
      pieces separator items := by
  induction count with
  | zero => rw [List.replicate_zero, List.append_nil]
  | succ count induction =>
      rw [List.replicate_succ', ← List.append_assoc,
        pieces_append_separator, induction, pieces_nil, List.append_nil]

/-- The pieces hold everything but the separators. -/
theorem flatten_pieces (items : List α) :
    (pieces separator items).flatten = items.filter (· ≠ separator) := by
  have kept {front : List α} (absent : separator ∉ front) :
      front.filter (· ≠ separator) = front := by
    rw [List.filter_eq_self]
    intro item member
    rw [decide_eq_true_iff]
    rintro rfl
    exact absent member
  induction items using pieces_induction separator with
  | empty => rfl
  | skip items induction =>
      rw [pieces_cons_self, induction, List.filter_cons_of_neg (by simp)]
  | last front absent nonempty =>
      rw [pieces_of_not_mem absent nonempty, kept absent,
        List.flatten_singleton]
  | cut front items absent nonempty induction =>
      rw [pieces_append_cons absent nonempty, List.flatten_cons, induction,
        List.filter_append, kept absent, List.filter_cons_of_neg (by simp)]

/-! ## One separator between two pieces -/

/-- Every separator has something else in front of it and behind it. -/
def Tight (separator : α) (items : List α) : Prop :=
  ∀ front back,
    items = front ++ separator :: back →
      (∃ before, front.getLast? = some before ∧ before ≠ separator) ∧
        ∃ behind, back.head? = some behind ∧ behind ≠ separator

omit [DecidableEq α] in
theorem Tight.behind (tight : Tight separator (front ++ separator :: items)) :
    Tight separator items := by
  intro first back shape
  have whole :=
    tight (front ++ separator :: first) back
      (by rw [shape, List.append_assoc, List.cons_append])
  refine ⟨?_, whole.2⟩
  rcases whole.1 with ⟨before, last, other⟩
  rcases eq_or_ne first [] with rfl | nonempty
  · rw [List.getLast?_append_cons, List.getLast?_singleton] at last
    exact absurd (Option.some.inj last).symm other
  · rw [List.getLast?_append_cons, List.getLast?_cons_of_ne_nil nonempty]
      at last
    exact ⟨before, last, other⟩

/-- A tight list is that of its pieces with one separator between them. -/
theorem Tight.intercalate_pieces (tight : Tight separator items) :
    [separator].intercalate (pieces separator items) = items := by
  induction items using pieces_induction separator with
  | empty => rfl
  | skip items =>
      rcases (tight [] items rfl).1 with ⟨before, last, -⟩
      cases last
  | last front absent nonempty =>
      rw [pieces_of_not_mem absent nonempty, List.intercalate_singleton]
  | cut front items absent nonempty induction =>
      rcases (tight front items rfl).2 with ⟨behind, head, -⟩
      have later := induction tight.behind
      rw [pieces_append_cons absent nonempty]
      rcases shape : pieces separator items with _ | ⟨second, rest⟩
      · rw [shape, List.intercalate_nil] at later
        rw [← later] at head
        cases head
      · rw [List.intercalate_cons_cons, ← shape, later, List.append_assoc]
        rfl

omit [DecidableEq α] in
/-- A separator behind a piece is the one that ends it, or a later one. -/
theorem later_separator {back whole : List α} {piece : List α}
    (absent : separator ∉ piece)
    (same : piece ++ separator :: whole = front ++ separator :: back) :
    (front = piece ∧ back = whole) ∨
      ∃ middle,
        front = piece ++ separator :: middle ∧
          whole = middle ++ separator :: back := by
  rcases List.append_eq_append_iff.mp same with
    ⟨middle, rfl, rest⟩ | ⟨middle, rfl, rest⟩
  · cases middle with
    | nil =>
        injection rest with _ equal
        exact .inl ⟨List.append_nil _, equal.symm⟩
    | cons item middle =>
        injection rest with first equal
        subst first
        exact .inr ⟨middle, rfl, equal⟩
  · cases middle with
    | nil =>
        injection rest with _ equal
        exact .inl ⟨(List.append_nil _).symm, equal⟩
    | cons item middle =>
        injection rest with first _
        subst first
        exact
          absurd (List.mem_append_right _ List.mem_cons_self) absent

omit [DecidableEq α] in
/-- Pieces with one separator between them are tight. -/
theorem tight_intercalate {parts : List (List α)}
    (proper : ∀ part ∈ parts, part ≠ [] ∧ separator ∉ part) :
    Tight separator ([separator].intercalate parts) := by
  induction parts with
  | nil =>
      intro front back shape
      have some : front ++ separator :: back ≠ [] :=
        List.append_ne_nil_of_right_ne_nil _ (List.cons_ne_nil _ _)
      exact absurd shape.symm some
  | cons part rest induction =>
      rcases List.forall_mem_cons.mp proper with ⟨⟨nonempty, absent⟩, others⟩
      intro front back shape
      cases rest with
      | nil =>
          rw [List.intercalate_singleton] at shape
          rw [shape] at absent
          exact absurd (List.mem_append_right _ List.mem_cons_self) absent
      | cons second rest =>
          rw [List.intercalate_cons_cons, List.append_assoc] at shape
          rcases later_separator absent shape with
            ⟨rfl, rfl⟩ | ⟨middle, rfl, same⟩
          · constructor
            · refine ⟨front.getLast nonempty, ?_, ?_⟩
              · exact List.getLast?_eq_some_getLast nonempty
              · intro equal
                exact absent (equal ▸ List.getLast_mem nonempty)
            · rcases others second List.mem_cons_self with ⟨some, missing⟩
              cases second with
              | nil => exact absurd rfl some
              | cons item second =>
                  rw [List.mem_cons, not_or] at missing
                  refine ⟨item, ?_, Ne.symm missing.1⟩
                  cases rest with
                  | nil => rw [List.intercalate_singleton]; rfl
                  | cons third rest => rw [List.intercalate_cons_cons]; rfl
          · rcases induction others middle back same with
              ⟨⟨before, last, other⟩, head⟩
            have some : middle ≠ [] := by
              rintro rfl
              cases last
            refine ⟨⟨before, ?_, other⟩, head⟩
            rw [List.getLast?_append_cons,
              List.getLast?_cons_of_ne_nil some]
            exact last

/-! ## Counting separators -/

/-- There is one part more than there are separators. -/
theorem length_splitOn (items : List α) :
    (items.splitOn separator).length = items.count separator + 1 := by
  induction items with
  | nil => rfl
  | cons item items induction =>
      rw [List.splitOn_cons_eq_if_modifyHead, List.count_cons]
      split
      · rw [List.length_cons, induction]
      · rw [List.length_modifyHead, induction, Nat.add_zero]

/-- There are no more pieces than separators can tell apart. -/
theorem length_pieces_le (items : List α) :
    (pieces separator items).length ≤ items.count separator + 1 := by
  rw [← length_splitOn]
  exact List.length_filter_le _ _

/-- There are as many where single separators stand between the pieces. -/
theorem length_pieces_eq_iff (some : pieces separator items ≠ []) :
    (pieces separator items).length = items.count separator + 1 ↔
      [separator].intercalate (pieces separator items) = items := by
  constructor
  · intro full
    rw [← length_splitOn, pieces, List.length_filter_eq_length_iff] at full
    rw [pieces, List.filter_eq_self.mpr full]
    exact List.intercalate_splitOn separator
  · intro joined
    have cut :
        ([separator].intercalate (pieces separator items)).splitOn
            separator =
          pieces separator items := by
      apply List.splitOn_intercalate separator _ some
      intro part member inside
      have listed := List.mem_flatten.mpr ⟨part, member, inside⟩
      rw [flatten_pieces, List.mem_filter] at listed
      exact absurd rfl (of_decide_eq_true listed.2)
    rw [joined] at cut
    rw [← cut, length_splitOn]

end NeoC.Foundation
