import NeoC.Runtime.JsonCut
import Mathlib.Data.List.DropRight

/-!
# Arrays that are put together from texts

The text of an array is put together here from the texts of its items, with a
bracket in front and another one behind, and with a comma and a blank in
between.  If each item is a text of its own, the array is read item by item.
A string is such a text as long as its characters stand for themselves.
-/

namespace NeoC

namespace Utf8

/-- Whole characters behind whole characters. -/
theorem valid_append {text rest : List UInt8} (first : valid text = true)
    (second : valid rest = true) : valid (text ++ rest) = true := by
  rcases valid_iff.mp first with ⟨pending, read, done⟩
  rcases valid_iff.mp second with ⟨last, readRest, doneRest⟩
  refine valid_iff.mpr ?_
  rw [List.foldlM_append, read]
  cases rest with
  | nil => exact ⟨pending, rfl, done⟩
  | cons byte rest =>
      have same : follow pending byte = follow between byte := by
        rw [follow, if_pos done]
        rfl
      refine ⟨last, ?_, doneRest⟩
      rw [List.foldlM_cons] at readRest
      change (byte :: rest).foldlM follow pending = some last
      rw [List.foldlM_cons, same]
      exact readRest

end Utf8

namespace JsonGrammar

variable {strtod : List UInt8 → Option Rat} {fuel : Nat}

/-! ## Items -/

variable (strtod) in
/-- Inside of an array the text is read as a value. -/
def ReadsAs (text : List UInt8) (tree : JsonTree) : Prop :=
  ∀ fuel, text.length + 1 ≤ fuel →
    ∀ more, Delimits more →
      ∃ blank,
        parseValue strtod fuel (text ++ more) = some (tree, blank ++ more) ∧
          skip (blank ++ more) = skip more

/-- A well-formed text is read as it is by itself. -/
theorem readsAs_of_parse {text : List UInt8} {tree : JsonTree}
    (parsed : parse strtod text = some tree) : ReadsAs strtod text tree :=
  fun _ enough _ delimits => parseValue_of_parse parsed enough delimits

/-- A text between quotes. -/
def quoted (text : List UInt8) : List UInt8 :=
  0x22 :: (text ++ [0x22])

/-- Plain characters between quotes are a string. -/
theorem readsAs_quoted {text : List UInt8}
    (plain : ∀ byte ∈ text, Plain byte) :
    ReadsAs strtod (quoted text) (.string (CString.ofBuffer text)) := by
  intro fuel enough more delimits
  obtain ⟨fuel, rfl⟩ : ∃ later, fuel = later + 1 :=
    ⟨fuel - 1, by omega⟩
  refine ⟨[], ?_, rfl⟩
  have opened : skip (quoted text ++ more) = 0x22 :: (text ++ 0x22 :: more) := by
    rw [quoted, List.cons_append, List.append_assoc]
    rfl
  exact parseValue_string opened (parseString_of_plain plain more)

/-- A value does not start with the end of an array. -/
theorem head_of_parseValue {text rest : List UInt8} {tree : JsonTree}
    (read : parseValue strtod fuel text = some (tree, rest)) :
    ∃ byte inner, skip text = byte :: inner ∧ byte ≠ 0x5D := by
  cases fuel with
  | zero => cases read
  | succ fuel =>
      cases started : skip text with
      | nil =>
          rw [parseValue, started] at read
          cases read
      | cons byte inner =>
          refine ⟨byte, inner, rfl, ?_⟩
          rintro rfl
          rw [parseValue, started] at read
          dsimp only at read
          rw [if_neg (by decide), if_neg (by decide), if_neg (by decide),
            if_neg (not_word (by decide)), if_neg (not_word (by decide)),
            if_neg (not_word (by decide))] at read
          rcases Option.bind_eq_some_iff.mp read with
            ⟨⟨number, rest'⟩, scanned, -⟩
          rcases head_of_scanNumber scanned with digit | minus
          · cases digit
          · cases minus

theorem head_of_parseItems {text rest : List UInt8} {items : List JsonTree}
    (read : parseItems strtod fuel text = some (items, rest)) :
    ∃ byte inner, skip text = byte :: inner ∧ byte ≠ 0x5D := by
  cases fuel with
  | zero => cases read
  | succ fuel =>
      rw [parseItems] at read
      rcases Option.bind_eq_some_iff.mp read with ⟨_, valued, -⟩
      exact head_of_parseValue valued

/-! ## Arrays -/

/-- The texts of items up to the bracket behind them. -/
def joined : List (List UInt8) → List UInt8
  | [] => [0x5D]
  | [text] => text ++ [0x5D]
  | text :: rest => text ++ 0x2C :: 0x20 :: joined rest

/-- The text of an array. -/
def arrayText (texts : List (List UInt8)) : List UInt8 :=
  0x5B :: joined texts

/-- Blanks in front of a value do not matter. -/
theorem parseValue_congr {text other : List UInt8}
    (same : skip text = skip other) :
    parseValue strtod fuel text = parseValue strtod fuel other := by
  cases fuel with
  | zero => rfl
  | succ fuel => rw [parseValue, parseValue, same]

theorem parseItems_congr {text other : List UInt8}
    (same : skip text = skip other) :
    parseItems strtod fuel text = parseItems strtod fuel other := by
  cases fuel with
  | zero => rfl
  | succ fuel => rw [parseItems, parseItems, parseValue_congr same]

theorem skip_skip (text : List UInt8) : skip (skip text) = skip text :=
  List.dropWhile_idempotent _ _

/-- The items are read one after another. -/
theorem parseItems_joined {items : List (List UInt8 × JsonTree)}
    (some : items ≠ [])
    (reads : ∀ item ∈ items, ReadsAs strtod item.1 item.2)
    (enough : (joined (items.map Prod.fst)).length + 1 ≤ fuel) :
    parseItems strtod fuel (joined (items.map Prod.fst)) =
      Option.some (items.map Prod.snd, []) := by
  induction items generalizing fuel with
  | nil => exact absurd rfl some
  | cons item rest induction =>
      obtain ⟨fuel, rfl⟩ : ∃ later, fuel = later + 1 :=
        ⟨fuel - 1, by omega⟩
      rcases List.forall_mem_cons.mp reads with ⟨first, later⟩
      cases rest with
      | nil =>
          change (item.1 ++ [0x5D]).length + 1 ≤ fuel + 1 at enough
          rw [List.length_append, List.length_singleton] at enough
          rcases first fuel (by omega) [0x5D]
            ⟨0x5D, [], rfl, .inr (.inl rfl)⟩ with
            ⟨blank, valued, skipped⟩
          exact parseItems_last valued skipped
      | cons next others =>
          change
            (item.1 ++ 0x2C :: 0x20 ::
              joined ((next :: others).map Prod.fst)).length + 1 ≤
                fuel + 1 at enough
          rw [List.length_append, List.length_cons,
            List.length_cons] at enough
          rcases first fuel (by omega)
            (0x2C :: 0x20 :: joined ((next :: others).map Prod.fst))
            ⟨0x2C, _, rfl, .inl rfl⟩ with
            ⟨blank, valued, skipped⟩
          refine (parseItems_step valued skipped).trans ?_
          have blank :
              skip (0x20 :: joined ((next :: others).map Prod.fst)) =
                skip (joined ((next :: others).map Prod.fst)) :=
            rfl
          rw [parseItems_congr blank,
            induction (List.cons_ne_nil _ _) later (by omega)]
          rfl

/-- The array is read as its items. -/
theorem parseValue_arrayText {items : List (List UInt8 × JsonTree)}
    (some : items ≠ [])
    (reads : ∀ item ∈ items, ReadsAs strtod item.1 item.2) :
    parseValue strtod ((arrayText (items.map Prod.fst)).length + 1)
        (arrayText (items.map Prod.fst)) =
      Option.some (.array (items.map Prod.snd), []) := by
  have read :
      parseItems strtod (arrayText (items.map Prod.fst)).length
          (joined (items.map Prod.fst)) =
        Option.some (items.map Prod.snd, []) :=
    parseItems_joined some reads (by rw [arrayText, List.length_cons])
  rcases head_of_parseItems read with ⟨byte, inner, begun, open'⟩
  have items :
      parseItems strtod (arrayText (items.map Prod.fst)).length
          (byte :: inner) =
        Option.some (items.map Prod.snd, []) := by
    rw [← read, ← begun]
    exact parseItems_congr (skip_skip _)
  refine (parseValue_items rfl begun open').trans ?_
  rw [items]
  rfl

/-- It is well formed, if its texts are valid. -/
theorem parse_arrayText {items : List (List UInt8 × JsonTree)}
    (some : items ≠ [])
    (reads : ∀ item ∈ items, ReadsAs strtod item.1 item.2)
    (valid : Utf8.valid (arrayText (items.map Prod.fst)) = true) :
    parse strtod (arrayText (items.map Prod.fst)) =
      Option.some (.array (items.map Prod.snd)) := by
  rw [parse, if_pos valid, parseValue_arrayText some reads]
  rfl

theorem valid_joined {texts : List (List UInt8)}
    (valid : ∀ text ∈ texts, Utf8.valid text = true) :
    Utf8.valid (joined texts) = true := by
  induction texts with
  | nil => rfl
  | cons text rest induction =>
      rcases List.forall_mem_cons.mp valid with ⟨first, later⟩
      cases rest with
      | nil => exact Utf8.valid_append first rfl
      | cons next others =>
          refine Utf8.valid_append first ?_
          have separator : Utf8.valid [0x2C, 0x20] = true := rfl
          exact Utf8.valid_append separator (induction later)

theorem valid_arrayText {texts : List (List UInt8)}
    (valid : ∀ text ∈ texts, Utf8.valid text = true) :
    Utf8.valid (arrayText texts) = true := by
  have opening : Utf8.valid [0x5B] = true := rfl
  exact Utf8.valid_append opening (valid_joined valid)

theorem bracketed_arrayText (texts : List (List UInt8)) :
    Bracketed (arrayText texts) :=
  ⟨_, .inr rfl⟩

/-- Items without a NUL are put together without one. -/
theorem free_joined {texts : List (List UInt8)}
    (free : ∀ text ∈ texts, 0 ∉ text) : 0 ∉ joined texts := by
  induction texts with
  | nil => decide
  | cons text rest induction =>
      rcases List.forall_mem_cons.mp free with ⟨first, later⟩
      cases rest with
      | nil =>
          rw [joined, List.mem_append, not_or]
          exact ⟨first, by decide⟩
      | cons next others =>
          change 0 ∉ text ++ 0x2C :: 0x20 :: joined (next :: others)
          rw [List.mem_append, List.mem_cons, List.mem_cons, not_or, not_or,
            not_or]
          exact ⟨first, by decide, by decide, induction later⟩

theorem free_arrayText_of {texts : List (List UInt8)}
    (free : ∀ text ∈ texts, 0 ∉ text) : 0 ∉ arrayText texts := by
  rw [arrayText, List.mem_cons, not_or]
  exact ⟨by decide, free_joined free⟩

/-! ## Quotes around any text -/

/-- The first item is the value that the text starts with. -/
theorem of_parseItems {text rest : List UInt8} {first : JsonTree}
    {others : List JsonTree}
    (read : parseItems strtod (fuel + 1) text = some (first :: others, rest)) :
    ∃ behind,
      parseValue strtod fuel text = some (first, behind) ∧
        ∀ more,
          skip behind = 0x2C :: more →
            parseItems strtod fuel more = some (others, rest) := by
  rw [parseItems] at read
  rcases Option.bind_eq_some_iff.mp read with
    ⟨⟨value, behind⟩, valued, read⟩
  dsimp only at read
  split at read
  · rename_i comma continued
    rcases Option.bind_eq_some_iff.mp read with
      ⟨⟨later, rest'⟩, readLater, read⟩
    cases read
    refine ⟨behind, valued, ?_⟩
    intro more same
    rw [continued] at same
    injection same with _ same
    rw [← same]
    exact readLater
  · rename_i closing ended
    cases read
    refine ⟨behind, valued, ?_⟩
    intro more same
    rw [ended] at same
    cases same
  · cases read

/-- What is read of a text between quotes is read of the text. -/
theorem of_parseValue_quoted {text more rest : List UInt8}
    {value : JsonTree}
    (read :
      parseValue strtod fuel (quoted text ++ more) = some (value, rest)) :
    ∃ string,
      value = .string string ∧
        parseString (text ++ 0x22 :: more) = some (string, rest) := by
  cases fuel with
  | zero => cases read
  | succ fuel =>
      have opened :
          skip (quoted text ++ more) = 0x22 :: (text ++ 0x22 :: more) := by
        rw [quoted, List.cons_append, List.append_assoc]
        rfl
      rw [parseValue, opened] at read
      rcases Option.bind_eq_some_iff.mp read with
        ⟨⟨string, rest'⟩, scanned, read⟩
      cases read
      exact ⟨string, rfl, scanned⟩

/-- Behind a plain string, only a plain string comes back as it is. -/
theorem plain_of_parseItems {first rest after : List UInt8} {text : CString}
    {head : JsonTree} {others : List JsonTree}
    (plain : ∀ byte ∈ first, Plain byte)
    (read :
      parseItems strtod fuel
          (quoted first ++ 0x2C :: 0x20 ::
            (quoted text.characters ++ rest)) =
        some (head :: .string text :: others, after)) :
    ∀ byte ∈ text.characters, Plain byte := by
  cases fuel with
  | zero => cases read
  | succ fuel =>
      rcases of_parseItems read with ⟨behind, valued, continues⟩
      rcases of_parseValue_quoted valued with ⟨string, -, scanned⟩
      rw [parseString_of_plain plain] at scanned
      cases scanned
      have later := continues _ rfl
      cases fuel with
      | zero => cases later
      | succ fuel =>
          have blank :
              skip (0x20 :: (quoted text.characters ++ rest)) =
                skip (quoted text.characters ++ rest) :=
            rfl
          rw [parseItems_congr blank] at later
          rcases of_parseItems later with ⟨behind', valued', -⟩
          rcases of_parseValue_quoted valued' with ⟨string', same, scanned'⟩
          cases same
          exact plain_of_parseString scanned'

end JsonGrammar

end NeoC
