import NeoC.Foundation.Radix
import NeoC.Runtime.Json

/-!
# The grammar of JSON

What a text means is laid down here without a library: a parser of the
grammar of JSON texts, which accepts a text when it is well formed and
returns the tree that it stands for.  Texts are in UTF-8.  The value of a
number is left to `strtod`, a parameter.  `Understands` says of a library
that it reads what the grammar accepts the same way, up to the nesting it is
willing to follow.
-/

namespace NeoC

/-! ## UTF-8 -/

namespace Utf8

/-- How many bytes a character still needs, and the range of the next one. -/
structure Pending where
  owed : Nat
  low : UInt8
  high : UInt8
deriving DecidableEq

/-- Between two characters. -/
def between : Pending where
  owed := 0
  low := 0x80
  high := 0xBF

/-- The first byte of a character. -/
def lead (byte : UInt8) : Option Pending :=
  if byte < 0x80 then some between
  else if 0xC2 ≤ byte ∧ byte ≤ 0xDF then some { between with owed := 1 }
  else if byte = 0xE0 then some { owed := 2, low := 0xA0, high := 0xBF }
  else if byte = 0xED then some { owed := 2, low := 0x80, high := 0x9F }
  else if 0xE1 ≤ byte ∧ byte ≤ 0xEF then some { between with owed := 2 }
  else if byte = 0xF0 then some { owed := 3, low := 0x90, high := 0xBF }
  else if byte = 0xF4 then some { owed := 3, low := 0x80, high := 0x8F }
  else if 0xF1 ≤ byte ∧ byte ≤ 0xF3 then some { between with owed := 3 }
  else none

/-- The next byte of a text. -/
def follow (pending : Pending) (byte : UInt8) : Option Pending :=
  if pending.owed = 0 then
    lead byte
  else if 0x80 ≤ byte ∧ pending.low ≤ byte ∧ byte ≤ pending.high then
    some { between with owed := pending.owed - 1 }
  else
    none

/-- Whether a text consists of whole characters. -/
def valid (text : List UInt8) : Bool :=
  match text.foldlM follow between with
  | some pending => pending.owed == 0
  | none => false

/-- The bytes of a character. -/
def encode (code : Nat) : List UInt8 :=
  if code < 0x80 then
    [UInt8.ofNat code]
  else if code < 0x800 then
    [UInt8.ofNat (0xC0 + code / 0x40), UInt8.ofNat (0x80 + code % 0x40)]
  else if code < 0x10000 then
    [UInt8.ofNat (0xE0 + code / 0x1000),
      UInt8.ofNat (0x80 + code / 0x40 % 0x40),
      UInt8.ofNat (0x80 + code % 0x40)]
  else
    [UInt8.ofNat (0xF0 + code / 0x40000),
      UInt8.ofNat (0x80 + code / 0x1000 % 0x40),
      UInt8.ofNat (0x80 + code / 0x40 % 0x40),
      UInt8.ofNat (0x80 + code % 0x40)]

theorem follow_ascii {pending : Pending} (done : pending.owed = 0)
    {byte : UInt8} (small : byte < 0x80) :
    follow pending byte = some between := by
  rw [follow, if_pos done, lead, if_pos small]

theorem foldlM_ascii {text : List UInt8}
    (small : ∀ byte ∈ text, byte < 0x80) :
    text.foldlM follow between = some between := by
  induction text with
  | nil => rfl
  | cons byte rest induction =>
      rcases List.forall_mem_cons.mp small with ⟨first, later⟩
      rw [List.foldlM_cons, follow_ascii rfl first]
      exact induction later

theorem valid_iff {text : List UInt8} :
    valid text = true ↔
      ∃ pending,
        text.foldlM follow between = some pending ∧ pending.owed = 0 := by
  rw [valid]
  cases text.foldlM follow between with
  | none => simp
  | some pending => simp

theorem valid_ascii {text : List UInt8}
    (small : ∀ byte ∈ text, byte < 0x80) :
    valid text = true := by
  rw [valid, foldlM_ascii small]
  rfl

/-- A text between ASCII characters is valid by itself. -/
theorem valid_frame_iff {left text right : List UInt8} {byte : UInt8}
    (before : ∀ byte ∈ left, byte < 0x80) (behind : byte < 0x80) :
    valid (left ++ (text ++ byte :: right)) = true ↔
      valid text = true ∧ valid right = true := by
  rw [valid, valid, valid, List.foldlM_append, foldlM_ascii before]
  change
    (match (text ++ byte :: right).foldlM follow between with
      | some pending => pending.owed == 0
      | none => false) = true ↔ _
  rw [List.foldlM_append]
  cases text.foldlM follow between with
  | none =>
      constructor
      · nofun
      · nofun
  | some pending =>
      change
        (match (byte :: right).foldlM follow pending with
          | some pending => pending.owed == 0
          | none => false) = true ↔ _
      rw [List.foldlM_cons]
      by_cases done : pending.owed = 0
      · rw [follow_ascii done behind]
        dsimp only
        rw [done]
        exact ⟨fun valid => ⟨rfl, valid⟩, And.right⟩
      · have broken : follow pending byte = none := by
          rw [follow, if_neg done,
            if_neg fun range => UInt8.not_lt.mpr range.1 behind]
        rw [broken]
        constructor
        · nofun
        · rintro ⟨done', -⟩
          exact absurd (beq_iff_eq.mp done') done

end Utf8

/-! ## Tokens -/

namespace JsonGrammar

/-- The text without the blanks in front of it. -/
def skip (text : List UInt8) : List UInt8 :=
  text.dropWhile fun byte =>
    byte == 0x20 || byte == 0x09 || byte == 0x0A || byte == 0x0D

/--
The characters of a string up to its closing quote, and what follows.  After
a backslash any character is taken.
-/
def scanString (escaped : Bool) :
    List UInt8 → Option (List UInt8 × List UInt8)
  | [] => none
  | byte :: rest =>
      if escaped = false ∧ byte = 0x22 then
        some ([], rest)
      else if byte < 0x20 then
        none
      else do
        let (raw, after) ← scanString (!escaped && byte == 0x5C) rest
        some (byte :: raw, after)

/-- The character that a short escape stands for. -/
def shortEscape (escaped : UInt8) : Option UInt8 :=
  if escaped = 0x22 ∨ escaped = 0x5C ∨ escaped = 0x2F then some escaped
  else if escaped = 0x62 then some 0x08
  else if escaped = 0x66 then some 0x0C
  else if escaped = 0x6E then some 0x0A
  else if escaped = 0x72 then some 0x0D
  else if escaped = 0x74 then some 0x09
  else none

/-- The value of a hexadecimal digit. -/
def hexDigit (digit : UInt8) : Option Nat :=
  if 0x30 ≤ digit ∧ digit ≤ 0x39 then some (digit.toNat - 0x30)
  else if 0x41 ≤ digit ∧ digit ≤ 0x46 then some (digit.toNat - 0x37)
  else if 0x61 ≤ digit ∧ digit ≤ 0x66 then some (digit.toNat - 0x57)
  else none

/-- The character of a pair of surrogates. -/
def surrogatePair (high low : Nat) : Option Nat :=
  if 0xDC00 ≤ low ∧ low < 0xE000 then
    some (0x10000 + 0x400 * (high - 0xD800) + (low - 0xDC00))
  else
    none

/-- Where in an escape the characters of a string have come to. -/
inductive Escape where
  | plain
  /-- After a backslash. -/
  | begun
  /-- Among four digits, behind the first half of a pair or not. -/
  | digits (high : Option Nat) (value count : Nat)
  /-- After the first half of a pair, and after the backslash behind it. -/
  | half (high : Nat)
  | halfBegun (high : Nat)
deriving DecidableEq

/-- The bytes that a byte completes, and where it leads. -/
def Escape.step (byte : UInt8) : Escape → Option (List UInt8 × Escape)
  | .plain =>
      if byte = 0x5C then some ([], .begun) else some ([byte], .plain)
  | .begun =>
      if byte = 0x75 then
        some ([], .digits none 0 0)
      else do
        let character ← shortEscape byte
        some ([character], .plain)
  | .digits high value count => do
      let digit ← hexDigit byte
      let unit := 0x10 * value + digit
      if count < 3 then
        some ([], .digits high unit (count + 1))
      else
        match high with
        | some high => do
            let code ← surrogatePair high unit
            some (Utf8.encode code, .plain)
        | none =>
            if unit < 0xD800 ∨ 0xE000 ≤ unit then
              some (Utf8.encode unit, .plain)
            else if unit < 0xDC00 then
              some ([], .half unit)
            else
              none
  | .half high =>
      if byte = 0x5C then some ([], .halfBegun high) else none
  | .halfBegun high =>
      if byte = 0x75 then some ([], .digits (some high) 0 0) else none

/-- What the characters of a string stand for. -/
def unescape (escape : Escape) : List UInt8 → Option (List UInt8)
  | [] => if escape = .plain then some [] else none
  | byte :: rest => do
      let (bytes, escape) ← escape.step byte
      let later ← unescape escape rest
      some (bytes ++ later)

/-- Whether a byte is a decimal digit. -/
def isDigit (byte : UInt8) : Bool :=
  decide (0x30 ≤ byte ∧ byte ≤ 0x39)

/-- The fraction of a number, if there is one. -/
def scanFraction (text : List UInt8) : Option (List UInt8 × List UInt8) :=
  match text with
  | 0x2E :: rest =>
      let digits := rest.takeWhile isDigit
      if digits = [] then none
      else some (0x2E :: digits, rest.dropWhile isDigit)
  | _ => some ([], text)

/-- The exponent of a number, if there is one. -/
def scanExponent (text : List UInt8) : Option (List UInt8 × List UInt8) :=
  match text with
  | [] => some ([], text)
  | mark :: rest =>
      if mark = 0x65 ∨ mark = 0x45 then
        let sign := rest.take 1 |>.filter fun byte =>
          byte == 0x2B || byte == 0x2D
        let rest := rest.drop sign.length
        let digits := rest.takeWhile isDigit
        if digits = [] then none
        else some (mark :: sign ++ digits, rest.dropWhile isDigit)
      else
        some ([], text)

/-- The characters of a number, and what follows. -/
def scanNumber (text : List UInt8) : Option (List UInt8 × List UInt8) := do
  let sign := text.take 1 |>.filter (· == 0x2D)
  let rest := text.drop sign.length
  let whole := rest.takeWhile isDigit
  if whole = [] ∨ (whole.head? = some 0x30 ∧ 1 < whole.length) then
    none
  else
    let (fraction, rest) ← scanFraction (rest.dropWhile isDigit)
    let (exponent, rest) ← scanExponent rest
    some (sign ++ whole ++ fraction ++ exponent, rest)

/-! ## Values -/

/-- A string as the library stores it. -/
def parseString (text : List UInt8) : Option (CString × List UInt8) := do
  let (raw, rest) ← scanString false text
  let value ← unescape .plain raw
  some (CString.ofBuffer value, rest)

variable (strtod : List UInt8 → Option Rat)

mutual

/-- A value and what follows it. -/
def parseValue : Nat → List UInt8 → Option (JsonTree × List UInt8)
  | 0, _ => none
  | fuel + 1, text =>
      match skip text with
      | [] => none
      | byte :: rest =>
          if byte = 0x22 then do
            let (value, rest) ← parseString rest
            some (.string value, rest)
          else if byte = 0x7B then
            match skip rest with
            | 0x7D :: rest => some (.object [], rest)
            | rest => do
                let (members, rest) ← parseMembers fuel rest
                some (.object members, rest)
          else if byte = 0x5B then
            match skip rest with
            | 0x5D :: rest => some (.array [], rest)
            | rest => do
                let (items, rest) ← parseItems fuel rest
                some (.array items, rest)
          else if (byte :: rest).take 4 = ascii "null" then
            some (.null, rest.drop 3)
          else if (byte :: rest).take 4 = ascii "true" then
            some (.bool true, rest.drop 3)
          else if (byte :: rest).take 5 = ascii "false" then
            some (.bool false, rest.drop 4)
          else do
            let (number, rest) ← scanNumber (byte :: rest)
            some (.number (strtod number), rest)

/-- The members of an object up to its closing brace, at least one. -/
def parseMembers :
    Nat → List UInt8 → Option (List (CString × JsonTree) × List UInt8)
  | 0, _ => none
  | fuel + 1, text =>
      match skip text with
      | 0x22 :: rest => do
          let (name, rest) ← parseString rest
          match skip rest with
          | 0x3A :: rest => do
              let (value, rest) ← parseValue fuel rest
              match skip rest with
              | 0x2C :: rest => do
                  let (members, rest) ← parseMembers fuel rest
                  some ((name, value) :: members, rest)
              | 0x7D :: rest => some ([(name, value)], rest)
              | _ => none
          | _ => none
      | _ => none

/-- The items of an array up to its closing bracket, at least one. -/
def parseItems :
    Nat → List UInt8 → Option (List JsonTree × List UInt8)
  | 0, _ => none
  | fuel + 1, text => do
      let (value, rest) ← parseValue fuel text
      match skip rest with
      | 0x2C :: rest => do
          let (items, rest) ← parseItems fuel rest
          some (value :: items, rest)
      | 0x5D :: rest => some ([value], rest)
      | _ => none

end

/-- The tree of a well-formed text. -/
def parse (text : List UInt8) : Option JsonTree :=
  if Utf8.valid text then
    match parseValue strtod (text.length + 1) text with
    | some (tree, rest) => if skip rest = [] then some tree else none
    | none => none
  else
    none

/-! ## Numerals -/

/-- The decimal digits of a number. -/
def decimal (value : Nat) : List UInt8 :=
  if value = 0 then
    [0x30]
  else
    (Foundation.Radix.spill 10 value value).reverse.map fun digit =>
      UInt8.ofNat (0x30 + digit)

/-- The number that digits stand for. -/
def decimalValue (text : List UInt8) : Nat :=
  text.foldl (fun value byte => 10 * value + (byte.toNat - 0x30)) 0

theorem decimal_pos {value : Nat} (positive : 0 < value) :
    decimal value =
      (Nat.digits 10 value).reverse.map fun digit =>
        UInt8.ofNat (0x30 + digit) := by
  rw [decimal, if_neg (Nat.ne_of_gt positive),
    Foundation.Radix.spill_eq (by decide) le_rfl]

theorem toNat_digit {digit : Nat} (small : digit < 10) :
    (UInt8.ofNat (0x30 + digit)).toNat = 0x30 + digit := by
  rw [UInt8.toNat_ofNat']
  exact Nat.mod_eq_of_lt (by omega)

/-- Every character of a numeral is a digit. -/
theorem isDigit_decimal (value : Nat) :
    ∀ byte ∈ decimal value, isDigit byte = true := by
  intro byte member
  rcases Nat.eq_zero_or_pos value with rfl | positive
  · rw [List.mem_singleton.mp member]
    rfl
  · rw [decimal_pos positive] at member
    rcases List.mem_map.mp member with ⟨digit, inside, rfl⟩
    have small :=
      Nat.digits_lt_base (by decide) (List.mem_reverse.mp inside)
    rw [isDigit, decide_eq_true_iff, UInt8.le_iff_toNat_le,
      UInt8.le_iff_toNat_le, toNat_digit small]
    change 0x30 ≤ 0x30 + digit ∧ 0x30 + digit ≤ 0x39
    omega

theorem decimal_ne_nil (value : Nat) : decimal value ≠ [] := by
  rcases Nat.eq_zero_or_pos value with rfl | positive
  · nofun
  · rw [decimal_pos positive]
    intro empty
    rw [List.map_eq_nil_iff, List.reverse_eq_nil_iff,
      Nat.digits_eq_nil_iff_eq_zero] at empty
    omega

/-- A numeral of two digits or more does not start with zero. -/
theorem head_decimal {value : Nat}
    (zero : (decimal value).head? = some 0x30) :
    (decimal value).length ≤ 1 := by
  rcases Nat.eq_zero_or_pos value with rfl | positive
  · exact le_rfl
  rw [decimal_pos positive, List.head?_map, List.head?_reverse] at zero
  rcases Option.map_eq_some_iff.mp zero with ⟨digit, last, same⟩
  have nonempty : Nat.digits 10 value ≠ [] :=
    Nat.digits_ne_nil_iff_ne_zero.mpr (Nat.ne_of_gt positive)
  rw [List.getLast?_eq_getLast_of_ne_nil nonempty] at last
  have leading :=
    Nat.getLast_digit_ne_zero 10 (Nat.ne_of_gt positive)
  rw [Option.some_inj.mp last] at leading
  have member : digit ∈ Nat.digits 10 value := by
    rw [← Option.some_inj.mp last]
    exact List.getLast_mem nonempty
  have small := Nat.digits_lt_base (by decide) member
  have toNat := congrArg UInt8.toNat same
  rw [toNat_digit small] at toNat
  change 0x30 + digit = 0x30 at toNat
  omega

theorem decimalValue_decimal (value : Nat) :
    decimalValue (decimal value) = value := by
  rcases Nat.eq_zero_or_pos value with rfl | positive
  · rfl
  rw [decimal_pos positive, decimalValue, List.foldl_map,
    List.foldl_reverse]
  calc
    _ = (Nat.digits 10 value).foldr (fun digit value => digit + 10 * value)
        0 := by
      apply List.foldr_ext
      intro digit member later
      rw [toNat_digit (Nat.digits_lt_base (by decide) member)]
      omega
    _ = Nat.ofDigits 10 (Nat.digits 10 value) := by
      rw [Nat.ofDigits_eq_foldr]
      rfl
    _ = value := Nat.ofDigits_digits 10 value

/-- A numeral is scanned up to the character behind it. -/
theorem scanNumber_decimal (value : Nat) {byte : UInt8}
    (behind : byte = 0x2C ∨ byte = 0x0A) (rest : List UInt8) :
    scanNumber (decimal value ++ byte :: rest) =
      some (decimal value, byte :: rest) := by
  have digits := isDigit_decimal value
  have stop : isDigit byte = false := by
    rcases behind with rfl | rfl
    · rfl
    · rfl
  have unsigned :
      ((decimal value ++ byte :: rest).take 1).filter (· == 0x2D) = [] := by
    cases numeral : decimal value with
    | nil => exact absurd numeral (decimal_ne_nil value)
    | cons digit others =>
        have first : isDigit digit = true := by
          apply digits
          rw [numeral]
          exact List.mem_cons_self
        rw [List.cons_append, List.take_succ_cons, List.take_zero]
        apply List.filter_eq_nil_iff.mpr
        intro other member
        rw [List.mem_singleton.mp member]
        intro minus
        rw [beq_iff_eq.mp minus] at first
        cases first
  have whole :
      (decimal value ++ byte :: rest).takeWhile isDigit =
        decimal value := by
    rw [List.takeWhile_append_of_pos digits, List.takeWhile_cons, stop]
    exact List.append_nil _
  have after :
      (decimal value ++ byte :: rest).dropWhile isDigit =
        byte :: rest := by
    rw [List.dropWhile_append_of_pos digits, List.dropWhile_cons, stop]
    rfl
  have wellFormed :
      ¬ (decimal value = [] ∨
        (decimal value).head? = some 0x30 ∧
          1 < (decimal value).length) := by
    rintro (empty | ⟨zero, long⟩)
    · exact decimal_ne_nil value empty
    · exact absurd (head_decimal zero) (Nat.not_le.mpr long)
  have noFraction : scanFraction (byte :: rest) = some ([], byte :: rest) := by
    rcases behind with rfl | rfl
    · rfl
    · rfl
  have noExponent : scanExponent (byte :: rest) = some ([], byte :: rest) := by
    rcases behind with rfl | rfl
    · rfl
    · rfl
  rw [scanNumber]
  dsimp only
  rw [unsigned, List.length_nil, List.drop_zero, whole, after,
    if_neg wellFormed, noFraction]
  change (scanExponent (byte :: rest)).bind _ = _
  rw [noExponent]
  change some ([] ++ decimal value ++ [] ++ [], _) = _
  rw [List.nil_append, List.append_nil, List.append_nil]

/-! ## Strings that stand for themselves -/

/-- A byte that stands for itself in a string. -/
def Plain (byte : UInt8) : Prop :=
  byte ≠ 0x22 ∧ byte ≠ 0x5C ∧ 0x20 ≤ byte

instance (byte : UInt8) : Decidable (Plain byte) :=
  inferInstanceAs (Decidable (_ ∧ _ ∧ _))

theorem scanString_plain {raw : List UInt8}
    (plain : ∀ byte ∈ raw, Plain byte) (rest : List UInt8) :
    scanString false (raw ++ 0x22 :: rest) = some (raw, rest) := by
  induction raw with
  | nil => rfl
  | cons byte raw induction =>
      rcases List.forall_mem_cons.mp plain with
        ⟨⟨quote, escape, control⟩, later⟩
      rw [List.cons_append, scanString, if_neg fun both => quote both.2,
        if_neg (UInt8.not_lt.mpr control), beq_false_of_ne escape,
        Bool.and_false, induction later]
      rfl

theorem unescape_plain {raw : List UInt8}
    (plain : ∀ byte ∈ raw, Plain byte) :
    unescape .plain raw = some raw := by
  induction raw with
  | nil => rfl
  | cons byte raw induction =>
      rcases List.forall_mem_cons.mp plain with ⟨⟨-, escape, -⟩, later⟩
      rw [unescape, Escape.step, if_neg escape]
      change (unescape .plain raw).bind _ = _
      rw [induction later]
      rfl

/-- A plain text is read as it is. -/
theorem parseString_plain {text : CString}
    (plain : ∀ byte ∈ text.characters, Plain byte) (rest : List UInt8) :
    parseString (text.characters ++ 0x22 :: rest) = some (text, rest) := by
  rw [parseString, scanString_plain plain]
  change (unescape .plain text.characters).bind _ = _
  rw [unescape_plain plain]
  change some (CString.ofBuffer text.characters, rest) = _
  rw [CString.ofBuffer_characters]

/-! ## Strings that do not -/

/-- The bytes of an escape before the one that is read. -/
def Escape.length : Escape → Nat
  | .plain => 0
  | .begun => 1
  | .digits none _ count => 2 + count
  | .half _ => 6
  | .halfBegun _ => 7
  | .digits (some _) _ count => 8 + count

theorem Escape.length_pos {escape : Escape} (inside : escape ≠ .plain) :
    0 < escape.length := by
  cases escape with
  | plain => exact absurd rfl inside
  | begun => exact Nat.one_pos
  | digits high value count =>
      cases high with
      | none =>
          rw [Escape.length]
          omega
      | some high =>
          rw [Escape.length]
          omega
  | half high => exact Nat.succ_pos 5
  | halfBegun high => exact Nat.succ_pos 6

theorem length_encode_le (code : Nat) :
    (Utf8.encode code).length ≤ 4 := by
  unfold Utf8.encode
  split
  · exact Nat.le_add_left 1 3
  split
  · exact Nat.le_add_left 2 2
  split
  · exact Nat.le_add_left 3 1
  · exact le_rfl

/-- An escape is longer than what it stands for. -/
theorem Escape.step_shortens {byte : UInt8} {escape after : Escape}
    {bytes : List UInt8} (stepped : escape.step byte = some (bytes, after)) :
    (escape = .plain ∧ byte ≠ 0x5C ∧ bytes = [byte] ∧ after = .plain) ∨
      (after = .plain ∧ bytes.length < escape.length + 1) ∨
        (after ≠ .plain ∧ bytes = [] ∧
          after.length ≤ escape.length + 1) := by
  unfold Escape.step at stepped
  cases escape with
  | plain =>
      dsimp only at stepped
      split at stepped
      · cases stepped
        exact .inr (.inr ⟨nofun, rfl, le_rfl⟩)
      · rename_i other
        cases stepped
        exact .inl ⟨rfl, other, rfl, rfl⟩
  | begun =>
      dsimp only at stepped
      split at stepped
      · cases stepped
        exact .inr (.inr ⟨nofun, rfl, le_rfl⟩)
      · rcases Option.bind_eq_some_iff.mp stepped with ⟨character, -, rest⟩
        cases rest
        exact .inr (.inl ⟨rfl, Nat.lt_succ_self 1⟩)
  | digits high value count =>
      rcases Option.bind_eq_some_iff.mp stepped with ⟨digit, -, rest⟩
      dsimp only at rest
      split at rest
      · cases rest
        refine .inr (.inr ⟨nofun, rfl, ?_⟩)
        cases high with
        | none => exact le_rfl
        | some high => exact le_rfl
      rename_i last
      cases high with
      | none =>
          dsimp only at rest
          split at rest
          · cases rest
            have short := length_encode_le (0x10 * value + digit)
            exact .inr (.inl ⟨rfl, by rw [Escape.length]; omega⟩)
          split at rest
          · cases rest
            exact
              .inr (.inr ⟨nofun, rfl, by
                rw [Escape.length, Escape.length]
                omega⟩)
          · cases rest
      | some high =>
          rcases Option.bind_eq_some_iff.mp rest with ⟨code, -, rest⟩
          cases rest
          have short := length_encode_le code
          exact .inr (.inl ⟨rfl, by rw [Escape.length]; omega⟩)
  | half high =>
      dsimp only at stepped
      split at stepped
      · cases stepped
        exact .inr (.inr ⟨nofun, rfl, le_rfl⟩)
      · cases stepped
  | halfBegun high =>
      dsimp only at stepped
      split at stepped
      · cases stepped
        exact .inr (.inr ⟨nofun, rfl, le_rfl⟩)
      · cases stepped

/-- A quote stands for itself, after a backslash or not. -/
theorem Escape.step_quote {escape after : Escape} {bytes : List UInt8}
    (stepped : escape.step 0x22 = some (bytes, after)) : bytes = [0x22] := by
  cases escape with
  | plain =>
      cases stepped
      rfl
  | begun =>
      cases stepped
      rfl
  | digits high value count => cases stepped
  | half high => cases stepped
  | halfBegun high => cases stepped

/--
The first characters of a string stand for no more than they are, and for
fewer if there is an escape.  No quote among them is lost.
-/
theorem unescape_append {text rest value : List UInt8} {escape : Escape}
    (read : unescape escape (text ++ rest) = some value) :
    ∃ bytes after later,
      value = bytes ++ later ∧
        unescape after rest = some later ∧
        text.count 0x22 ≤ bytes.count 0x22 ∧
        ((escape = .plain ∧ after = .plain ∧ 0x5C ∉ text ∧ bytes = text) ∨
          (after ≠ .plain ∧
            bytes.length + after.length ≤ escape.length + text.length) ∨
          (after = .plain ∧
            bytes.length < escape.length + text.length)) := by
  have nothing : Escape.length .plain = 0 := rfl
  induction text generalizing escape value with
  | nil =>
      refine ⟨[], escape, value, rfl, read, le_rfl, ?_⟩
      by_cases plain : escape = .plain
      · exact .inl ⟨plain, plain, List.not_mem_nil, rfl⟩
      · exact .inr (.inl ⟨plain, Nat.le_of_eq (Nat.zero_add _)⟩)
  | cons byte text induction =>
      rw [List.cons_append, unescape] at read
      rcases Option.bind_eq_some_iff.mp read with
        ⟨⟨first, middle⟩, stepped, read⟩
      rcases Option.bind_eq_some_iff.mp read with ⟨others, readOthers, read⟩
      cases read
      rcases induction readOthers with
        ⟨bytes, after, later, rfl, readLater, counted, sizes⟩
      refine
        ⟨first ++ bytes, after, later, (List.append_assoc _ _ _).symm,
          readLater, ?_, ?_⟩
      · rw [List.count_append, List.count_cons]
        split
        · rename_i quote
          rw [beq_iff_eq.mp quote] at stepped
          rw [Escape.step_quote stepped, List.count_singleton_self]
          omega
        · omega
      rw [List.length_append, List.length_cons]
      rcases Escape.step_shortens stepped with
        ⟨rfl, other, rfl, rfl⟩ | ⟨rfl, shorter⟩ | ⟨inside, rfl, longer⟩
      · rw [List.length_singleton]
        rcases sizes with
          ⟨-, rfl, absent, rfl⟩ | ⟨open', less⟩ | ⟨rfl, less⟩
        · refine .inl ⟨rfl, rfl, ?_, rfl⟩
          rw [List.mem_cons, not_or]
          exact ⟨fun equal => other equal.symm, absent⟩
        · exact .inr (.inl ⟨open', by omega⟩)
        · exact .inr (.inr ⟨rfl, by omega⟩)
      · rcases sizes with
          ⟨-, rfl, -, rfl⟩ | ⟨open', less⟩ | ⟨rfl, less⟩
        · exact .inr (.inr ⟨rfl, by omega⟩)
        · exact .inr (.inl ⟨open', by omega⟩)
        · exact .inr (.inr ⟨rfl, by omega⟩)
      · rw [List.length_nil]
        rcases sizes with
          ⟨plain, -⟩ | ⟨open', less⟩ | ⟨rfl, less⟩
        · exact absurd plain inside
        · exact .inr (.inl ⟨open', by omega⟩)
        · exact .inr (.inr ⟨rfl, by omega⟩)

/-- A string is shorter than its characters, or it has no escape. -/
theorem length_unescape {raw value : List UInt8}
    (read : unescape .plain raw = some value) :
    value.length < raw.length ∨ 0x5C ∉ raw ∧ value.length = raw.length := by
  have nothing : Escape.length .plain = 0 := rfl
  rw [← List.append_nil raw] at read
  rcases unescape_append read with
    ⟨bytes, after, later, rfl, readLater, -, sizes⟩
  rw [unescape] at readLater
  split at readLater
  · cases readLater
    rw [List.append_nil]
    rcases sizes with ⟨-, -, absent, rfl⟩ | ⟨open', -⟩ | ⟨-, less⟩
    · exact .inr ⟨absent, rfl⟩
    · contradiction
    · exact .inl (by omega)
  · cases readLater

/-- A string ends at the quote behind a text, or before, or it escapes it. -/
theorem scanString_quote {text raw after rest : List UInt8} {escaped : Bool}
    (scanned :
      scanString escaped (text ++ 0x22 :: rest) = some (raw, after)) :
    raw = text ∨ raw.length < text.length ∨
      (escaped = true ∨ 0x5C ∈ text) ∧ ∃ more, raw = text ++ 0x22 :: more := by
  induction text generalizing escaped raw with
  | nil =>
      cases escaped with
      | false =>
          cases scanned
          exact .inl rfl
      | true =>
          rcases Option.bind_eq_some_iff.mp scanned with
            ⟨⟨more, after'⟩, -, rest⟩
          cases rest
          exact .inr (.inr ⟨.inl rfl, more, rfl⟩)
  | cons byte text induction =>
      rw [List.cons_append, scanString] at scanned
      split at scanned
      · cases scanned
        exact .inr (.inl (Nat.succ_pos _))
      split at scanned
      · cases scanned
      rcases Option.bind_eq_some_iff.mp scanned with
        ⟨⟨raw', after'⟩, later, rest⟩
      cases rest
      rcases induction later with rfl | shorter | ⟨opened, more, rfl⟩
      · exact .inl rfl
      · exact .inr (.inl (Nat.succ_lt_succ shorter))
      · refine .inr (.inr ⟨.inr ?_, more, rfl⟩)
        rcases opened with backslash | member
        · rw [Bool.and_eq_true, beq_iff_eq] at backslash
          rw [backslash.2]
          exact List.mem_cons_self
        · exact List.mem_cons_of_mem _ member

/-- A string without an escape has plain characters only. -/
theorem plain_of_scanString {text raw after : List UInt8}
    (scanned : scanString false text = some (raw, after))
    (unescaped : 0x5C ∉ raw) :
    ∀ byte ∈ raw, Plain byte := by
  induction text generalizing raw with
  | nil => cases scanned
  | cons byte text induction =>
      rw [scanString] at scanned
      split at scanned
      · cases scanned
        exact List.forall_mem_nil _
      rename_i inside
      split at scanned
      · cases scanned
      rename_i control
      rcases Option.bind_eq_some_iff.mp scanned with
        ⟨⟨raw', after'⟩, later, rest⟩
      cases rest
      rw [List.mem_cons, not_or] at unescaped
      have other : byte ≠ 0x5C := fun equal => unescaped.1 equal.symm
      rw [beq_false_of_ne other, Bool.and_false] at later
      refine List.forall_mem_cons.mpr ⟨⟨?_, other, ?_⟩, ?_⟩
      · exact fun equal => inside ⟨rfl, equal⟩
      · exact UInt8.not_lt.mp control
      · exact induction later unescaped.2

/--
Only a plain text is read as it is.  A string that goes on behind the quote
has escaped it, and so it has one quote more than the text.
-/
theorem plain_of_parseString {text : CString} {after rest : List UInt8}
    (read :
      parseString (text.characters ++ 0x22 :: rest) = some (text, after)) :
    ∀ byte ∈ text.characters, Plain byte := by
  rcases Option.bind_eq_some_iff.mp read with
    ⟨⟨raw, remaining⟩, scanned, rest⟩
  rcases Option.bind_eq_some_iff.mp rest with ⟨value, unescaped, rest⟩
  injection rest with same
  injection same with same _
  have start : text.characters <+: value := by
    rw [← same]
    exact List.takeWhile_prefix _
  have kept := start.length_le
  have sizes := length_unescape unescaped
  rcases scanString_quote scanned with
    rfl | less | ⟨backslash, more, rfl⟩
  · rcases sizes with shorter | ⟨absent, equal⟩
    · omega
    · exact plain_of_scanString scanned absent
  · omega
  · have escape : 0x5C ∈ text.characters := by
      rcases backslash with inside | member
      · cases inside
      · exact member
    rw [List.append_cons] at unescaped
    rcases unescape_append unescaped with
      ⟨bytes, behind, later, rfl, -, counted, within⟩
    have fewer : bytes.length ≤ text.characters.length := by
      rw [List.length_append, List.length_singleton] at within
      have nothing : Escape.length .plain = 0 := rfl
      rcases within with ⟨-, -, absent, -⟩ | ⟨open', less⟩ | ⟨-, less⟩
      · exact absurd (List.mem_append_left _ escape) absent
      · have some := Escape.length_pos open'
        omega
      · omega
    have part : bytes <+: text.characters :=
      List.prefix_of_prefix_length_le (List.prefix_append _ _) start fewer
    have most := part.sublist.count_le 0x22
    rw [List.count_append, List.count_singleton_self] at counted
    omega

example : unescape .plain (ascii "a\\n") = some [0x61, 0x0A] := by
  decide

/-! ## Taking a text apart -/

variable {strtod} {fuel : Nat}

theorem parseValue_string {text rest after : List UInt8} {value : CString}
    (opened : skip text = 0x22 :: rest)
    (read : parseString rest = some (value, after)) :
    parseValue strtod (fuel + 1) text = some (.string value, after) := by
  rw [parseValue, opened]
  change (parseString rest).bind _ = _
  rw [read]
  rfl

/-- An object is read as its members are. -/
theorem parseValue_members {text rest inner : List UInt8}
    (opened : skip text = 0x7B :: rest)
    (begun : skip rest = 0x22 :: inner) :
    parseValue strtod (fuel + 1) text =
      (parseMembers strtod fuel (0x22 :: inner)).bind fun read =>
        some (.object read.1, read.2) := by
  rw [parseValue, opened]
  dsimp only
  rw [if_neg (by decide), if_pos rfl, begun]
  rfl

theorem parseValue_object {text rest inner after : List UInt8}
    {members : List (CString × JsonTree)}
    (opened : skip text = 0x7B :: rest)
    (begun : skip rest = 0x22 :: inner)
    (read :
      parseMembers strtod fuel (0x22 :: inner) = some (members, after)) :
    parseValue strtod (fuel + 1) text = some (.object members, after) := by
  rw [parseValue_members opened begun, read]
  rfl

/-- What was read of an object is read of its members. -/
theorem of_parseValue_object {text rest inner after : List UInt8}
    {tree : JsonTree}
    (read : parseValue strtod (fuel + 1) text = some (tree, after))
    (opened : skip text = 0x7B :: rest)
    (begun : skip rest = 0x22 :: inner) :
    ∃ members,
      tree = .object members ∧
        parseMembers strtod fuel (0x22 :: inner) =
          some (members, after) := by
  rw [parseValue_members opened begun] at read
  rcases Option.bind_eq_some_iff.mp read with
    ⟨⟨members, after'⟩, readMembers, read⟩
  cases read
  exact ⟨members, rfl, readMembers⟩

theorem parseValue_emptyArray {text rest after : List UInt8}
    (opened : skip text = 0x5B :: rest)
    (closed : skip rest = 0x5D :: after) :
    parseValue strtod (fuel + 1) text = some (.array [], after) := by
  rw [parseValue, opened]
  dsimp only
  rw [if_neg (by decide), if_neg (by decide), if_pos rfl, closed]
  rfl

/-- No blank is skipped in front of a numeral. -/
theorem skip_numeral (value : Nat) (rest : List UInt8) :
    skip (decimal value ++ rest) = decimal value ++ rest := by
  cases numeral : decimal value with
  | nil => exact absurd numeral (decimal_ne_nil value)
  | cons digit others =>
      have first : isDigit digit = true := by
        apply isDigit_decimal value
        rw [numeral]
        exact List.mem_cons_self
      rw [List.cons_append, skip, List.dropWhile_cons, if_neg]
      intro blank
      simp only [Bool.or_eq_true, beq_iff_eq] at blank
      rcases blank with ((rfl | rfl) | rfl) | rfl
      · cases first
      · cases first
      · cases first
      · cases first

theorem parseValue_number {text : List UInt8} (value : Nat)
    {byte : UInt8} {rest : List UInt8}
    (behind : byte = 0x2C ∨ byte = 0x0A)
    (opened : skip text = decimal value ++ byte :: rest) :
    parseValue strtod (fuel + 1) text =
      some (.number (strtod (decimal value)), byte :: rest) := by
  have scanned := scanNumber_decimal value behind rest
  rw [parseValue, opened]
  cases numeral : decimal value with
  | nil => exact absurd numeral (decimal_ne_nil value)
  | cons digit others =>
      have first : isDigit digit = true := by
        apply isDigit_decimal value
        rw [numeral]
        exact List.mem_cons_self
      have different {other : UInt8} (no : isDigit other = false) :
          digit ≠ other := by
        rintro rfl
        rw [first] at no
        cases no
      have word {count : Nat} {letters tail : List UInt8}
          (no : letters.head?.map isDigit = some false) :
          (digit :: tail).take (count + 1) ≠ letters := by
        rintro rfl
        rw [List.take_succ_cons, List.head?_cons, Option.map_some,
          first] at no
        cases no
      rw [numeral] at scanned
      rw [List.cons_append] at scanned ⊢
      dsimp only
      rw [if_neg (different rfl), if_neg (different rfl),
        if_neg (different rfl), if_neg (word (by decide)),
        if_neg (word (by decide)), if_neg (word (by decide))]
      change (scanNumber _).bind _ = _
      rw [scanned]
      rfl

/-- Behind a name and a value, a comma or the closing brace decides. -/
theorem parseMembers_member {text rest colon value behind : List UInt8}
    {name : CString} {item : JsonTree}
    (opened : skip text = 0x22 :: rest)
    (named : parseString rest = some (name, colon))
    (separated : skip colon = 0x3A :: value)
    (valued : parseValue strtod fuel value = some (item, behind)) :
    parseMembers strtod (fuel + 1) text =
      match skip behind with
      | 0x2C :: after =>
          (parseMembers strtod fuel after).bind fun read =>
            some ((name, item) :: read.1, read.2)
      | 0x7D :: after => some ([(name, item)], after)
      | _ => none := by
  rw [parseMembers, opened]
  change (parseString rest).bind _ = _
  rw [named]
  change (match skip colon with | 0x3A :: rest => _ | _ => _) = _
  rw [separated]
  change (parseValue strtod fuel value).bind _ = _
  rw [valued]
  rfl

/-- Behind a member with a comma, the other members decide. -/
theorem parseMembers_step {text rest colon value comma after : List UInt8}
    {name : CString} {item : JsonTree}
    (opened : skip text = 0x22 :: rest)
    (named : parseString rest = some (name, colon))
    (separated : skip colon = 0x3A :: value)
    (valued : parseValue strtod fuel value = some (item, comma))
    (continued : skip comma = 0x2C :: after) :
    parseMembers strtod (fuel + 1) text =
      (parseMembers strtod fuel after).bind fun read =>
        some ((name, item) :: read.1, read.2) := by
  rw [parseMembers_member opened named separated valued, continued]
  rfl

/-- The name and the value of a member with another one behind it. -/
theorem parseMembers_next {text rest colon value comma after : List UInt8}
    {name : CString} {item : JsonTree}
    {members : List (CString × JsonTree)}
    (opened : skip text = 0x22 :: rest)
    (named : parseString rest = some (name, colon))
    (separated : skip colon = 0x3A :: value)
    (valued : parseValue strtod fuel value = some (item, comma))
    (continued : skip comma = 0x2C :: after)
    {remaining : List UInt8}
    (read : parseMembers strtod fuel after = some (members, remaining)) :
    parseMembers strtod (fuel + 1) text =
      some ((name, item) :: members, remaining) := by
  rw [parseMembers_step opened named separated valued continued, read]
  rfl

/-- The name and the value of the last member. -/
theorem parseMembers_last {text rest colon value brace after : List UInt8}
    {name : CString} {item : JsonTree}
    (opened : skip text = 0x22 :: rest)
    (named : parseString rest = some (name, colon))
    (separated : skip colon = 0x3A :: value)
    (valued : parseValue strtod fuel value = some (item, brace))
    (closed : skip brace = 0x7D :: after) :
    parseMembers strtod (fuel + 1) text = some ([(name, item)], after) := by
  rw [parseMembers_member opened named separated valued, closed]
  rfl

/-- An array is read as its items are. -/
theorem parseValue_items {text rest inner : List UInt8} {byte : UInt8}
    (opened : skip text = 0x5B :: rest)
    (begun : skip rest = byte :: inner) (some : byte ≠ 0x5D) :
    parseValue strtod (fuel + 1) text =
      (parseItems strtod fuel (byte :: inner)).bind fun read =>
        Option.some (.array read.1, read.2) := by
  rw [parseValue, opened]
  dsimp only
  rw [if_neg (by decide), if_neg (by decide), if_pos rfl, begun]
  split
  · rename_i closed
    injection closed with same _
    exact absurd same some
  · rfl

/-- Behind an item with a comma, the other items decide. -/
theorem parseItems_step {text comma after : List UInt8} {item : JsonTree}
    (valued : parseValue strtod fuel text = some (item, comma))
    (continued : skip comma = 0x2C :: after) :
    parseItems strtod (fuel + 1) text =
      (parseItems strtod fuel after).bind fun read =>
        some (item :: read.1, read.2) := by
  rw [parseItems, valued]
  change
    (match skip comma with
      | 0x2C :: rest => _
      | 0x5D :: rest => _
      | _ => _) = _
  rw [continued]
  rfl

theorem parseItems_last {text bracket after : List UInt8} {item : JsonTree}
    (valued : parseValue strtod fuel text = some (item, bracket))
    (closed : skip bracket = 0x5D :: after) :
    parseItems strtod (fuel + 1) text = some ([item], after) := by
  rw [parseItems, valued]
  change
    (match skip bracket with
      | 0x2C :: rest => _
      | 0x5D :: rest => _
      | _ => _) = _
  rw [closed]
  rfl

/-- A string that needs no escape is read as it is. -/
theorem parseString_of_plain {raw : List UInt8}
    (plain : ∀ byte ∈ raw, Plain byte) (rest : List UInt8) :
    parseString (raw ++ 0x22 :: rest) = some (CString.ofBuffer raw, rest) := by
  rw [parseString, scanString_plain plain]
  change (unescape .plain raw).bind _ = _
  rw [unescape_plain plain]
  rfl

/-- A member with a number, and others behind it. -/
theorem parseMembers_number {key : List UInt8}
    (plain : ∀ byte ∈ key, Plain byte) (value : Nat) (rest : List UInt8) :
    parseMembers strtod (fuel + 2)
        (0x22 :: (key ++ 0x22 :: 0x3A ::
          (decimal value ++ 0x2C :: rest))) =
      (parseMembers strtod (fuel + 1) rest).bind fun read =>
        some
          ((CString.ofBuffer key, .number (strtod (decimal value))) ::
            read.1, read.2) :=
  parseMembers_step rfl (parseString_of_plain plain _) rfl
    (parseValue_number value (.inl rfl) (skip_numeral value _)) rfl

/-- A member with a text, and others behind it. -/
theorem parseMembers_text {key text : List UInt8}
    (plain : ∀ byte ∈ key, Plain byte)
    (plainText : ∀ byte ∈ text, Plain byte) (rest : List UInt8) :
    parseMembers strtod (fuel + 2)
        (0x22 :: (key ++ 0x22 :: 0x3A :: 0x22 ::
          (text ++ 0x22 :: 0x2C :: rest))) =
      (parseMembers strtod (fuel + 1) rest).bind fun read =>
        some
          ((CString.ofBuffer key, .string (CString.ofBuffer text)) ::
            read.1, read.2) :=
  parseMembers_step rfl (parseString_of_plain plain _) rfl
    (parseValue_string rfl (parseString_of_plain plainText _)) rfl

/-- What was read of the members that start with a string. -/
theorem of_parseMembers_string {text rest colon value quoted : List UInt8}
    {name : CString}
    {members : List (CString × JsonTree)} {remaining : List UInt8}
    (read :
      parseMembers strtod (fuel + 2) text = some (members, remaining))
    (opened : skip text = 0x22 :: rest)
    (named : parseString rest = some (name, colon))
    (separated : skip colon = 0x3A :: value)
    (quote : skip value = 0x22 :: quoted) :
    ∃ string after later,
      parseString quoted = some (string, after) ∧
        members = (name, .string string) :: later ∧
        ∀ more,
          skip after = 0x2C :: more →
            parseMembers strtod (fuel + 1) more =
              some (later, remaining) := by
  rw [parseMembers, opened] at read
  change (parseString rest).bind _ = _ at read
  rw [named] at read
  change (match skip colon with | 0x3A :: rest => _ | _ => _) = _ at read
  rw [separated] at read
  rcases Option.bind_eq_some_iff.mp read with
    ⟨⟨item, after⟩, valued, read⟩
  rw [parseValue, quote] at valued
  rcases Option.bind_eq_some_iff.mp valued with
    ⟨⟨string, after'⟩, scanned, valued⟩
  cases valued
  dsimp only at read
  split at read
  · rename_i more continued
    rcases Option.bind_eq_some_iff.mp read with
      ⟨⟨later, remaining'⟩, readLater, read⟩
    cases read
    refine ⟨string, after, later, scanned, rfl, ?_⟩
    intro other same
    rw [continued] at same
    injection same with _ same
    rw [← same]
    exact readLater
  · rename_i ended
    cases read
    refine ⟨string, after, [], scanned, rfl, ?_⟩
    intro other same
    rw [ended] at same
    cases same
  · cases read

/-- A text that is parsed is valid, and one value with blanks behind it. -/
theorem of_parse {text : List UInt8} {tree : JsonTree}
    (parsed : parse strtod text = some tree) :
    Utf8.valid text = true ∧
      ∃ rest,
        parseValue strtod (text.length + 1) text = some (tree, rest) ∧
          skip rest = [] := by
  rw [parse] at parsed
  split at parsed
  · rename_i valid
    refine ⟨valid, ?_⟩
    split at parsed
    · rename_i read
      split at parsed
      · rename_i blank
        cases parsed
        exact ⟨_, read, blank⟩
      · cases parsed
    · cases parsed
  · cases parsed

/-! ## Printing -/

mutual

/-- What cJSON prints where nothing is escaped and numbers are natural. -/
def printTree : JsonTree → List UInt8
  | .null => ascii "null"
  | .bool value => if value then ascii "true" else ascii "false"
  | .number valuedouble =>
      decimal ((valuedouble.getD 0).num.toNat)
  | .string valuestring =>
      ascii "\"" ++ valuestring.characters ++ ascii "\""
  | .array items => ascii "[" ++ printItems items ++ ascii "]"
  | .object members =>
      ascii "\x7b" ++ printMembers members ++ ascii "\x7d"

/-- The items of an array. -/
def printItems : List JsonTree → List UInt8
  | [] => []
  | [item] => printTree item
  | item :: others => printTree item ++ ascii "," ++ printItems others

/-- The members of an object. -/
def printMembers : List (CString × JsonTree) → List UInt8
  | [] => []
  | [(name, item)] =>
      ascii "\"" ++ name.characters ++ ascii "\":" ++ printTree item
  | (name, item) :: others =>
      ascii "\"" ++ name.characters ++ ascii "\":" ++ printTree item ++
        ascii "," ++ printMembers others

end

end JsonGrammar

/-! ## Libraries that read the grammar -/

namespace JsonTree

mutual

/-- How deep arrays and objects are nested. -/
def depth : JsonTree → Nat
  | .array items => itemsDepth items + 1
  | .object members => membersDepth members + 1
  | _ => 0

/-- How deep the items of an array are nested. -/
def itemsDepth : List JsonTree → Nat
  | [] => 0
  | item :: rest => max item.depth (itemsDepth rest)

/-- How deep the members of an object are nested. -/
def membersDepth : List (CString × JsonTree) → Nat
  | [] => 0
  | (_, item) :: rest => max item.depth (membersDepth rest)

end

end JsonTree

/--
A library reads well-formed texts as the grammar does.  It may give up on a
text that is nested deeper than `CJSON_NESTING_LIMIT`; numbers that a
`double` holds exactly are read as they are.
-/
structure JsonLibrary.Understands (library : JsonLibrary)
    (strtod : List UInt8 → Option Rat) : Prop where
  numerals :
    ∀ value ≤ 2 ^ 53, strtod (JsonGrammar.decimal value) = some (value : Rat)
  parses :
    ∀ text tree,
      JsonGrammar.parse strtod text.characters = some tree →
        tree.depth ≤ 1000 →
          library.parse text = some tree
  agrees :
    ∀ text tree read,
      JsonGrammar.parse strtod text.characters = some tree →
        library.parse text = some read →
          read = tree

/--
A library that reads well-formed texts as the grammar does, and no others.
-/
structure JsonLibrary.Correct (library : JsonLibrary)
    (strtod : List UInt8 → Option Rat) : Prop where
  numerals :
    ∀ value ≤ 2 ^ 53, strtod (JsonGrammar.decimal value) = some (value : Rat)
  parses :
    ∀ text : CString,
      library.parse text = JsonGrammar.parse strtod text.characters

/-- The value of a numeral without sign, fraction and exponent. -/
def JsonGrammar.strtod (numeral : List UInt8) : Option Rat :=
  if numeral.all isDigit then some (decimalValue numeral : Rat) else none

/-- A library that follows the grammar, with the bundled one's lookups. -/
def JsonLibrary.byGrammar : JsonLibrary where
  parse text := JsonGrammar.parse JsonGrammar.strtod text.characters
  print _ := none
  ignoresCase := true

theorem JsonGrammar.strtod_decimal (value : Nat) :
    strtod (decimal value) = some (value : Rat) := by
  have digits : (decimal value).all isDigit :=
    List.all_eq_true.mpr (isDigit_decimal value)
  rw [strtod, if_pos digits, decimalValue_decimal]

theorem JsonLibrary.byGrammar_correct :
    byGrammar.Correct JsonGrammar.strtod where
  numerals value _ := JsonGrammar.strtod_decimal value
  parses _ := rfl

theorem JsonLibrary.byGrammar_understands :
    byGrammar.Understands JsonGrammar.strtod where
  numerals value _ := JsonGrammar.strtod_decimal value
  parses _ _ parsed _ := parsed
  agrees text tree read parsed same := by
    have equal : some tree = some read := parsed.symm.trans same
    exact (Option.some_inj.mp equal).symm

end NeoC
