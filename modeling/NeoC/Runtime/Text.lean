import NeoC.Runtime.Hex
import NeoC.Runtime.JsonGrammar

/-!
# String functions of the C runtime

`strchr` cuts a text at a character, and `strtoull` reads the number in front
of one.  The latter is lenient: it skips blanks, takes a sign, negates modulo
`2 ^ 64`, stops at the first character that is no digit and returns the
largest number if there are too many digits.  Only on a numeral that fits is
it the inverse of printing.  Texts of digits are printable, and their
characters stand for themselves in a string of JSON.
-/

namespace NeoC

open JsonGrammar

/-! ## Cutting at a character -/

/-- `strchr`: what stands before the character, and what follows it. -/
def strchr (character : UInt8) (text : List UInt8) :
    Option (List UInt8 × List UInt8) :=
  match text.dropWhile (· ≠ character) with
  | [] => none
  | _ :: after => some (text.takeWhile (· ≠ character), after)

variable {character : UInt8} {text before after : List UInt8}

theorem takeWhile_ne_append (absent : character ∉ before) :
    (before ++ character :: after).takeWhile (· ≠ character) = before := by
  rw [List.takeWhile_append_of_pos]
  · simp
  · intro byte member
    simp only [ne_eq, decide_eq_true_eq]
    rintro rfl
    exact absent member

theorem takeWhile_ne_eq_self_iff :
    text.takeWhile (· ≠ character) = text ↔ character ∉ text := by
  rw [List.takeWhile_eq_self_iff]
  constructor
  · intro different member
    have self := different character member
    simp at self
  · intro absent byte member
    simp only [ne_eq, decide_eq_true_eq]
    rintro rfl
    exact absent member

theorem not_mem_takeWhile_ne :
    character ∉ text.takeWhile (· ≠ character) := by
  intro member
  have different := List.mem_takeWhile_imp member
  simp at different

theorem strchr_append (absent : character ∉ before) :
    strchr character (before ++ character :: after) =
      some (before, after) := by
  have dropped :
      (before ++ character :: after).dropWhile (· ≠ character) =
        character :: after := by
    rw [List.dropWhile_append_of_pos]
    · simp
    · intro byte member
      simp only [ne_eq, decide_eq_true_eq]
      rintro rfl
      exact absent member
  rw [strchr, dropped, takeWhile_ne_append absent]

/-- A text is known by what stands before and behind its first character. -/
theorem append_cons_inj_of_absent {before' after' : List UInt8}
    (absent : character ∉ before) (absent' : character ∉ before')
    (same : before ++ character :: after = before' ++ character :: after') :
    before = before' ∧ after = after' := by
  have found := @strchr_append character before after absent
  rw [same, strchr_append absent', Option.some.injEq, Prod.mk.injEq] at found
  exact ⟨found.1.symm, found.2.symm⟩

theorem strchr_eq_none_iff :
    strchr character text = none ↔ character ∉ text := by
  rw [strchr]
  constructor
  · intro none member
    split at none
    · rename_i dropped
      have different := List.dropWhile_eq_nil_iff.mp dropped _ member
      simp at different
    · cases none
  · intro absent
    have dropped : text.dropWhile (· ≠ character) = [] := by
      apply List.dropWhile_eq_nil_iff.mpr
      intro byte member
      simp only [ne_eq, decide_eq_true_eq]
      rintro rfl
      exact absent member
    rw [dropped]

/-- A text that contains the character is cut at its first occurrence. -/
theorem strchr_eq_some (found : strchr character text = some (before, after)) :
    text = before ++ character :: after ∧ character ∉ before := by
  have member : character ∈ text := by
    by_contra absent
    rw [strchr_eq_none_iff.mpr absent] at found
    cases found
  rcases List.append_of_mem member with ⟨front, back, rfl⟩
  obtain ⟨front, back, same, absent⟩ :
      ∃ first last, front ++ character :: back =
        first ++ character :: last ∧ character ∉ first :=
    List.eq_append_cons_of_mem member
  rw [same, strchr_append absent] at found
  injection found with pair
  injection pair with left right
  exact ⟨by rw [same, left, right], left ▸ absent⟩

/-! ## Reading a number -/

/-- `isspace` in the locale of the language. -/
def isSpace (byte : UInt8) : Bool :=
  byte == 0x20 || (0x09 ≤ byte && byte ≤ 0x0D)

/-- The sign in front of a number, and the characters behind it. -/
def takeSign (text : List UInt8) : Bool × List UInt8 :=
  match text with
  | [] => (false, [])
  | byte :: rest =>
      if byte = 0x2D then (true, rest)
      else if byte = 0x2B then (false, rest)
      else (false, byte :: rest)

/-- `strtoull(text, NULL, 10)`. -/
def strtoull (text : List UInt8) : UInt64 :=
  let (negative, digits) := takeSign (text.dropWhile isSpace)
  let value := decimalValue (digits.takeWhile isDigit)
  if value > 0xFFFFFFFFFFFFFFFF then 0xFFFFFFFFFFFFFFFF
  else if negative then -UInt64.ofNat value
  else UInt64.ofNat value

/-- A sign is taken, and the number wraps around. -/
example : strtoull (ascii " -1") = 0xFFFFFFFFFFFFFFFF := by
  decide +kernel

/-- A number below a power of ten has no more digits than the power. -/
theorem length_decimal_le {value digits : Nat} (positive : 0 < digits)
    (small : value < 10 ^ digits) : (decimal value).length ≤ digits := by
  rcases Nat.eq_zero_or_pos value with rfl | some
  · exact positive
  · rw [decimal_pos some, List.length_map, List.length_reverse]
    exact (Nat.digits_length_le_iff (by decide) _).mpr small

theorem not_mem_decimal {byte : UInt8} (other : isDigit byte = false)
    (value : Nat) : byte ∉ decimal value := by
  intro member
  rw [isDigit_decimal value byte member] at other
  cases other

/-- Digits, and at least one. -/
def IsNumeral (text : List UInt8) : Prop :=
  text ≠ [] ∧ ∀ byte ∈ text, isDigit byte = true

instance (text : List UInt8) : Decidable (IsNumeral text) :=
  inferInstanceAs (Decidable (_ ∧ _))

theorem isNumeral_decimal (value : Nat) : IsNumeral (decimal value) :=
  ⟨decimal_ne_nil value, isDigit_decimal value⟩

/-- A digit is neither a blank nor a sign. -/
theorem solid_of_isDigit {byte : UInt8} (digit : isDigit byte = true) :
    isSpace byte = false ∧ byte ≠ 0x2D ∧ byte ≠ 0x2B := by
  rw [isDigit, decide_eq_true_iff, UInt8.le_iff_toNat_le,
    UInt8.le_iff_toNat_le] at digit
  have low : 0x30 ≤ byte.toNat := digit.1
  refine ⟨?_, ?_, ?_⟩
  · by_contra space
    rw [Bool.not_eq_false, isSpace, Bool.or_eq_true, beq_iff_eq,
      Bool.and_eq_true, decide_eq_true_iff, decide_eq_true_iff,
      UInt8.le_iff_toNat_le (b := 0x0D)] at space
    rcases space with rfl | ⟨-, high⟩
    · exact absurd low (by decide)
    · have bounded : byte.toNat ≤ 0x0D := high
      omega
  · rintro rfl
    exact absurd low (by decide)
  · rintro rfl
    exact absurd low (by decide)

/-- A numeral has no blanks and no sign in front. -/
theorem takeSign_of_isNumeral {numeral : List UInt8}
    (digits : IsNumeral numeral) :
    takeSign (numeral.dropWhile isSpace) = (false, numeral) := by
  rcases digits with ⟨nonempty, digits⟩
  cases numeral with
  | nil => exact absurd rfl nonempty
  | cons first rest =>
      rcases solid_of_isDigit (digits first List.mem_cons_self) with
        ⟨solid, minus, plus⟩
      rw [List.dropWhile_cons_of_neg (by rw [solid]; decide), takeSign,
        if_neg minus, if_neg plus]

/-- A numeral that fits is read as its value. -/
theorem strtoull_of_lt {numeral : List UInt8} (digits : IsNumeral numeral)
    (fits : decimalValue numeral < 2 ^ 64) :
    strtoull numeral = UInt64.ofNat (decimalValue numeral) := by
  have whole : numeral.takeWhile isDigit = numeral :=
    List.takeWhile_eq_self_iff.mpr digits.2
  rw [strtoull, takeSign_of_isNumeral digits]
  dsimp only
  rw [whole, if_neg (by omega)]
  rfl

/-- `strtoul(text, &end, 10)`: `unsigned long` has 64 bits. -/
def strtoul (text : List UInt8) : UInt64 × List UInt8 :=
  let digits := (takeSign (text.dropWhile isSpace)).2
  let rest :=
    if digits.takeWhile isDigit = [] then text
    else digits.dropWhile isDigit
  (strtoull text, rest)

/-- A numeral that fits is read to its end. -/
theorem strtoul_of_lt {numeral : List UInt8} (digits : IsNumeral numeral)
    (fits : decimalValue numeral < 2 ^ 64) :
    strtoul numeral = (UInt64.ofNat (decimalValue numeral), []) := by
  have whole : numeral.takeWhile isDigit = numeral :=
    List.takeWhile_eq_self_iff.mpr digits.2
  have none : numeral.dropWhile isDigit = [] :=
    List.dropWhile_eq_nil_iff.mpr digits.2
  rw [strtoul, takeSign_of_isNumeral digits, strtoull_of_lt digits fits]
  dsimp only
  rw [whole, none, if_neg digits.1]

theorem strtoull_decimal (value : UInt64) :
    strtoull (decimal value.toNat) = value := by
  have same := decimalValue_decimal value.toNat
  rw [strtoull_of_lt (isNumeral_decimal _), same, UInt64.ofNat_toNat]
  rw [same]
  exact value.toNat_lt

/-! ## Printable texts -/

/-- An ASCII character. -/
def Printable (byte : UInt8) : Prop :=
  0 < byte ∧ byte < 0x80

instance (byte : UInt8) : Decidable (Printable byte) :=
  inferInstanceAs (Decidable (_ ∧ _))

theorem printable_of_isDigit {byte : UInt8} (digit : isDigit byte = true) :
    Printable byte := by
  rw [isDigit, decide_eq_true_iff] at digit
  exact
    ⟨UInt8.lt_of_lt_of_le (by decide) digit.1,
      UInt8.lt_of_le_of_lt digit.2 (by decide)⟩

/-- The characters of a printed text. -/
theorem characters_of_printable {text : List UInt8}
    (printable : ∀ byte ∈ text, Printable byte) :
    (CString.ofBuffer text).characters = text :=
  CString.characters_ofBuffer fun member =>
    absurd (printable 0 member).1 (by decide)

/-- A digit stands for itself in a string. -/
theorem plain_of_isValidChar {byte : UInt8}
    (valid : Hex.isValidChar byte = true) :
    Plain byte ∧ Printable byte := by
  have range :
      0x30 ≤ byte.toNat ∧ byte.toNat ≤ 0x66 ∧ byte.toNat ≠ 0x5C := by
    simp only [Hex.isValidChar, Bool.or_eq_true, decide_eq_true_iff,
      UInt8.le_iff_toNat_le] at valid
    simp at valid
    omega
  rcases range with ⟨low, high, different⟩
  have control : 0x20 ≤ byte := UInt8.le_iff_toNat_le.mpr (by simp; omega)
  have small : byte < 0x80 := UInt8.lt_iff_toNat_lt.mpr (by simp; omega)
  refine ⟨⟨?_, ?_, control⟩, UInt8.lt_of_lt_of_le (by decide) control, small⟩
  · rintro rfl
    exact absurd low (by decide)
  · rintro rfl
    exact different rfl

theorem plain_decimal (value : Nat) :
    ∀ byte ∈ decimal value, Plain byte := by
  intro byte member
  apply (plain_of_isValidChar ?_).1
  have digit := isDigit_decimal value byte member
  rw [isDigit] at digit
  rw [Hex.isValidChar, digit]
  rfl

/-- Digits stand for themselves. -/
theorem digits_plain {data : List UInt8} :
    ∀ byte ∈ data.flatMap (Hex.digits false),
      Plain byte ∧ Printable byte :=
  fun _ member => plain_of_isValidChar (Hex.isValidChar_of_mem member)

end NeoC
