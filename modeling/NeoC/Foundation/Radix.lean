import Mathlib.Data.Nat.Digits.Lemmas

/-!
# Changing the base of a numeral

A numeral is read digit by digit from its most significant end.  The number
read so far is kept in the other base, least significant digit first;
`mulAdd` multiplies it and adds the next digit.  What is kept are the digits
of the number at every moment, so a conversion and the one back cancel out on
numerals that do not start with zero.
-/

namespace NeoC.Foundation.Radix

/-- The digits of a carry that is left over; the fuel bounds their number. -/
def spill (base : Nat) : (fuel carry : Nat) → List Nat
  | 0, _ => []
  | fuel + 1, carry =>
      if carry = 0 then []
      else carry % base :: spill base fuel (carry / base)

/-- Multiply a number by a factor and add a carry. -/
def mulAdd (base factor : Nat) : List Nat → (carry : Nat) → List Nat
  | [], carry => spill base carry carry
  | digit :: rest, carry =>
      (carry + factor * digit) % base ::
        mulAdd base factor rest ((carry + factor * digit) / base)

/-- Read a numeral of base `source` into digits of base `target`. -/
def convert (target source : Nat) (numeral : List Nat) : List Nat :=
  numeral.foldl (mulAdd target source) []

variable {base factor target source : Nat}

/-- As much fuel as the carry is enough. -/
theorem spill_eq (large : 1 < base) {fuel carry : Nat}
    (enough : carry ≤ fuel) :
    spill base fuel carry = Nat.digits base carry := by
  induction fuel generalizing carry with
  | zero =>
      rw [Nat.le_zero.mp enough, Nat.digits_zero]
      rfl
  | succ fuel induction =>
      rw [spill]
      split
      · rename_i none
        rw [none, Nat.digits_zero]
      · rename_i some
        have positive : 0 < carry := Nat.pos_of_ne_zero some
        have smaller := Nat.div_lt_self positive large
        rw [Nat.digits_def' large positive, induction (by omega)]

/-- On the digits of a number, `mulAdd` gives the digits of the result. -/
theorem mulAdd_digits (large : 1 < base) (positive : 0 < factor)
    (number carry : Nat) :
    mulAdd base factor (Nat.digits base number) carry =
      Nat.digits base (factor * number + carry) := by
  induction number using Nat.strongRecOn generalizing carry with
  | ind number induction =>
      rcases Nat.eq_zero_or_pos number with rfl | some
      · rw [Nat.digits_zero, mulAdd, spill_eq large le_rfl, Nat.mul_zero,
          Nat.zero_add]
      · have split :
            factor * number + carry =
              base * (factor * (number / base)) +
                (carry + factor * (number % base)) := by
          calc
            factor * number + carry =
                factor * (base * (number / base) + number % base) + carry := by
              rw [Nat.div_add_mod]
            _ = _ := by ring
        have result : 0 < factor * number + carry :=
          Nat.add_pos_left (Nat.mul_pos positive some) carry
        rw [Nat.digits_def' large some, mulAdd,
          induction _ (Nat.div_lt_self some large),
          Nat.digits_def' large result, split, Nat.mul_add_mod,
          Nat.mul_add_div (by omega)]

theorem foldl_mulAdd (large : 1 < target) (positive : 0 < source)
    (numeral : List Nat) (number : Nat) :
    numeral.foldl (mulAdd target source) (Nat.digits target number) =
      Nat.digits target
        (source ^ numeral.length * number +
          Nat.ofDigits source numeral.reverse) := by
  induction numeral generalizing number with
  | nil => simp
  | cons digit rest induction =>
      rw [List.foldl_cons, mulAdd_digits large positive, induction,
        Nat.ofDigits_reverse_cons, List.length_cons, pow_succ]
      congr 1
      ring

/-- A conversion computes the digits of the number it reads. -/
theorem convert_eq (large : 1 < target) (positive : 0 < source)
    (numeral : List Nat) :
    convert target source numeral =
      Nat.digits target (Nat.ofDigits source numeral.reverse) := by
  have folded := foldl_mulAdd large positive numeral 0
  rwa [Nat.digits_zero, Nat.mul_zero, Nat.zero_add] at folded

/-- The digits that a conversion computes are digits of the target. -/
theorem convert_lt (large : 1 < target) (positive : 0 < source)
    {numeral : List Nat} {digit : Nat}
    (member : digit ∈ convert target source numeral) :
    digit < target := by
  rw [convert_eq large positive] at member
  exact Nat.digits_lt_base large member

/-- Digits that do not end with zero are the digits of their number. -/
theorem digits_ofDigits_reverse (large : 1 < source) {numeral : List Nat}
    (digits : ∀ digit ∈ numeral, digit < source)
    (leading : ∀ digit ∈ numeral.head?, digit ≠ 0) :
    Nat.digits source (Nat.ofDigits source numeral.reverse) =
      numeral.reverse := by
  apply Nat.digits_ofDigits source large
  · intro digit member
    exact digits digit (List.mem_reverse.mp member)
  · intro some
    rw [List.getLast_reverse]
    exact leading _ (List.head?_eq_some_head _)

/-- Converting back gives the numeral that was converted. -/
theorem convert_convert (large : 1 < target) (large' : 1 < source)
    {numeral : List Nat}
    (digits : ∀ digit ∈ numeral, digit < source)
    (leading : ∀ digit ∈ numeral.head?, digit ≠ 0) :
    convert source target (convert target source numeral).reverse =
      numeral.reverse := by
  rw [convert_eq large' (by omega), List.reverse_reverse,
    convert_eq large (by omega), Nat.ofDigits_digits,
    digits_ofDigits_reverse large' digits leading]

/-- A numeral that does not start with zero is converted to one. -/
theorem convert_leading (large : 1 < target) (positive : 0 < source)
    {numeral : List Nat} {digit : Nat}
    (first : (convert target source numeral).reverse.head? = some digit) :
    digit ≠ 0 := by
  rw [convert_eq large positive, List.head?_reverse] at first
  have some :
      Nat.digits target (Nat.ofDigits source numeral.reverse) ≠ [] := by
    intro none
    rw [none] at first
    cases first
  have different :=
    Nat.getLast_digit_ne_zero target
      (Nat.digits_ne_nil_iff_ne_zero.mp some)
  rw [List.getLast?_eq_some_getLast some] at first
  injection first with equal
  rwa [← equal]

/-- How many digits a conversion makes, where powers can be compared. -/
theorem length_convert_le (large : 1 < target) (large' : 1 < source)
    {numeral : List Nat} (digits : ∀ digit ∈ numeral, digit < source)
    {count : Nat} (room : source ^ numeral.length ≤ target ^ count) :
    (convert target source numeral).length ≤ count := by
  rw [convert_eq large (by omega), Nat.digits_length_le_iff large]
  have bounded :=
    Nat.ofDigits_lt_base_pow_length (l := numeral.reverse) large'
      fun digit member => digits digit (List.mem_reverse.mp member)
  rw [List.length_reverse] at bounded
  exact bounded.trans_le room

/-- A numeral that does not start with zero is not shorter than its number. -/
theorem pow_lt_of_convert (large : 1 < target) (positive : 0 < source)
    {numeral : List Nat} {digit : Nat} {rest : List Nat}
    (shape : numeral = digit :: rest)
    (leading : digit ≠ 0) :
    source ^ rest.length < target ^ (convert target source numeral).length := by
  have bounded :=
    Nat.lt_base_pow_length_digits (b := target)
      (m := Nat.ofDigits source numeral.reverse) large
  rw [convert_eq large positive]
  refine lt_of_le_of_lt ?_ bounded
  rw [shape, Nat.ofDigits_reverse_cons]
  have least : source ^ rest.length * 1 ≤ source ^ rest.length * digit :=
    Nat.mul_le_mul_left _ (Nat.pos_of_ne_zero leading)
  omega

/-- A number between two powers of the target is converted to its digits. -/
theorem length_convert_eq (large : 1 < target) (positive : 0 < source)
    {numeral : List Nat} {count : Nat}
    (lower : target ^ count ≤ Nat.ofDigits source numeral.reverse)
    (upper : Nat.ofDigits source numeral.reverse < target ^ (count + 1)) :
    (convert target source numeral).length = count + 1 := by
  rw [convert_eq large positive]
  apply Nat.le_antisymm
  · exact (Nat.digits_length_le_iff large _).mpr upper
  · exact (Nat.lt_digits_length_iff large _).mpr lower

/--
Where `source ^ width` is at most `target ^ factor`, numerals grow by at most
`factor / width`.
-/
theorem pow_le_pow_of_ratio {width factor : Nat} (large : 1 < target)
    (width_pos : 0 < width)
    (ratio : source ^ width ≤ target ^ factor)
    {length count : Nat} (room : length * factor ≤ width * count) :
    source ^ length ≤ target ^ count := by
  have powers : (source ^ length) ^ width ≤ (target ^ count) ^ width := by
    calc
      (source ^ length) ^ width = (source ^ width) ^ length := by
        rw [← pow_mul, ← pow_mul, Nat.mul_comm]
      _ ≤ (target ^ factor) ^ length := Nat.pow_le_pow_left ratio length
      _ = target ^ (length * factor) := by
        rw [← pow_mul, Nat.mul_comm]
      _ ≤ target ^ (width * count) :=
        Nat.pow_le_pow_right (by omega) room
      _ = (target ^ count) ^ width := by
        rw [← pow_mul, Nat.mul_comm]
  exact (Nat.pow_le_pow_iff_left (Nat.ne_of_gt width_pos)).mp powers

end NeoC.Foundation.Radix
