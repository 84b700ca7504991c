import Mathlib.Data.Nat.Bitwise

/-!
# Bytes as strings of bits

The bits of a byte string are those of its bytes, the most significant one
first.  Programs that pack numbers of other widths address them by position:
the byte at `position / 8`, shifted by `7 - position % 8`.  Reading a place
this way reads the string of bits, setting a place sets it, and reading a
number place by place gives the number whose digits stand there.
-/

namespace NeoC.Foundation.BitString

/-! ## Numbers and their digits -/

/-- The low digits of a number, the most significant one first. -/
def digits : (width number : Nat) → List Bool
  | 0, _ => []
  | width + 1, number => number.testBit width :: digits width number

/-- The number that digits stand for, behind those of another one. -/
def number : (front : Nat) → List Bool → Nat
  | front, [] => front
  | front, digit :: rest => number (front * 2 + digit.toNat) rest

@[simp]
theorem length_digits (width value : Nat) :
    (digits width value).length = width := by
  induction width with
  | zero => rfl
  | succ width induction => rw [digits, List.length_cons, induction]

theorem number_eq (front : Nat) (bits : List Bool) :
    number front bits = front * 2 ^ bits.length + number 0 bits := by
  induction bits generalizing front with
  | nil =>
      rw [number, number, List.length_nil, Nat.pow_zero, Nat.mul_one,
        Nat.add_zero]
  | cons bit rest induction =>
      rw [number, number, induction, induction (0 * 2 + bit.toNat),
        List.length_cons, Nat.pow_succ', Nat.zero_mul, Nat.zero_add,
        Nat.add_mul, Nat.mul_assoc, Nat.add_assoc]

theorem number_lt (bits : List Bool) : number 0 bits < 2 ^ bits.length := by
  induction bits with
  | nil => exact Nat.one_pos
  | cons bit rest induction =>
      rw [number, number_eq, List.length_cons, Nat.pow_succ']
      have one := bit.toNat_lt
      rcases Nat.lt_succ_iff_lt_or_eq.mp one with zero | same
      · rw [Nat.lt_one_iff.mp zero]
        omega
      · rw [same]
        omega

/-- The digits of what digits stand for. -/
theorem digits_number (bits : List Bool) (front : Nat) :
    digits bits.length (number front bits) = bits := by
  induction bits generalizing front with
  | nil => rfl
  | cons bit rest induction =>
      rw [List.length_cons, digits, number, induction]
      congr 1
      rw [number_eq, Nat.mul_comm, Nat.testBit_two_pow_mul_add _ (number_lt rest)]
      simp only [Nat.lt_irrefl, if_false, Nat.sub_self]
      rw [Nat.testBit_zero]
      cases bit <;> simp [Nat.add_mod]

/-- A number is what its digits stand for. -/
theorem number_digits {width value : Nat} (small : value < 2 ^ width) :
    number 0 (digits width value) = value := by
  apply Nat.eq_of_testBit_eq
  intro place
  have length := length_digits width value
  by_cases inside : place < width
  · have same := digits_number (digits width value) 0
    rw [length] at same
    -- equal digits at every place below the width
    have places (width : Nat) (inside : place < width) (first second : Nat)
        (equal : digits width first = digits width second) :
        first.testBit place = second.testBit place := by
      induction width with
      | zero => exact absurd inside (Nat.not_lt_zero place)
      | succ width induction =>
          rw [digits, digits, List.cons.injEq] at equal
          rcases Nat.lt_succ_iff_lt_or_eq.mp inside with below | rfl
          · exact induction below equal.2
          · exact equal.1
    exact places width inside _ _ same
  · have bound := number_lt (digits width value)
    rw [length] at bound
    have wide : 2 ^ width ≤ 2 ^ place :=
      Nat.pow_le_pow_right Nat.two_pos (Nat.not_lt.mp inside)
    rw [Nat.testBit_lt_two_pow (bound.trans_le wide),
      Nat.testBit_lt_two_pow (small.trans_le wide)]

/-! ## Bytes and their bits -/

/-- The bits of a byte. -/
def byteBits (byte : UInt8) : List Bool :=
  digits 8 byte.toNat

/-- The bits of some bytes. -/
def bits (bytes : List UInt8) : List Bool :=
  bytes.flatMap byteBits

/-- `(bytes[position / 8] >> (7 - position % 8)) & 1`. -/
def bitAt (bytes : List UInt8) (position : Nat) : Option Bool :=
  bytes[position / 8]?.map fun byte =>
    byte.toNat.testBit (7 - position % 8)

/-- `bytes[position / 8] |= 1 << (7 - position % 8)`. -/
def setBit (bytes : List UInt8) (position : Nat) : Option (List UInt8) :=
  bytes[position / 8]?.map fun byte =>
    bytes.set (position / 8)
      (byte ||| UInt8.ofNat (1 <<< (7 - position % 8)))

theorem length_bits (bytes : List UInt8) :
    (bits bytes).length = 8 * bytes.length := by
  induction bytes with
  | nil => rfl
  | cons byte rest induction =>
      rw [bits, List.flatMap_cons, List.length_append, ← bits, induction,
        byteBits, length_digits, List.length_cons]
      omega

theorem bits_append (first second : List UInt8) :
    bits (first ++ second) = bits first ++ bits second :=
  List.flatMap_append

theorem bits_zeros (count : Nat) :
    bits (List.replicate count 0) = List.replicate (8 * count) false := by
  induction count with
  | zero => rfl
  | succ count induction =>
      rw [List.replicate_succ, bits, List.flatMap_cons, ← bits, induction,
        Nat.mul_succ, Nat.add_comm, ← List.replicate_append_replicate]
      rfl

theorem byteBits_injective {first second : UInt8}
    (same : byteBits first = byteBits second) : first = second := by
  have equal := congrArg (number 0) same
  rw [byteBits, byteBits, number_digits first.toNat_lt,
    number_digits second.toNat_lt] at equal
  exact UInt8.toNat_inj.mp equal

/-- Bytes are determined by their bits. -/
theorem bits_injective {first second : List UInt8}
    (same : bits first = bits second) : first = second := by
  induction first generalizing second with
  | nil =>
      have length := congrArg List.length same
      rw [length_bits, length_bits, List.length_nil, Nat.mul_zero] at length
      exact (List.length_eq_zero_iff.mp (by omega)).symm
  | cons byte rest induction =>
      cases second with
      | nil =>
          have length := congrArg List.length same
          rw [length_bits, length_bits, List.length_nil,
            List.length_cons] at length
          omega
      | cons other others =>
          rw [bits, bits, List.flatMap_cons, List.flatMap_cons] at same
          have parts :=
            List.append_inj same (by simp only [byteBits, length_digits])
          rw [byteBits_injective parts.1, induction parts.2]

theorem bits_take (bytes : List UInt8) (count : Nat) :
    bits (bytes.take count) = (bits bytes).take (8 * count) := by
  induction bytes generalizing count with
  | nil => rw [List.take_nil, bits, List.flatMap_nil, List.take_nil]
  | cons byte rest induction =>
      cases count with
      | zero => rfl
      | succ count =>
          have length : (byteBits byte).length = 8 := length_digits 8 _
          have eight : 8 * (count + 1) = (byteBits byte).length + 8 * count := by
            omega
          rw [List.take_succ_cons, bits, bits, List.flatMap_cons,
            List.flatMap_cons, eight, List.take_length_add_append, ← bits,
            induction]
          rfl

/-! ## Places -/

theorem getElem?_digits {width place : Nat} (value : Nat)
    (inside : place < width) :
    (digits width value)[place]? = some (value.testBit (width - 1 - place)) := by
  induction width generalizing place with
  | zero => exact absurd inside (Nat.not_lt_zero place)
  | succ width induction =>
      cases place with
      | zero => rw [digits, List.getElem?_cons_zero]; rfl
      | succ place =>
          rw [digits, List.getElem?_cons_succ,
            induction (Nat.lt_of_succ_lt_succ inside)]
          congr 2
          omega

/-- Reading a place of the bytes reads the string of bits. -/
theorem bitAt_eq (bytes : List UInt8) (position : Nat) :
    bitAt bytes position = (bits bytes)[position]? := by
  induction bytes generalizing position with
  | nil => rfl
  | cons byte rest induction =>
      have length : (byteBits byte).length = 8 := length_digits 8 _
      rw [bits, List.flatMap_cons, ← bits]
      by_cases first : position < 8
      · rw [List.getElem?_append_left (by omega), byteBits,
          getElem?_digits _ first, bitAt, Nat.div_eq_of_lt first,
          Nat.mod_eq_of_lt first]
        rfl
      · have behind : position / 8 = (position - 8) / 8 + 1 := by
          omega
        have same : position % 8 = (position - 8) % 8 := by
          omega
        rw [List.getElem?_append_right (by omega), length, ← induction,
          bitAt, bitAt, behind, same]
        rfl

/-- A bit of a byte is set. -/
theorem byteBits_or (byte : UInt8) {place : Nat} (inside : place < 8) :
    byteBits (byte ||| UInt8.ofNat (1 <<< (7 - place))) =
      (byteBits byte).set place true := by
  apply List.ext_getElem?
  intro other
  have length : (byteBits byte).length = 8 := length_digits 8 _
  by_cases within : other < 8
  · have value :
        (byte ||| UInt8.ofNat (1 <<< (7 - place))).toNat =
          byte.toNat ||| 2 ^ (7 - place) := by
      have small : 2 ^ (7 - place) < 2 ^ 8 :=
        Nat.pow_lt_pow_right (by decide) (by omega)
      rw [UInt8.toNat_or, Nat.shiftLeft_eq, Nat.one_mul, UInt8.toNat_ofNat',
        Nat.mod_eq_of_lt small]
    rw [byteBits, getElem?_digits _ within, value, Nat.testBit_or,
      Nat.testBit_two_pow, List.getElem?_set, byteBits,
      getElem?_digits _ within]
    by_cases here : place = other
    · rw [if_pos here, if_pos (by rw [length_digits]; omega), here,
        decide_eq_true (by omega), Bool.or_true]
    · rw [if_neg here, decide_eq_false (by omega), Bool.or_false]
  · rw [List.getElem?_eq_none, List.getElem?_eq_none]
    · rw [List.length_set]
      omega
    · rw [byteBits, length_digits]
      omega

/-- Setting a place of the bytes sets it in the string of bits. -/
theorem exists_setBit {bytes : List UInt8} {position : Nat}
    (inside : position < 8 * bytes.length) :
    ∃ after,
      setBit bytes position = some after ∧ after.length = bytes.length ∧
        bits after = (bits bytes).set position true := by
  induction bytes generalizing position with
  | nil =>
      rw [List.length_nil] at inside
      omega
  | cons byte rest induction =>
      have length : (byteBits byte).length = 8 := length_digits 8 _
      by_cases first : position < 8
      · refine
          ⟨(byte ||| UInt8.ofNat (1 <<< (7 - position))) :: rest, ?_, rfl,
            ?_⟩
        · rw [setBit, Nat.div_eq_of_lt first, Nat.mod_eq_of_lt first]
          rfl
        · rw [bits, List.flatMap_cons, byteBits_or byte first, bits,
            List.flatMap_cons, List.set_append_left _ _ (by omega)]
      · have behind : position / 8 = (position - 8) / 8 + 1 := by
          omega
        have same : position % 8 = (position - 8) % 8 := by
          omega
        rw [List.length_cons] at inside
        rcases induction (show position - 8 < 8 * rest.length by omega) with
          ⟨after, set, size, value⟩
        refine ⟨byte :: after, ?_, ?_, ?_⟩
        · rw [setBit] at set ⊢
          rcases Option.map_eq_some_iff.mp set with ⟨here, found, rfl⟩
          rw [behind, same, List.getElem?_cons_succ, found]
          rfl
        · rw [List.length_cons, size, List.length_cons]
        · have parted (bytes : List UInt8) :
              bits (byte :: bytes) = byteBits byte ++ bits bytes :=
            List.flatMap_cons
          rw [parted, value, parted, List.set_append_right _ _ (by omega),
            length]

/-! ## Strings of bits in bytes -/

/-- Bits are added one by one: those that are `1` are set. -/
def writeBits : List Bool → (position : Nat) → List UInt8 →
    Option (List UInt8)
  | [], _, bytes => some bytes
  | bit :: rest, position, bytes =>
      (if bit then setBit bytes position else some bytes).bind
        (writeBits rest (position + 1))

/-- `number = (number << 1) | bit` for some places, one behind the other. -/
def readNumber (bytes : List UInt8) :
    (turns position number : Nat) → Option Nat
  | 0, _, number => some number
  | turns + 1, position, number =>
      (bitAt bytes position).bind fun bit =>
        readNumber bytes turns (position + 1) (number * 2 + bit.toNat)

variable {bytes : List UInt8} {front inner back : List Bool}

/-- Bits that are written over zeros stand in their place. -/
theorem exists_writeBits (inner : List Bool)
    (shape :
      bits bytes = front ++ (List.replicate inner.length false ++ back)) :
    ∃ after,
      writeBits inner front.length bytes = some after ∧
        after.length = bytes.length ∧
        bits after = front ++ (inner ++ back) := by
  induction inner generalizing front bytes with
  | nil => exact ⟨bytes, rfl, rfl, shape⟩
  | cons bit rest induction =>
      have inside : front.length < 8 * bytes.length := by
        rw [← length_bits, shape]
        simp only [List.length_append, List.length_replicate,
          List.length_cons]
        omega
      have turn :
          ∃ middle,
            (if bit then setBit bytes front.length else some bytes) =
                some middle ∧
              middle.length = bytes.length ∧
              bits middle =
                (front ++ [bit]) ++
                  (List.replicate rest.length false ++ back) := by
        rw [List.length_cons, List.replicate_succ, List.cons_append]
          at shape
        cases bit with
        | false =>
            refine ⟨bytes, rfl, rfl, ?_⟩
            rw [shape, List.append_assoc]
            rfl
        | true =>
            rcases exists_setBit inside with ⟨middle, set, length, value⟩
            refine ⟨middle, set, length, ?_⟩
            rw [value, shape, List.set_append_right _ _ le_rfl,
              Nat.sub_self, List.set_cons_zero, List.append_assoc]
            rfl
      rcases turn with ⟨middle, set, length, value⟩
      rcases induction value with ⟨after, written, same, all⟩
      refine ⟨after, ?_, same.trans length, ?_⟩
      · rw [writeBits, set, Option.bind_some]
        rw [List.length_append, List.length_singleton] at written
        exact written
      · rw [all, List.append_assoc]
        rfl

/-- The number whose digits stand at a position. -/
theorem readNumber_eq (inner : List Bool) (value : Nat)
    (shape : bits bytes = front ++ (inner ++ back)) :
    readNumber bytes inner.length front.length value =
      some (number value inner) := by
  induction inner generalizing front value with
  | nil => rfl
  | cons bit rest induction =>
      have here : bitAt bytes front.length = some bit := by
        rw [bitAt_eq, shape, List.getElem?_append_right le_rfl, Nat.sub_self]
        rfl
      have later :=
        @induction (front ++ [bit]) (value * 2 + bit.toNat)
          (by rw [shape, List.append_assoc]; rfl)
      rw [List.length_append, List.length_singleton] at later
      rw [List.length_cons, readNumber, here, Option.bind_some, later]
      rfl

/-! ## Numbers of a width, one behind the other -/

/-- A string of bits is cut into numbers of a width. -/
theorem exists_numbers {width : Nat} (count : Nat) (string : List Bool)
    (length : string.length = count * width) :
    ∃ numbers : List Nat,
      numbers.length = count ∧ (∀ value ∈ numbers, value < 2 ^ width) ∧
        numbers.flatMap (digits width) = string := by
  induction count generalizing string with
  | zero =>
      rw [Nat.zero_mul] at length
      exact
        ⟨[], rfl, fun _ member => (List.not_mem_nil member).elim,
          (List.length_eq_zero_iff.mp length).symm⟩
  | succ count induction =>
      rw [Nat.succ_mul] at length
      have first : (string.take width).length = width := by
        rw [List.length_take]
        omega
      rcases
          induction (string.drop width) (by rw [List.length_drop]; omega) with
        ⟨numbers, size, small, same⟩
      have bound := number_lt (string.take width)
      have back := digits_number (string.take width) 0
      rw [first] at bound back
      refine ⟨number 0 (string.take width) :: numbers, ?_, ?_, ?_⟩
      · rw [List.length_cons, size]
      · exact List.forall_mem_cons.mpr ⟨bound, small⟩
      · rw [List.flatMap_cons, back, same, List.take_append_drop]

theorem length_flatMap_digits (width : Nat) (numbers : List Nat) :
    (numbers.flatMap (digits width)).length = numbers.length * width := by
  induction numbers with
  | nil => rw [List.flatMap_nil, List.length_nil, List.length_nil, Nat.zero_mul]
  | cons value rest induction =>
      rw [List.flatMap_cons, List.length_append, length_digits, induction,
        List.length_cons, Nat.succ_mul, Nat.add_comm]

/-- Numbers of a width are determined by their digits. -/
theorem flatMap_digits_inj {width : Nat} {first second : List Nat}
    (length : first.length = second.length)
    (small : ∀ value ∈ first, value < 2 ^ width)
    (others : ∀ value ∈ second, value < 2 ^ width)
    (same : first.flatMap (digits width) = second.flatMap (digits width)) :
    first = second := by
  induction first generalizing second with
  | nil => exact (List.length_eq_zero_iff.mp length.symm).symm
  | cons value rest induction =>
      cases second with
      | nil => cases length
      | cons other second =>
          rcases List.forall_mem_cons.mp small with ⟨here, small⟩
          rcases List.forall_mem_cons.mp others with ⟨there, others⟩
          rw [List.flatMap_cons, List.flatMap_cons] at same
          have parts :=
            List.append_inj same (by rw [length_digits, length_digits])
          have equal := congrArg (number 0) parts.1
          rw [number_digits here, number_digits there] at equal
          rw [equal, induction (Nat.succ.inj length) small others parts.2]

theorem number_append (front : Nat) (first second : List Bool) :
    number front (first ++ second) = number (number front first) second := by
  induction first generalizing front with
  | nil => rfl
  | cons bit rest induction => exact induction _

/-- The leading bits of a byte. -/
theorem number_take_byteBits (byte : UInt8) (count : Nat) :
    number 0 ((byteBits byte).take count) = byte.toNat >>> (8 - count) := by
  have length : (byteBits byte).length = 8 := length_digits 8 _
  have whole : number 0 (byteBits byte) = byte.toNat :=
    number_digits byte.toNat_lt
  have rest := number_lt ((byteBits byte).drop count)
  rw [← List.take_append_drop count (byteBits byte), number_append,
    number_eq (number 0 _)] at whole
  rw [List.length_drop, length] at whole rest
  rw [Nat.shiftRight_eq_div_pow, ← whole]
  generalize number 0 ((byteBits byte).take count) = leading
  symm
  apply Nat.div_eq_of_lt_le
  · exact Nat.le_add_right _ _
  · rw [Nat.succ_mul]
    exact Nat.add_lt_add_left rest _

/-- Strings of one length that stand for the same number are the same. -/
theorem number_inj {first second : List Bool}
    (length : first.length = second.length)
    (same : number 0 first = number 0 second) : first = second := by
  rw [← digits_number first 0, ← digits_number second 0, same, length]

theorem writeBits_append (first second : List Bool) (position : Nat)
    (bytes : List UInt8) :
    writeBits (first ++ second) position bytes =
      (writeBits first position bytes).bind
        (writeBits second (position + first.length)) := by
  induction first generalizing position bytes with
  | nil => rfl
  | cons bit rest induction =>
      have shape :
          writeBits (bit :: (rest ++ second)) position bytes =
            (if bit then setBit bytes position else some bytes).bind
              (writeBits (rest ++ second) (position + 1)) :=
        rfl
      rw [List.cons_append, shape, writeBits, Option.bind_assoc]
      congr 1
      funext after
      rw [induction, List.length_cons, Nat.add_assoc, Nat.add_comm 1]

end NeoC.Foundation.BitString
