import NeoC.Runtime.Cells
import NeoC.Runtime.Hex

/-!
# Two readers of a hash

`neoc_hash160_from_hex` decodes from an array on the stack into which it has
copied the digits, behind a zero where their number is odd.
`neoc_hash160_from_string` strips the mark by itself, asks for forty
characters and hands over what is left, from which a mark is stripped again.
With the array, the first reader computes what it computes on lists, and the
second one accepts the texts of the first that have forty digits.
-/

namespace NeoC

open Foundation

namespace Hash160

namespace InArray

/-! ## The functions -/

/-- `NEOC_HASH160_HEX_CHARS + 1`. -/
def normalizedSize : Nat := 41

/-- The array that is decoded, with the digits and their NUL copied into it. -/
def normalize (digits : List UInt8) : Outcome (Cells UInt8) :=
  let text := Cells.written (digits ++ [0])
  if digits.length % 2 ≠ 0 then do
    let normalized ←
      (Cells.fresh normalizedSize).store 0 (Cells.written [0x30])
    normalized.store 1 text
  else
    (Cells.fresh normalizedSize).store 0 text

/-- `decode_exact_hex` for the twenty bytes of a hash, with its array. -/
def decodeExactHex (hexString : List UInt8) : Outcome Hash160 :=
  let digits := Hex.skipMark hexString
  if digits.length = 0 then
    .error (.error .invalidArgument "")
  else if digits.all Hex.isValidChar = false then
    .error (.error .invalidHex "")
  else
    let paddedLen := digits.length + (if digits.length % 2 ≠ 0 then 1 else 0)
    if paddedLen > 40 then
      .error (.error .bufferTooSmall "")
    else if paddedLen < 40 then
      .error (.error .invalidArgument "")
    else do
      let normalized ← normalize digits
      let text ← normalized.readString
      match Hex.decode text 20 with
      | .error (.error .invalidFormat _) => .error (.error .invalidHex "")
      | .error reason => .error reason
      | .ok bytes =>
          if bytes.length ≠ 20 then
            if bytes.length < 20 then
              .error (.error .invalidArgument "")
            else
              .error (.error .bufferTooSmall "")
          else
            .ok (Bytes.fill 20 bytes)

/-- `neoc_hash160_from_hex`. -/
def fromHex (hexString : CString) : Outcome Hash160 :=
  decodeExactHex hexString.characters

/-- `neoc_hash160_from_string`, by way of `neoc_hash160_from_hex`. -/
def fromString (str : CString) : Outcome Hash160 :=
  let hexStr := Hex.skipMark str.characters
  if hexStr.length ≠ 40 then
    .error (.error .invalidArgument "")
  else
    decodeExactHex hexStr

/-! ## The array is large enough -/

/-- The digits that are decoded: an odd number of them gets a zero in front. -/
def paddedDigits (digits : List UInt8) : List UInt8 :=
  if digits.length % 2 ≠ 0 then 0x30 :: digits else digits

theorem padded_eq (digits : List UInt8) :
    (if digits.length % 2 ≠ 0 then 0x30 :: digits else digits) =
      paddedDigits digits :=
  rfl

theorem length_paddedDigits (digits : List UInt8) :
    (paddedDigits digits).length =
      digits.length + (if digits.length % 2 ≠ 0 then 1 else 0) := by
  rw [paddedDigits]
  split <;> rfl

theorem valid_paddedDigits {digits : List UInt8}
    (valid : ∀ c ∈ digits, Hex.isValidChar c = true) :
    ∀ c ∈ paddedDigits digits, Hex.isValidChar c = true := by
  rw [paddedDigits]
  split
  · exact List.forall_mem_cons.mpr ⟨by decide, valid⟩
  · exact valid

/-- Forty digits and their NUL fill the array to its end. -/
theorem normalize_eq {digits : List UInt8}
    (short : (paddedDigits digits).length ≤ 40) :
    ∃ rest,
      normalize digits =
        .ok (Cells.written (paddedDigits digits ++ [0]) ++ rest) := by
  rw [length_paddedDigits] at short
  rw [normalize, paddedDigits]
  split
  · rename_i odd
    rw [if_pos odd] at short
    refine
      ⟨(Cells.written [(0x30 : UInt8)] ++ Cells.fresh 40).drop
        (1 + (Cells.written (digits ++ [0])).length), ?_⟩
    have first :
        Cells.store (Cells.fresh normalizedSize) 0
            (Cells.written [(0x30 : UInt8)]) =
          .ok (Cells.written [0x30] ++ Cells.fresh 40) :=
      rfl
    refine (Except.bind_of_ok first _).trans ?_
    rw [Cells.store_of_le]
    · rfl
    · simp only [Cells.length_written, List.length_append,
        Cells.length_fresh, List.length_singleton]
      omega
  · rename_i even
    rw [if_neg even] at short
    refine ⟨(Cells.fresh normalizedSize).drop (digits.length + 1), ?_⟩
    rw [Cells.store_of_le]
    · simp only [Cells.length_written, List.length_append,
        List.length_singleton, List.take_zero, List.nil_append,
        Nat.zero_add]
    · simp only [Cells.length_written, List.length_append,
        Cells.length_fresh, List.length_singleton, normalizedSize]
      omega

/-- With its array the reader computes what it computes on lists. -/
theorem decodeExactHex_eq (hexString : List UInt8) :
    decodeExactHex hexString = Hash160.decodeExactHex hexString := by
  rw [decodeExactHex, Hash160.decodeExactHex, Hex.decodeExact]
  dsimp only [Nat.reduceMul]
  split
  · rfl
  split
  · rfl
  rename_i all
  rw [Bool.not_eq_false, List.all_eq_true] at all
  rw [padded_eq, ← length_paddedDigits]
  split
  · rfl
  split
  · rfl
  rename_i short long
  rcases normalize_eq (Nat.le_of_not_lt short) with ⟨rest, copied⟩
  have valid := valid_paddedDigits all
  have free : 0 ∉ paddedDigits (Hex.skipMark hexString) := by
    intro member
    exact absurd (valid 0 member) (by decide)
  refine (Except.bind_of_ok copied _).trans ?_
  refine (Except.bind_of_ok (Cells.readString_written free rest) _).trans ?_
  cases decoded : Hex.decode (paddedDigits (Hex.skipMark hexString)) 20 with
  | error reason =>
      cases reason with
      | error code text => cases code <;> rfl
      | illegalAccess => rfl
      | signedOverflow => rfl
      | divergence => rfl
  | ok bytes =>
      have found := (Hex.decode_eq_ok_iff.mp decoded).2.2
      rw [Hex.skipMark_of_valid valid] at found
      have twenty : bytes.length = 20 := by
        rw [Hex.length_of_decodeDigits found]
        omega
      dsimp only
      rw [if_neg (Decidable.not_not.mpr twenty)]

/-! ## The texts that are accepted -/

variable {hash : Hash160} {digits hexString : List UInt8} {str : CString}

/-- Forty digits that stand for a hash. -/
structure Digits (hash : Hash160) (digits : List UInt8) : Prop where
  valid : ∀ c ∈ digits, Hex.isValidChar c = true
  forty : digits.length = 40
  value : Hex.decodeDigits digits = some hash.val

theorem Digits.decode (read : Digits hash digits) :
    Hex.decode digits 20 = .ok hash.val := by
  have unmarked := Hex.skipMark_of_valid read.valid
  have forty := read.forty
  apply Hex.decode_eq_ok_iff.mpr
  rw [unmarked]
  exact ⟨by omega, by omega, read.value⟩

/-- A zero in front belongs to the digits. -/
theorem valid_of_valid_paddedDigits
    (valid : ∀ c ∈ paddedDigits digits, Hex.isValidChar c = true) :
    ∀ c ∈ digits, Hex.isValidChar c = true := by
  rw [paddedDigits] at valid
  split at valid
  · exact (List.forall_mem_cons.mp valid).2
  · exact valid

/-- What is accepted behind a mark are the digits, padded where necessary. -/
theorem decodeExactHex_eq_ok_iff :
    decodeExactHex hexString = .ok hash ↔
      Digits hash (paddedDigits (Hex.skipMark hexString)) := by
  rw [decodeExactHex_eq, Hash160.decodeExactHex, Hex.decodeExact]
  constructor
  · intro accepted
    dsimp only at accepted
    split at accepted
    · cases accepted
    split at accepted
    · cases accepted
    rename_i all
    rw [Bool.not_eq_false, List.all_eq_true] at all
    have valid := valid_paddedDigits all
    rw [padded_eq] at accepted
    split at accepted
    · cases accepted
    split at accepted
    · cases accepted
    rename_i short long
    have forty :
        (paddedDigits (Hex.skipMark hexString)).length = 40 :=
      Nat.le_antisymm (Nat.le_of_not_lt short) (Nat.le_of_not_lt long)
    refine ⟨valid, forty, ?_⟩
    split at accepted
    · cases accepted
    · cases accepted
    · rename_i bytes decoded
      injection accepted with same
      have found := (Hex.decode_eq_ok_iff.mp decoded).2.2
      rw [Hex.skipMark_of_valid valid] at found
      have twenty := Hex.length_of_decodeDigits found
      rw [forty] at twenty
      rw [← same]
      refine found.trans (congrArg some ?_)
      exact (congrArg Subtype.val (Bytes.fill_val ⟨bytes, twenty⟩)).symm
  · intro read
    have all := valid_of_valid_paddedDigits read.valid
    have some : (Hex.skipMark hexString).length ≠ 0 := by
      intro none
      have forty := read.forty
      rw [length_paddedDigits, none] at forty
      exact absurd forty (by decide)
    have forty := read.forty
    dsimp only
    rw [padded_eq, if_neg some, List.all_eq_true.mpr all, if_neg (by decide),
      if_neg (by omega), if_neg (by omega), read.decode]
    exact congrArg Except.ok (Bytes.fill_val hash)

/-- The reader of strings accepts forty digits behind at most one mark. -/
theorem fromString_eq_ok_iff :
    fromString str = .ok hash ↔
      Digits hash (Hex.skipMark str.characters) := by
  rw [fromString]
  constructor
  · intro accepted
    split at accepted
    · cases accepted
    rename_i forty
    rw [Decidable.not_not] at forty
    have read := decodeExactHex_eq_ok_iff.mp accepted
    -- a second mark would leave no more than thirty-eight digits
    have unmarked :
        Hex.skipMark (Hex.skipMark str.characters) =
          Hex.skipMark str.characters := by
      by_contra marked
      have shorter := read.forty
      rw [Hex.skipMark] at marked shorter
      split at marked
      · rename_i mark
        rw [if_pos mark, length_paddedDigits, List.length_drop, forty]
          at shorter
        exact absurd shorter (by decide)
      · exact marked rfl
    rwa [unmarked, paddedDigits, if_neg (by rw [forty]; decide)] at read
  · intro read
    rw [if_neg (Decidable.not_not.mpr read.forty)]
    apply decodeExactHex_eq_ok_iff.mpr
    rwa [Hex.skipMark_of_valid read.valid, paddedDigits,
      if_neg (by rw [read.forty]; decide)]

/-- Forty characters without a NUL are read as they stand. -/
theorem fromString_ofBuffer (free : 0 ∉ digits) (forty : digits.length = 40) :
    fromString (CString.ofBuffer digits) = .ok hash ↔
      Digits hash digits := by
  rw [fromString_eq_ok_iff, CString.characters_ofBuffer free]
  constructor
  · intro read
    have length := read.forty
    rw [Hex.skipMark] at length read
    split at length
    · rw [List.length_drop, forty] at length
      exact absurd length (by decide)
    · rename_i unmarked
      rwa [if_neg unmarked] at read
  · intro read
    rwa [Hex.skipMark_of_valid read.valid]

theorem free_skipMark (str : CString) : 0 ∉ Hex.skipMark str.characters := by
  rw [Hex.skipMark]
  split
  · exact fun member => str.nul_free (List.mem_of_mem_drop member)
  · exact str.nul_free

/-- Beyond forty digits, the other reader takes thirty-nine. -/
theorem fromHex_eq_ok_iff :
    fromHex str = .ok hash ↔
      fromString str = .ok hash ∨
        (Hex.skipMark str.characters).length = 39 ∧
          fromString
              (CString.ofBuffer (0x30 :: Hex.skipMark str.characters)) =
            .ok hash := by
  have length := length_paddedDigits (Hex.skipMark str.characters)
  have free : 0 ∉ 0x30 :: Hex.skipMark str.characters :=
    List.not_mem_cons_of_ne_of_not_mem (by decide) (free_skipMark str)
  rw [fromHex, decodeExactHex_eq_ok_iff, fromString_eq_ok_iff]
  constructor
  · intro read
    rw [read.forty] at length
    by_cases odd : (Hex.skipMark str.characters).length % 2 ≠ 0
    · rw [if_pos odd] at length
      rw [paddedDigits, if_pos odd] at read
      exact .inr ⟨by omega, (fromString_ofBuffer free read.forty).mpr read⟩
    · rw [paddedDigits, if_neg odd] at read
      exact .inl read
  · rintro (read | ⟨short, accepted⟩)
    · rwa [paddedDigits, if_neg (by rw [read.forty]; decide)]
    · rw [paddedDigits, if_pos (by rw [short]; decide)]
      exact (fromString_ofBuffer free (congrArg (· + 1) short)).mp accepted

/-! ## What is written is read -/

/-- Nothing in front of the digits, `0x` or `0X`. -/
def marks : List (List UInt8) :=
  [[], [0x30, 0x78], [0x30, 0x58]]

theorem skipMark_mark {mark : List UInt8} (written : mark ∈ marks)
    (valid : ∀ c ∈ digits, Hex.isValidChar c = true) :
    Hex.skipMark (mark ++ digits) = digits := by
  rcases List.mem_cons.mp written with rfl | written
  · exact Hex.skipMark_of_valid valid
  rcases List.mem_cons.mp written with rfl | written
  · exact if_pos ⟨Nat.le_add_left 2 _, rfl, .inl rfl⟩
  · rw [List.mem_singleton.mp written]
    exact if_pos ⟨Nat.le_add_left 2 _, rfl, .inr rfl⟩

theorem digits_of_hash (hash : Hash160) (uppercase : Bool) :
    Digits hash (hash.val.flatMap (Hex.digits uppercase)) where
  valid := fun _ member => Hex.isValidChar_of_mem member
  forty := by rw [Hex.length_digits, hash.property]
  value := Hex.decodeDigits_digits hash.val uppercase

/-- The text of a hash is read behind every mark. -/
theorem fromString_marked {mark : List UInt8} (written : mark ∈ marks)
    (hash : Hash160) (uppercase : Bool) :
    fromString
        (CString.ofBuffer
          (mark ++ hash.val.flatMap (Hex.digits uppercase))) =
      .ok hash := by
  have read := digits_of_hash hash uppercase
  have free : 0 ∉ mark ++ hash.val.flatMap (Hex.digits uppercase) := by
    intro member
    rcases List.mem_append.mp member with front | back
    · have none : ∀ mark ∈ marks, 0 ∉ mark := by decide
      exact none mark written front
    · exact absurd (read.valid 0 back) (by decide)
  rw [fromString_eq_ok_iff, CString.characters_ofBuffer free,
    skipMark_mark written read.valid]
  exact read

theorem decode_ne_illegalAccess (hexString : List UInt8) (bufferSize : Nat) :
    Hex.decode hexString bufferSize ≠ .error .illegalAccess := by
  rw [Hex.decode]
  split
  · exact fun same => by cases same
  split
  · exact fun same => by cases same
  split
  · exact fun same => by cases same
  · exact fun same => by cases same

/-- The array is never left, whatever the text is. -/
theorem decodeExactHex_stays_inside (hexString : List UInt8) :
    decodeExactHex hexString ≠ .error .illegalAccess := by
  rw [decodeExactHex_eq, Hash160.decodeExactHex, Hex.decodeExact, padded_eq]
  have never :=
    decode_ne_illegalAccess (paddedDigits (Hex.skipMark hexString)) 20
  split
  · exact fun same => by cases same
  split
  · exact fun same => by cases same
  dsimp only
  split
  · exact fun same => by cases same
  split
  · exact fun same => by cases same
  split
  · exact fun same => by cases same
  · rename_i reason _ refused
    intro same
    injection same with illegal
    exact never (refused.trans (congrArg Except.error illegal))
  · exact fun same => by cases same

theorem fromString_stays_inside (str : CString) :
    fromString str ≠ .error .illegalAccess := by
  rw [fromString]
  split
  · exact fun same => by cases same
  · exact decodeExactHex_stays_inside _

/--
Both readers return the hash that was written, behind every mark; the second
one accepts what the first one accepts, except for thirty-nine digits, which
are read with a zero in front; and the array of 41 bytes is never left.
-/
theorem readers_agree :
    (∀ (hash : Hash160) (uppercase : Bool) (bufferSize : Nat),
      normalizedSize ≤ bufferSize →
        ∃ text,
          toHex hash bufferSize uppercase = .ok text ∧
            ∀ mark ∈ marks,
              let marked := CString.ofBuffer (mark ++ text.characters)
              fromHex marked = .ok hash ∧ fromString marked = .ok hash) ∧
      (∀ (str : CString) (hash : Hash160),
        fromHex str = .ok hash ↔
          fromString str = .ok hash ∨
            (Hex.skipMark str.characters).length = 39 ∧
              fromString
                  (CString.ofBuffer (0x30 :: Hex.skipMark str.characters)) =
                .ok hash) ∧
      ∀ str : CString,
        fromHex str ≠ .error .illegalAccess ∧
          fromString str ≠ .error .illegalAccess := by
  refine ⟨?_, ?_, ?_⟩
  · intro hash uppercase bufferSize room
    refine ⟨_, toHex_eq hash room uppercase, ?_⟩
    intro mark written
    have accepted := fromString_marked written hash uppercase
    rw [Hex.characters_text]
    exact ⟨fromHex_eq_ok_iff.mpr (.inl accepted), accepted⟩
  · intro str hash
    exact fromHex_eq_ok_iff
  · intro str
    exact ⟨decodeExactHex_stays_inside _, fromString_stays_inside str⟩

/-- Thirty-nine digits are accepted by one of the readers only. -/
example :
    (fromHex (CString.ofString "000000000000000000000000000000000000001")
        ).isOk = true ∧
      (fromString (CString.ofString "000000000000000000000000000000000000001")
        ).isOk = false := by
  decide +kernel

theorem readers_agree_zero :
    fromString
        (CString.ofBuffer
          ([0x30, 0x78] ++ List.replicate 40 0x30)) =
      .ok (Bytes.zero 20) := by
  rcases readers_agree.1 (Bytes.zero 20) false 41 le_rfl with
    ⟨text, written, read⟩
  have digits : text.characters = List.replicate 40 0x30 := by
    rw [toHex_eq _ le_rfl] at written
    injection written with same
    rw [← same, Hex.characters_text]
    decide +kernel
  rw [← digits]
  exact (read [0x30, 0x78] (by decide)).2

end InArray

end Hash160

end NeoC
