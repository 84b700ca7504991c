import NeoC.Crypto.Hash

/-!
# Hexadecimal text

Bytes are written as pairs of digits, and a text of such pairs is decoded with
or without the mark `0x` in front.  Digits of either case are accepted.  What
was encoded is decoded again; a hash is the case of twenty bytes.
-/

namespace NeoC

open Foundation

namespace Hex

/-! ## Digits -/

/-- `neoc_hex_is_valid_char`. -/
def isValidChar (c : UInt8) : Bool :=
  decide (0x30 ≤ c ∧ c ≤ 0x39) || decide (0x61 ≤ c ∧ c ≤ 0x66) ||
    decide (0x41 ≤ c ∧ c ≤ 0x46)

/-- `neoc_hex_char_to_value`, with `none` for -1. -/
def charToValue (c : UInt8) : Option Nat :=
  if 0x30 ≤ c ∧ c ≤ 0x39 then some (c.toNat - 0x30)
  else if 0x61 ≤ c ∧ c ≤ 0x66 then some (c.toNat - 0x61 + 10)
  else if 0x41 ≤ c ∧ c ≤ 0x46 then some (c.toNat - 0x41 + 10)
  else none

/-- The digit that `sprintf` writes for a value below sixteen. -/
def valueToChar (value : Nat) (uppercase : Bool) : UInt8 :=
  if value < 10 then UInt8.ofNat (0x30 + value)
  else if uppercase then UInt8.ofNat (0x41 + value - 10)
  else UInt8.ofNat (0x61 + value - 10)

theorem valueToChar_cases {value : Nat} (small : value < 16)
    (uppercase : Bool) :
    charToValue (valueToChar value uppercase) = some value ∧
      isValidChar (valueToChar value uppercase) = true := by
  have table :
      ∀ value : Fin 16, ∀ uppercase : Bool,
        charToValue (valueToChar value.val uppercase) = some value.val ∧
          isValidChar (valueToChar value.val uppercase) = true := by
    decide
  exact table ⟨value, small⟩ uppercase

/-- The digits of a byte, as `%02x` or `%02X` writes them. -/
def digits (uppercase : Bool) (byte : UInt8) : List UInt8 :=
  [valueToChar (byte.toNat / 16) uppercase,
    valueToChar (byte.toNat % 16) uppercase]

/-! ## Encoding -/

/-- `neoc_hex_encode_buffer_size`. -/
def encodeBufferSize (dataLength : Nat) (includeMark : Bool) : Nat :=
  (if includeMark then 2 else 0) + dataLength * 2 + 1

/-- The text that is written for some bytes. -/
def text (data : List UInt8) (uppercase includeMark : Bool) : CString :=
  CString.ofBuffer
    ((if includeMark then [0x30, 0x78] else []) ++
      data.flatMap (digits uppercase))

/-- `neoc_hex_encode` into a buffer of `bufferSize` bytes. -/
def encode (data : List UInt8) (bufferSize : Nat)
    (uppercase includeMark : Bool) : Outcome CString :=
  if bufferSize < encodeBufferSize data.length includeMark then
    .error (.error .bufferTooSmall "Buffer too small")
  else
    .ok (text data uppercase includeMark)

/-- `neoc_hex_encode_alloc`, which returns `NULL` for a failure. -/
def encodeAlloc (alloc : Allocator) (data : List UInt8)
    (uppercase includeMark : Bool) : Option CString :=
  if alloc.neocGrants (encodeBufferSize data.length includeMark) then
    some (text data uppercase includeMark)
  else
    none

/-! ## Decoding -/

/-- A mark `0x` or `0X` in front is skipped. -/
def skipMark (hexString : List UInt8) : List UInt8 :=
  if 2 ≤ hexString.length ∧ hexString[0]? = some 0x30 ∧
      (hexString[1]? = some 0x78 ∨ hexString[1]? = some 0x58) then
    hexString.drop 2
  else
    hexString

/-- The bytes that pairs of digits stand for. -/
def decodeDigits : List UInt8 → Option (List UInt8)
  | high :: low :: rest =>
      match charToValue high, charToValue low with
      | some highVal, some lowVal =>
          (decodeDigits rest).map fun bytes =>
            UInt8.ofNat (highVal * 16 + lowVal) :: bytes
      | _, _ => none
  | _ => some []

/-- `neoc_hex_decode` into a buffer of `bufferSize` bytes. -/
def decode (hexString : List UInt8) (bufferSize : Nat) :
    Outcome (List UInt8) :=
  let hex := skipMark hexString
  if hex.length % 2 ≠ 0 then
    .error (.error .invalidFormat "Hex string must have even length")
  else if bufferSize < hex.length / 2 then
    .error (.error .bufferTooSmall "Buffer too small")
  else
    match decodeDigits hex with
    | none => .error (.error .invalidFormat "Invalid hex character")
    | some bytes => .ok bytes

/-- `neoc_hex_decode_buffer_size`. -/
def decodeBufferSize (hexString : List UInt8) : Nat :=
  (skipMark hexString).length / 2

/-- `neoc_hex_decode_alloc`, which returns `NULL` for a failure. -/
def decodeAlloc (alloc : Allocator) (hexString : CString) :
    Option (List UInt8) :=
  let bufferSize := decodeBufferSize hexString.characters
  if bufferSize = 0 then none
  else if alloc.neocGrants bufferSize = false then none
  else (decode hexString.characters bufferSize).toOption

/-! ## What was encoded is decoded -/

theorem isValidChar_of_mem {data : List UInt8} {uppercase : Bool}
    {c : UInt8} (member : c ∈ data.flatMap (digits uppercase)) :
    isValidChar c = true := by
  rcases List.mem_flatMap.mp member with ⟨byte, -, inside⟩
  have bounded := byte.toNat_lt
  rcases List.mem_cons.mp inside with rfl | inside
  · exact (valueToChar_cases (by omega) uppercase).2
  · rw [List.mem_singleton.mp inside]
    exact (valueToChar_cases (by omega) uppercase).2

theorem length_digits (data : List UInt8) (uppercase : Bool) :
    (data.flatMap (digits uppercase)).length = 2 * data.length := by
  rw [List.length_flatMap]
  simp [digits, Nat.mul_comm]

/-- Digits contain no NUL, so all of them belong to the string. -/
theorem characters_text (data : List UInt8) (uppercase : Bool) :
    (text data uppercase false).characters =
      data.flatMap (digits uppercase) := by
  apply List.takeWhile_eq_self_iff.mpr
  intro c member
  have valid := isValidChar_of_mem member
  have different : c ≠ 0 := by
    rintro rfl
    exact absurd valid (by decide)
  exact decide_eq_true different

theorem decodeDigits_digits (data : List UInt8) (uppercase : Bool) :
    decodeDigits (data.flatMap (digits uppercase)) = some data := by
  induction data with
  | nil => rfl
  | cons byte rest induction =>
      have bounded := byte.toNat_lt
      have high :=
        (valueToChar_cases (show byte.toNat / 16 < 16 by omega)
          uppercase).1
      have low :=
        (valueToChar_cases (show byte.toNat % 16 < 16 by omega)
          uppercase).1
      have joined :
          byte.toNat / 16 * 16 + byte.toNat % 16 = byte.toNat := by
        omega
      rw [List.flatMap_cons]
      change decodeDigits (_ :: _ :: rest.flatMap (digits uppercase)) = _
      rw [decodeDigits, high, low]
      simp only [induction, Option.map_some, joined, UInt8.ofNat_toNat]

/-- Two digits make a byte. -/
theorem length_of_decodeDigits {hex bytes : List UInt8}
    (decoded : decodeDigits hex = some bytes) :
    bytes.length = hex.length / 2 := by
  induction hex using decodeDigits.induct generalizing bytes with
  | case1 high low rest highVal lowVal lowFound highFound induction =>
      rw [decodeDigits, highFound, lowFound] at decoded
      rcases Option.map_eq_some_iff.mp decoded with ⟨others, found, rfl⟩
      rw [List.length_cons, induction found, List.length_cons,
        List.length_cons]
      omega
  | case2 high low rest unread =>
      rw [decodeDigits] at decoded
      split at decoded
      · rename_i highFound lowFound
        exact absurd lowFound (unread _ _ highFound)
      · cases decoded
  | case3 short none =>
      rcases short with _ | ⟨first, _ | ⟨second, rest⟩⟩
      · cases decoded
        rfl
      · cases decoded
        exact (Nat.div_eq_of_lt (Nat.lt_succ_self 1)).symm
      · exact absurd rfl (none first second rest)

/-- What is decoded, and from which texts. -/
theorem decode_eq_ok_iff {hexString bytes : List UInt8} {bufferSize : Nat} :
    decode hexString bufferSize = .ok bytes ↔
      (skipMark hexString).length % 2 = 0 ∧
        (skipMark hexString).length / 2 ≤ bufferSize ∧
        decodeDigits (skipMark hexString) = some bytes := by
  rw [decode]
  split
  · rename_i odd
    exact iff_of_false (fun same => by cases same) fun all => odd all.1
  rename_i even
  rw [Decidable.not_not] at even
  split
  · rename_i small
    exact
      iff_of_false (fun same => by cases same)
        fun all => Nat.not_le_of_lt small all.2.1
  rename_i large
  cases found : decodeDigits (skipMark hexString) with
  | none =>
      exact iff_of_false (fun same => by cases same) fun all => by
        cases all.2.2
  | some decoded =>
      rw [Except.ok.injEq, Option.some.injEq]
      exact
        ⟨fun same => ⟨even, Nat.le_of_not_lt large, same⟩,
          fun all => all.2.2⟩

/-- No mark is skipped where there are only digits. -/
theorem skipMark_of_valid {hexString : List UInt8}
    (valid : ∀ c ∈ hexString, isValidChar c = true) :
    skipMark hexString = hexString := by
  rw [skipMark, if_neg]
  rintro ⟨-, -, mark | mark⟩
  · exact
      absurd (valid _ (List.mem_of_getElem? mark)) (by decide)
  · exact
      absurd (valid _ (List.mem_of_getElem? mark)) (by decide)

theorem skipMark_digits (data : List UInt8) (uppercase : Bool) :
    skipMark (data.flatMap (digits uppercase)) =
      data.flatMap (digits uppercase) :=
  skipMark_of_valid fun _ => isValidChar_of_mem

theorem decode_digits (data : List UInt8) (uppercase : Bool)
    {bufferSize : Nat} (room : data.length ≤ bufferSize) :
    decode (data.flatMap (digits uppercase)) bufferSize = .ok data := by
  have length := length_digits data uppercase
  have even : ¬ (data.flatMap (digits uppercase)).length % 2 ≠ 0 := by
    omega
  have fits :
      ¬ bufferSize < (data.flatMap (digits uppercase)).length / 2 := by
    omega
  rw [decode, skipMark_digits, if_neg even, if_neg fits,
    decodeDigits_digits]

/-- With memory, the text of some bytes is decoded to them. -/
theorem decodeAlloc_text {alloc : Allocator} {data : List UInt8}
    (uppercase : Bool) (some : 1 ≤ data.length)
    (serves : alloc.Serves data.length) :
    decodeAlloc alloc (text data uppercase false) = .some data := by
  have size :
      decodeBufferSize (text data uppercase false).characters =
        data.length := by
    rw [decodeBufferSize, characters_text, skipMark_digits, length_digits]
    omega
  have granted : ¬ alloc.neocGrants data.length = false := by
    rw [serves.neocGrants some le_rfl]
    decide
  rw [decodeAlloc, size, if_neg (by omega), if_neg granted,
    characters_text, decode_digits data uppercase le_rfl]
  rfl

/-! ## Texts of one size -/

/-- `decode_exact_hex` for a given number of bytes. -/
def decodeExact (size : Nat) (hexString : List UInt8) :
    Outcome (Bytes size) :=
  let digits := skipMark hexString
  if digits.length = 0 then
    .error (.error .invalidArgument "")
  else if digits.all isValidChar = false then
    .error (.error .invalidHex "")
  else
    let normalized :=
      if digits.length % 2 ≠ 0 then 0x30 :: digits else digits
    if normalized.length > 2 * size then
      .error (.error .bufferTooSmall "")
    else if normalized.length < 2 * size then
      .error (.error .invalidArgument "")
    else
      match decode normalized size with
      | .error (.error .invalidFormat _) => .error (.error .invalidHex "")
      | .error reason => .error reason
      | .ok bytes => .ok (Bytes.fill size bytes)

theorem decodeExact_digits {size : Nat} (positive : 0 < size)
    (bytes : Bytes size) (uppercase : Bool) :
    decodeExact size (bytes.val.flatMap (digits uppercase)) = .ok bytes := by
  have length := length_digits bytes.val uppercase
  rw [bytes.property] at length
  have valid :
      (bytes.val.flatMap (digits uppercase)).all isValidChar = true :=
    List.all_eq_true.mpr fun _ => isValidChar_of_mem
  have even :
      ¬ (bytes.val.flatMap (digits uppercase)).length % 2 ≠ 0 := by
    omega
  rw [decodeExact, skipMark_digits]
  dsimp only
  rw [if_neg (by omega), valid, if_neg (by decide), if_neg even,
    if_neg (by omega), if_neg (by omega),
    decode_digits bytes.val uppercase (by rw [bytes.property])]
  dsimp only
  rw [Bytes.fill_val]

end Hex

/-! ## Hashes as text -/

namespace Hash160

/-- `decode_exact_hex` for the twenty bytes of a hash. -/
def decodeExactHex (hexString : List UInt8) : Outcome Hash160 :=
  Hex.decodeExact 20 hexString

/-- `neoc_hash160_from_string`. -/
def fromString (str : CString) : Outcome Hash160 :=
  let hexStr := Hex.skipMark str.characters
  if hexStr.length ≠ 40 then
    .error (.error .invalidArgument "")
  else
    decodeExactHex hexStr

/-- `neoc_hash160_to_hex`. -/
def toHex (hash : Hash160) (bufferSize : Nat) (uppercase : Bool) :
    Outcome CString :=
  if bufferSize < Hex.encodeBufferSize 20 false then
    .error (.error .bufferTooSmall "")
  else
    Hex.encode hash.val bufferSize uppercase false

/-- `snprintf` with the format `0x%s`. -/
def marked (hashHex : CString) : CString :=
  CString.ofBuffer ([0x30, 0x78] ++ hashHex.characters)

theorem toHex_eq (hash : Hash160) {bufferSize : Nat}
    (room : 41 ≤ bufferSize) (uppercase : Bool) :
    toHex hash bufferSize uppercase =
      .ok (Hex.text hash.val uppercase false) := by
  have size : Hex.encodeBufferSize hash.val.length false = 41 := by
    rw [hash.property]
    rfl
  have expected : Hex.encodeBufferSize 20 false = 41 := rfl
  rw [toHex, expected, if_neg (by omega), Hex.encode, size,
    if_neg (by omega)]

theorem decodeExactHex_digits (hash : Hash160) (uppercase : Bool) :
    decodeExactHex (hash.val.flatMap (Hex.digits uppercase)) =
      .ok hash :=
  Hex.decodeExact_digits (by decide) hash uppercase

theorem characters_marked (hash : Hash160) (uppercase : Bool) :
    (marked (Hex.text hash.val uppercase false)).characters =
      0x30 :: 0x78 :: hash.val.flatMap (Hex.digits uppercase) := by
  have inner :
      (hash.val.flatMap (Hex.digits uppercase)).takeWhile (· ≠ 0) =
        hash.val.flatMap (Hex.digits uppercase) :=
    Hex.characters_text hash.val uppercase
  rw [marked, Hex.characters_text]
  change
    List.takeWhile (· ≠ 0)
        (0x30 :: 0x78 :: hash.val.flatMap (Hex.digits uppercase)) =
      _
  rw [List.takeWhile_cons, if_pos (by decide), List.takeWhile_cons,
    if_pos (by decide), inner]

/-- The text of a hash, with its mark, is read back. -/
theorem fromString_marked (hash : Hash160) (uppercase : Bool) :
    fromString (marked (Hex.text hash.val uppercase false)) =
      .ok hash := by
  have length := Hex.length_digits hash.val uppercase
  rw [hash.property] at length
  have skipped :
      Hex.skipMark
          (0x30 :: 0x78 :: hash.val.flatMap (Hex.digits uppercase)) =
        hash.val.flatMap (Hex.digits uppercase) := by
    rw [Hex.skipMark, if_pos]
    · rfl
    · exact ⟨by simp, rfl, .inl rfl⟩
  rw [fromString, characters_marked, skipped, if_neg (by omega),
    decodeExactHex_digits]

end Hash160

namespace Hash256

/-- `neoc_hash256_from_string`. -/
def fromString (str : CString) : Outcome Hash256 :=
  let hexStr := Hex.skipMark str.characters
  if hexStr.length ≠ 64 then
    .error (.error .invalidArgument "")
  else
    Hex.decodeExact 32 hexStr

/-- `neoc_hash256_to_hex`. -/
def toHex (hash : Hash256) (bufferSize : Nat) (uppercase : Bool) :
    Outcome CString :=
  if bufferSize < Hex.encodeBufferSize 32 false then
    .error (.error .bufferTooSmall "")
  else
    Hex.encode hash.val bufferSize uppercase false

/-- `neoc_hash256_to_string`. -/
def toString (hash : Hash256) (bufferSize : Nat) : Outcome CString :=
  if bufferSize < 65 then
    .error (.error .bufferTooSmall "")
  else
    toHex hash bufferSize false

theorem toString_eq (hash : Hash256) {bufferSize : Nat}
    (room : 65 ≤ bufferSize) :
    toString hash bufferSize = .ok (Hex.text hash.val false false) := by
  have size : Hex.encodeBufferSize hash.val.length false = 65 := by
    rw [hash.property]
    rfl
  have expected : Hex.encodeBufferSize 32 false = 65 := rfl
  rw [toString, if_neg (by omega), toHex, expected, if_neg (by omega),
    Hex.encode, size, if_neg (by omega)]

/-- The text of a hash is read back. -/
theorem fromString_text (hash : Hash256) (uppercase : Bool) :
    fromString (Hex.text hash.val uppercase false) = .ok hash := by
  have length := Hex.length_digits hash.val uppercase
  rw [hash.property] at length
  rw [fromString, Hex.characters_text, Hex.skipMark_digits,
    if_neg (by omega), Hex.decodeExact_digits (by decide)]

end Hash256

end NeoC
