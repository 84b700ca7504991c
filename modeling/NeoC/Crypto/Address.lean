import NeoC.Crypto.Hash
import NeoC.Foundation.Radix
import Mathlib.Data.List.DropRight

/-!
# Addresses

An address is the Base58Check text of a version byte and a script hash.  The
encoder and the decoder are two loops that change the base of a number; both
treat the zero bytes in front of it separately.  Decoding gives back the
bytes that were encoded, whatever they are.
-/

namespace NeoC

open Foundation

namespace Base58

/-! ## The encoder -/

/-- The number of leading zero bytes. -/
def leadingZeros (data : List UInt8) : Nat :=
  (data.takeWhile (· = 0)).length

/-- The loop over the bytes behind the zeros: the digits in base 58. -/
def encodeDigits (data : List UInt8) : List Nat :=
  Radix.convert 58 256 ((data.drop (leadingZeros data)).map UInt8.toNat)

/-- `neoc_base58_encode_buffer_size`. -/
def encodeBufferSize (dataLength : Nat) : Nat :=
  if dataLength = 0 then 2 else dataLength * 138 / 100 + 2

/-- The characters that are written for some bytes. -/
def encodeCharacters (data : List UInt8) : List UInt8 :=
  List.replicate (leadingZeros data) 0x31 ++
    (encodeDigits data).reverse.map fun digit => alphabet.getD digit 0

/-- `neoc_base58_encode`. -/
def encode (alloc : Allocator) (data : List UInt8) (bufferSize : Nat) :
    Outcome CString :=
  if data.length = 0 then
    if bufferSize < 1 then
      .error (.error .bufferTooSmall "Buffer too small")
    else
      .ok (CString.ofString "")
  else if alloc.neocGrants (data.length * 138 / 100 + 1) = false then
    .error (.error .outOfMemory "Failed to allocate Base58 buffer")
  else if leadingZeros data + (encodeDigits data).length + 1 >
      bufferSize then
    .error (.error .bufferTooSmall "Buffer too small")
  else
    .ok (CString.ofBuffer (encodeCharacters data))

/-- `neoc_base58_check_encode`. -/
def checkEncode (host : Host) (alloc : Allocator) (data : List UInt8)
    (bufferSize : Nat) : Outcome CString := do
  let hash ← host.sha256Double data
  if alloc.neocGrants (data.length + 4) = false then
    .error (.error .outOfMemory "Failed to allocate data with checksum")
  else
    encode alloc (data ++ hash.val.take 4) bufferSize

/-- `neoc_base58_check_encode_alloc`; `none` is the `NULL` it returns. -/
def checkEncodeAlloc (host : Host) (alloc : Allocator) (data : List UInt8) :
    Option CString :=
  let bufferSize := encodeBufferSize (data.length + 4)
  if alloc.neocGrants bufferSize = false then
    none
  else
    match checkEncode host alloc data bufferSize with
    | .error _ => none
    | .ok buffer => some buffer

end Base58

/-- `neoc_hash160_to_address`. -/
def Hash160.toAddress (host : Host) (alloc : Allocator) (hash : Hash160)
    (bufferSize : Nat) : Outcome CString :=
  match
    Base58.checkEncodeAlloc host alloc (addressVersion :: hash.val.reverse)
  with
  | none => .error (.error .invalidFormat "")
  | some address =>
      if bufferSize ≤ address.strlen then
        .error (.error .bufferTooSmall "")
      else
        .ok address

namespace Base58

/-! ## The alphabet -/

theorem length_alphabet : alphabet.length = 58 := by
  rw [alphabet, ascii_ofList]
  rfl

/-- The character of a digit is decoded to the digit. -/
theorem decodeChar_getD {digit : Nat} (small : digit < 58) :
    decodeChar (alphabet.getD digit 0) = some digit := by
  have all :
      ∀ digit : Fin 58,
        decodeChar (alphabet.getD digit.val 0) = some digit.val := by
    unfold decodeChar
    rw [alphabet, ascii_ofList]
    decide
  exact all ⟨digit, small⟩

theorem getD_ne_zero {digit : Nat} (small : digit < 58) :
    alphabet.getD digit 0 ≠ 0 := by
  have all : ∀ digit : Fin 58, alphabet.getD digit.val 0 ≠ 0 := by
    rw [alphabet, ascii_ofList]
    decide
  exact all ⟨digit, small⟩

/-- Only zero is written with the first character. -/
theorem getD_ne_one {digit : Nat} (small : digit < 58)
    (different : digit ≠ 0) :
    alphabet.getD digit 0 ≠ 0x31 := by
  have all :
      ∀ digit : Fin 58,
        digit.val ≠ 0 → alphabet.getD digit.val 0 ≠ 0x31 := by
    rw [alphabet, ascii_ofList]
    decide
  exact all ⟨digit, small⟩ different

/-! ## The decoder as a change of base -/

/-- The decoder's step is the one of the library for changing bases. -/
theorem map_mulAdd {carry : Nat} (small : carry < 58) (buf : List UInt8) :
    (mulAdd buf carry).map UInt8.toNat =
      Radix.mulAdd 256 58 (buf.map UInt8.toNat) carry := by
  induction buf generalizing carry with
  | nil =>
      rw [mulAdd, List.map_nil, Radix.mulAdd,
        Radix.spill_eq (by decide) le_rfl]
      split
      · rename_i none
        simp [none]
      · rename_i some
        rw [Nat.digits_of_lt 256 carry some (by omega), List.map_singleton,
          UInt8.toNat_ofNat', Nat.mod_mod, Nat.mod_eq_of_lt (by omega)]
  | cons digit rest induction =>
      have bounded := digit.toNat_lt
      rw [mulAdd, List.map_cons, List.map_cons, Radix.mulAdd,
        induction (by omega), UInt8.toNat_ofNat', Nat.mod_mod]

/-- Characters of digits are read as the numeral of these digits. -/
theorem digits_characters {numeral : List Nat}
    (small : ∀ digit ∈ numeral, digit < 58) (buf : List UInt8) :
    ∃ result,
      digits (numeral.map fun digit => alphabet.getD digit 0) buf =
          .ok result ∧
        result.map UInt8.toNat =
          numeral.foldl (Radix.mulAdd 256 58) (buf.map UInt8.toNat) := by
  induction numeral generalizing buf with
  | nil => exact ⟨buf, rfl, rfl⟩
  | cons digit rest induction =>
      rcases List.forall_mem_cons.mp small with ⟨first, others⟩
      rcases induction others (mulAdd buf digit) with
        ⟨result, decoded, value⟩
      refine ⟨result, ?_, ?_⟩
      · rw [List.map_cons, digits, decodeChar_getD first]
        exact decoded
      · rw [value, map_mulAdd first, List.foldl_cons]

/-! ## The digits in front that stand for zero -/

section Front

variable (zero : UInt8) (characters : List UInt8)

theorem drop_length_takeWhile :
    characters.drop (characters.takeWhile (· = zero)).length =
      characters.dropWhile (· = zero) := by
  have parts :=
    List.takeWhile_append_dropWhile (p := (· = zero)) (l := characters)
  have dropped :=
    congrArg (List.drop (characters.takeWhile (· = zero)).length) parts
  rw [List.drop_left] at dropped
  exact dropped.symm

theorem replicate_append_dropWhile :
    List.replicate (characters.takeWhile (· = zero)).length zero ++
        characters.dropWhile (· = zero) =
      characters := by
  have zeros :
      List.replicate (characters.takeWhile (· = zero)).length zero =
        characters.takeWhile (· = zero) := by
    symm
    apply List.eq_replicate_iff.mpr
    refine ⟨rfl, ?_⟩
    intro character member
    simpa using List.mem_takeWhile_imp member
  rw [zeros, List.takeWhile_append_dropWhile]

/-- Behind them there is no further one. -/
theorem head_dropWhile_ne :
    ∀ character ∈ (characters.dropWhile (· = zero)).head?,
      character ≠ zero := by
  intro character first
  have different := List.head?_dropWhile_not (· = zero) characters
  rw [Option.mem_def.mp first] at different
  simpa using different

end Front

/-! ## Decoding what was encoded -/

section RoundTrip

variable (data : List UInt8)

/-- The bytes behind the leading zeros. -/
def significant : List UInt8 :=
  data.dropWhile (· = 0)

theorem drop_leadingZeros :
    data.drop (leadingZeros data) = significant data :=
  drop_length_takeWhile 0 data

theorem replicate_append_significant :
    List.replicate (leadingZeros data) 0 ++ significant data = data :=
  replicate_append_dropWhile 0 data

theorem length_significant :
    leadingZeros data + (significant data).length = data.length := by
  have lengths := congrArg List.length (replicate_append_significant data)
  rwa [List.length_append, List.length_replicate] at lengths

theorem significant_head :
    ∀ digit ∈ ((significant data).map UInt8.toNat).head?, digit ≠ 0 := by
  intro digit member
  rw [List.head?_map, Option.mem_map] at member
  rcases member with ⟨byte, first, rfl⟩
  intro zero
  exact head_dropWhile_ne 0 data byte first (UInt8.toNat_inj.mp zero)

theorem map_toNat_lt (bytes : List UInt8) :
    ∀ digit ∈ bytes.map UInt8.toNat, digit < 256 := by
  intro digit member
  rcases List.mem_map.mp member with ⟨byte, -, rfl⟩
  exact byte.toNat_lt

theorem encodeDigits_eq :
    encodeDigits data =
      Radix.convert 58 256 ((significant data).map UInt8.toNat) := by
  rw [encodeDigits, drop_leadingZeros]

theorem encodeDigits_lt :
    ∀ digit ∈ (encodeDigits data).reverse, digit < 58 := by
  intro digit member
  exact
    Radix.convert_lt (by decide) (by decide) (List.mem_reverse.mp member)

theorem encodeCharacters_nul_free :
    (0 : UInt8) ∉ encodeCharacters data := by
  intro member
  rcases List.mem_append.mp member with zeros | characters
  · have equal := List.eq_of_mem_replicate zeros
    simp at equal
  · rcases List.mem_map.mp characters with ⟨digit, written, equal⟩
    exact getD_ne_zero (encodeDigits_lt data digit written) equal

theorem ofBuffer_encodeCharacters :
    (CString.ofBuffer (encodeCharacters data)).characters =
      encodeCharacters data := by
  have same :=
    CString.ofBuffer_characters
      ⟨encodeCharacters data, encodeCharacters_nul_free data⟩
  rw [same]

/-- The decoder finds as many zeros as the encoder did. -/
theorem zeros_encode :
    zeros (CString.ofBuffer (encodeCharacters data)) = leadingZeros data := by
  rw [zeros, ofBuffer_encodeCharacters, encodeCharacters,
    List.takeWhile_append_of_pos (by simp)]
  have stops :
      ((encodeDigits data).reverse.map fun digit =>
        alphabet.getD digit 0).takeWhile (· = 0x31) = [] := by
    rcases shape : (encodeDigits data).reverse with _ | ⟨digit, rest⟩
    · rfl
    · have small :=
        encodeDigits_lt data digit (by rw [shape]; exact List.mem_cons_self)
      have different : digit ≠ 0 := by
        rw [encodeDigits_eq] at shape
        exact
          Radix.convert_leading (by decide) (by decide)
            (congrArg List.head? shape)
      rw [List.map_cons, List.takeWhile_cons_of_neg
        (by simpa using getD_ne_one small different)]
  rw [stops, List.append_nil, List.length_replicate]

theorem drop_zeros_encode :
    (CString.ofBuffer (encodeCharacters data)).characters.drop
        (zeros (CString.ofBuffer (encodeCharacters data))) =
      (encodeDigits data).reverse.map fun digit => alphabet.getD digit 0 := by
  rw [zeros_encode, ofBuffer_encodeCharacters, encodeCharacters,
    List.drop_left' List.length_replicate]

/-- Reading the characters gives the significant bytes, last one first. -/
theorem digits_encode :
    digits
        ((encodeDigits data).reverse.map fun digit => alphabet.getD digit 0)
        [] =
      .ok (significant data).reverse := by
  rcases digits_characters (encodeDigits_lt data) [] with
    ⟨result, decoded, value⟩
  have back :=
    @Radix.convert_convert 58 256 (by decide) (by decide) _
      (map_toNat_lt (significant data)) (significant_head data)
  rw [decoded]
  congr 1
  apply List.map_injective_iff.mpr (fun _ _ => UInt8.toNat_inj.mp)
  rw [value, List.map_nil, List.map_reverse, ← back, encodeDigits_eq]
  rfl

/-- The digits fit into the buffer the encoder allocates for them. -/
theorem length_encodeDigits :
    (encodeDigits data).length ≤ (significant data).length * 138 / 100 + 1 := by
  rw [encodeDigits_eq]
  apply Radix.length_convert_le (by decide) (by decide) (map_toNat_lt _)
  have ratio : 256 ^ 100 ≤ 58 ^ 138 := by
    norm_num
  rw [List.length_map]
  exact Radix.pow_le_pow_of_ratio (by decide) (by decide) ratio (by omega)

/-- The bytes fit into the buffer the decoder asks for. -/
theorem length_significant_le :
    (significant data).length ≤ (encodeDigits data).length * 733 / 1000 + 1 := by
  rcases shape : significant data with _ | ⟨byte, rest⟩
  · exact Nat.zero_le _
  · have leading : byte.toNat ≠ 0 := by
      have first := significant_head data
      rw [shape] at first
      exact first byte.toNat rfl
    have bounded :=
      @Radix.pow_lt_of_convert 58 256 (by decide) (by decide) _ _ _
        (List.map_cons (f := UInt8.toNat) (a := byte) (l := rest)) leading
    rw [← shape, ← encodeDigits_eq, List.length_map] at bounded
    have ratio : 58 ^ 71 ≤ 256 ^ 52 := by
      norm_num
    by_contra short
    rw [List.length_cons] at short
    have reached :
        58 ^ (encodeDigits data).length ≤ 256 ^ rest.length :=
      Radix.pow_le_pow_of_ratio (by decide) (by decide) ratio (by omega)
    omega

/-- The text that `neoc_base58_encode` writes. -/
def encodeText : CString :=
  CString.ofBuffer (encodeCharacters data)

theorem strlen_encodeText :
    (encodeText data).strlen =
      leadingZeros data + (encodeDigits data).length := by
  rw [encodeText, CString.strlen, ofBuffer_encodeCharacters,
    encodeCharacters, List.length_append, List.length_replicate,
    List.length_map, List.length_reverse]

theorem decodeBufferSize_encodeText {data : List UInt8} (some : data ≠ []) :
    data.length ≤ decodeBufferSize (encodeText data) ∧
      decodeBufferSize (encodeText data) ≤
        (encodeText data).strlen + 1 := by
  have parts := length_significant data
  have fits := length_significant_le data
  have present := List.length_pos_iff.mpr some
  have positive : (encodeText data).strlen ≠ 0 := by
    rw [strlen_encodeText]
    rcases shape : significant data with _ | ⟨byte, rest⟩
    · rw [shape, List.length_nil] at parts
      omega
    · intro none
      have empty : encodeDigits data = [] :=
        List.length_eq_zero_iff.mp (by omega)
      have read := digits_encode data
      rw [empty, shape, List.reverse_nil, List.map_nil, digits] at read
      injection read with equal
      have lengths := congrArg List.length equal
      simp at lengths
  rw [decodeBufferSize, if_neg positive]
  rw [show zeros (encodeText data) = leadingZeros data from
    zeros_encode data, strlen_encodeText]
  omega

/-- `neoc_base58_decode` gives back the bytes that were encoded. -/
theorem decode_encodeText {alloc : Allocator} {bufferSize : Nat}
    (granted :
      alloc.neocGrants ((encodeText data).strlen * 733 / 1000 + 1) = true)
    (room : data.length ≤ bufferSize) :
    decode alloc (encodeText data) bufferSize = .ok data := by
  have stripped :
      (significant data).dropWhile (· = 0) = significant data := by
    rw [significant, List.dropWhile_idempotent]
  have characters := drop_zeros_encode data
  have counted := zeros_encode data
  rw [decode, if_neg (by simp [granted])]
  rw [encodeText, characters, digits_encode, counted]
  simp only [bind, Except.bind]
  rw [List.reverse_reverse, stripped, replicate_append_significant,
    if_neg (by omega)]

end RoundTrip

/-! ## Base58Check -/

section Check

variable {host : Host} {alloc : Allocator} {data : List UInt8}

/-- What is encoded when the checksum has been appended. -/
def checked (host : Host) (data : List UInt8) : List UInt8 :=
  data ++ (host.sha256Digest (host.sha256Digest data).val).val.take 4

theorem length_checked : (checked host data).length = data.length + 4 := by
  have exact := (host.sha256Digest (host.sha256Digest data).val).property
  rw [checked, List.length_append, List.length_take, exact]
  rfl

/-- What is encoded is the text of the payload with its checksum. -/
theorem checkEncode_eq_ok {bufferSize : Nat} {text : CString}
    (encoded : checkEncode host alloc data bufferSize = .ok text) :
    text = encodeText (checked host data) ∧
      host.cryptoInitialized = true := by
  rcases Except.bind_eq_ok_iff.mp encoded with ⟨hash, hashed, rest⟩
  have initialized := Host.initialized_of_sha256Double hashed
  have bytes :
      data ++ hash.val.take 4 = checked host data := by
    rw [Host.sha256Double_eq_ok hashed]
    rfl
  refine ⟨?_, initialized⟩
  split at rest
  · cases rest
  rw [bytes, encode, if_neg (by rw [length_checked]; omega)] at rest
  split at rest
  · cases rest
  split at rest
  · cases rest
  · injection rest with same
    exact same.symm

/-- The text of an encoding does not depend on the allocator. -/
theorem checkEncodeAlloc_eq_some {text : CString}
    (encoded : checkEncodeAlloc host alloc data = some text) :
    text = encodeText (checked host data) ∧
      host.cryptoInitialized = true := by
  rw [checkEncodeAlloc] at encoded
  split at encoded
  · cases encoded
  split at encoded
  · cases encoded
  · rename_i buffer written
    injection encoded with same
    rw [← same]
    exact checkEncode_eq_ok written

theorem decodeBufferSize_checked :
    data.length + 4 ≤ decodeBufferSize (encodeText (checked host data)) ∧
      decodeBufferSize (encodeText (checked host data)) ≤
        (encodeText (checked host data)).strlen + 1 := by
  have length := @length_checked host data
  have some : checked host data ≠ [] := by
    intro none
    rw [none, List.length_nil] at length
    omega
  have sizes := decodeBufferSize_encodeText some
  rwa [length] at sizes

/-- With the memory for both buffers the payload is decoded. -/
theorem checkDecode_of_grants {bufferSize : Nat}
    (initialized : host.cryptoInitialized = true)
    (granted :
      alloc.neocGrants (decodeBufferSize (encodeText (checked host data))) =
        true)
    (granted' :
      alloc.neocGrants
          ((encodeText (checked host data)).strlen * 733 / 1000 + 1) =
        true)
    (room : data.length ≤ bufferSize) :
    checkDecode host alloc (encodeText (checked host data)) bufferSize =
      .ok data := by
  have length := @length_checked host data
  rcases @decodeBufferSize_checked host data with ⟨fits, bounded⟩
  have decoded :=
    decode_encodeText (checked host data) granted' (length.trans_le fits)
  have payload : (checked host data).take (data.length + 4 - 4) = data := by
    rw [Nat.add_sub_cancel, checked, List.take_left]
  have checksum :
      (checked host data).drop (data.length + 4 - 4) =
        (host.doubleDigest data).val.take 4 := by
    rw [Nat.add_sub_cancel, checked, List.drop_left, Host.doubleDigest]
  rw [checkDecode]
  dsimp only
  rw [if_neg (by omega), if_neg (by simp [granted]), decoded]
  simp only [bind, Except.bind]
  rw [length, if_neg (by omega), payload, checksum,
    Host.sha256Double_of_initialized initialized]
  dsimp only
  rw [if_neg (by simp), if_neg (by omega)]

/-- Into a buffer that is large enough the payload is decoded. -/
theorem checkDecode_encodeText {bufferSize : Nat}
    (initialized : host.cryptoInitialized = true)
    (serves :
      alloc.Serves ((encodeText (checked host data)).strlen + 1))
    (room : data.length ≤ bufferSize) :
    checkDecode host alloc (encodeText (checked host data)) bufferSize =
      .ok data := by
  rcases @decodeBufferSize_checked host data with ⟨fits, bounded⟩
  exact
    checkDecode_of_grants initialized (serves.neocGrants (by omega) bounded)
      (serves.neocGrants (by omega) (by omega)) room

/-- Decoding gives back the bytes that were encoded. -/
theorem checkDecodeAlloc_checkEncodeAlloc {text : CString}
    {alloc' : Allocator}
    (encoded : checkEncodeAlloc host alloc data = some text)
    (serves : alloc'.Serves (text.strlen + 1))
    (long : 4 ≤ data.length) :
    checkDecodeAlloc host alloc' text = some data := by
  rcases checkEncodeAlloc_eq_some encoded with ⟨rfl, initialized⟩
  rcases @decodeBufferSize_checked host data with ⟨fits, bounded⟩
  have granted :=
    @Allocator.Serves.neocGrants alloc' _
      (decodeBufferSize (encodeText (checked host data))) serves (by omega)
      bounded
  rw [checkDecodeAlloc, if_neg (by omega), if_neg (by simp [granted]),
    checkDecode_encodeText initialized serves (by omega)]
  dsimp only
  rw [if_neg (by omega)]

end Check

end Base58

/-! ## Script hashes and their addresses -/

namespace Hash160

variable {host : Host} {alloc : Allocator} {hash : Hash160}
  {bufferSize : Nat} {address : CString}

theorem toAddress_eq_ok
    (addressed : toAddress host alloc hash bufferSize = .ok address) :
    Base58.checkEncodeAlloc host alloc (addressVersion :: hash.val.reverse) =
      some address := by
  rw [toAddress] at addressed
  split at addressed
  · cases addressed
  · rename_i text encoded
    split at addressed
    · cases addressed
    · injection addressed with same
      rw [encoded, same]

/-- A hash has one address, whichever buffer it is written to. -/
theorem toAddress_unique {alloc' : Allocator} {bufferSize' : Nat}
    {address' : CString}
    (addressed : toAddress host alloc hash bufferSize = .ok address)
    (addressed' : toAddress host alloc' hash bufferSize' = .ok address') :
    address = address' := by
  have encoded := toAddress_eq_ok addressed
  have encoded' := toAddress_eq_ok addressed'
  rw [(Base58.checkEncodeAlloc_eq_some encoded).1,
    (Base58.checkEncodeAlloc_eq_some encoded').1]

/-- The payload of an address is the hash in little-endian order. -/
theorem checkDecodeAlloc_toAddress {alloc' : Allocator}
    (addressed : toAddress host alloc hash bufferSize = .ok address)
    (serves : alloc'.Serves (address.strlen + 1)) :
    Base58.checkDecodeAlloc host alloc' address =
      some (addressVersion :: toLittleEndianBytes hash) := by
  apply
    Base58.checkDecodeAlloc_checkEncodeAlloc (toAddress_eq_ok addressed)
      serves
  rw [List.length_cons, List.length_reverse, hash.property]
  decide

end Hash160

end NeoC
