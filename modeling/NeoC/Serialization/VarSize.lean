import NeoC.Serialization.RoundTrip

/-!
# The variable-length integers outside the reader and the writer

`utils/numeric.c` and `utils/neoc_bytes.c` each have an encoder and a decoder
of their own for the variable-length integers of the binary reader and writer.
They work on a buffer of the caller: the encoders store at its start, the
decoders look at its start and report how many bytes they used.

All encoders agree on all values.  The decoder of `neoc_bytes.c` assembles the
four-byte form in an `int`, and this is the one place where the codecs differ:
a top byte of `0x80` or more is shifted into the sign bit.
-/

namespace NeoC.VarSize

open Foundation Serialization

/-! ## The codecs -/

/-- The stores `buffer[0] = …; buffer[1] = …;` at the start of a buffer. -/
def storeFront (bytes : List UInt8) : Routine Buffer Unit :=
  fun buffer =>
    if bytes.length ≤ buffer.content.length then
      (.ok (), .items (bytes ++ buffer.content.drop bytes.length))
    else
      Call.halt .illegalAccess buffer

/-- `neoc_numeric_var_size`. -/
def numericVarSize (value : UInt64) : Nat :=
  if value < 0xFD then 1
  else if value ≤ 0xFFFF then 3
  else if value ≤ 0xFFFFFFFF then 5
  else 9

/-- The stores of `neoc_numeric_encode_var_size`. -/
def numericStores (value : UInt64) : Routine Buffer Unit :=
  if value < 0xFD then
    storeFront [value.toUInt8]
  else if value ≤ 0xFFFF then
    storeFront (0xFD :: LittleEndian.toBytes 2 value.toNat)
  else if value ≤ 0xFFFFFFFF then
    storeFront (0xFE :: LittleEndian.toBytes 4 value.toNat)
  else
    storeFront (0xFF :: LittleEndian.toBytes 8 value.toNat)

/-- `neoc_numeric_encode_var_size`: the number of bytes stored. -/
def numericEncodeVarSize (value : UInt64) : Routine Buffer Nat :=
  fun buffer =>
    match buffer with
    | .null _ =>
        errorSet .invalidArgument "var size encode: invalid arguments" buffer
    | .items content =>
        let needed := numericVarSize value
        if content.length < needed then
          errorSet .bufferTooSmall "var size encode: buffer too small" buffer
        else
          (do numericStores value; pure needed) buffer

/-- The bytes behind the marker, if there are enough of them. -/
def numericWord (content : List UInt8) (width : Nat) :
    Outcome (UInt64 × Nat) :=
  if content.length < 1 + width then
    .error (.error .invalidLength "var size decode: insufficient bytes")
  else
    let result := LittleEndian.ofBytes ((content.drop 1).take width)
    .ok (UInt64.ofNat result, 1 + width)

/-- `neoc_numeric_decode_var_size`: the value and the bytes consumed. -/
def numericDecodeVarSize (buffer : Buffer) : Outcome (UInt64 × Nat) :=
  match buffer with
  | .null _ =>
      .error (.error .invalidArgument "var size decode: invalid arguments")
  | .items [] =>
      .error (.error .invalidLength "var size decode: empty buffer")
  | .items (marker :: rest) =>
      if marker < 0xFD then
        .ok (marker.toUInt64, 1)
      else if marker = 0xFD then
        numericWord (marker :: rest) 2
      else if marker = 0xFE then
        numericWord (marker :: rest) 4
      else
        numericWord (marker :: rest) 8

/-- A branch of `neoc_bytes_encode_var_size`. -/
def bytesStores (bytes : List UInt8) : Routine Buffer Nat :=
  fun buffer =>
    if buffer.len < bytes.length then
      errorSet .bufferTooSmall "" buffer
    else
      (do storeFront bytes; pure bytes.length) buffer

/-- `neoc_bytes_encode_var_size`: the number of bytes written. -/
def bytesEncodeVarSize (value : UInt64) : Routine Buffer Nat :=
  fun buffer =>
    match buffer with
    | .null _ => errorSet .nullPointer "" buffer
    | .items _ =>
        if value < 0xFD then
          bytesStores [value.toUInt8] buffer
        else if value ≤ 0xFFFF then
          bytesStores (0xFD :: LittleEndian.toBytes 2 value.toNat) buffer
        else if value ≤ 0xFFFFFFFF then
          bytesStores (0xFE :: LittleEndian.toBytes 4 value.toNat) buffer
        else
          bytesStores (0xFF :: LittleEndian.toBytes 8 value.toNat) buffer

/--
`buffer[1] | (buffer[2] << 8) | …` with bytes that are promoted to `int`.  From
four bytes on the last shift can leave the type.
-/
def intWord (bytes : List UInt8) : Outcome UInt64 :=
  if LittleEndian.ofBytes bytes < 0x80000000 then
    .ok (UInt64.ofNat (LittleEndian.ofBytes bytes))
  else
    .error .signedOverflow

/-- The same with bytes that are cast to `size_t` first. -/
def sizeWord (bytes : List UInt8) : Outcome UInt64 :=
  .ok (UInt64.ofNat (LittleEndian.ofBytes bytes))

/-- A branch of `neoc_bytes_decode_var_size`. -/
def bytesWord (assemble : List UInt8 → Outcome UInt64)
    (content : List UInt8) (width : Nat) : Outcome (UInt64 × Nat) :=
  if content.length < 1 + width then
    .error (.error .bufferTooSmall "")
  else do
    let value ← assemble ((content.drop 1).take width)
    .ok (value, 1 + width)

/-- `neoc_bytes_decode_var_size`: the value and the bytes read. -/
def bytesDecodeVarSize (buffer : Buffer) : Outcome (UInt64 × Nat) :=
  match buffer with
  | .null _ => .error (.error .nullPointer "")
  | .items [] => .error (.error .bufferTooSmall "")
  | .items (first :: rest) =>
      if first < 0xFD then
        .ok (first.toUInt64, 1)
      else if first = 0xFD then
        bytesWord intWord (first :: rest) 2
      else if first = 0xFE then
        bytesWord intWord (first :: rest) 4
      else
        bytesWord sizeWord (first :: rest) 8

/-! ## The encoders -/

theorem storeFront_run {bytes content : List UInt8}
    (room : bytes.length ≤ content.length) :
    storeFront bytes (.items content) =
      (.ok (), .items (bytes ++ content.drop bytes.length)) :=
  if_pos room

theorem bytesStores_run {bytes content : List UInt8}
    (room : bytes.length ≤ content.length) :
    bytesStores bytes (.items content) =
      (.ok bytes.length,
        .items (bytes ++ content.drop bytes.length)) := by
  have enough : ¬(Slice.items content).len < bytes.length :=
    Nat.not_lt_of_le room
  rw [bytesStores, if_neg enough, Call.bind_of_ok (storeFront_run room)]
  rfl

section Bounds

variable (value : UInt64)

theorem lt_marker_iff : value < 0xFD ↔ value.toNat < 0xFD :=
  UInt64.lt_iff_toNat_lt

theorem le_two_bytes_iff : value ≤ 0xFFFF ↔ value.toNat ≤ 0xFFFF :=
  UInt64.le_iff_toNat_le

theorem le_four_bytes_iff : value ≤ 0xFFFFFFFF ↔ value.toNat ≤ 0xFFFFFFFF :=
  UInt64.le_iff_toNat_le

end Bounds

theorem numericVarSize_eq (value : UInt64) :
    numericVarSize value = (VarInt.encode value.toNat).length := by
  simp only [numericVarSize, VarInt.length_encode, lt_marker_iff,
    le_two_bytes_iff, le_four_bytes_iff]

/-- A value below the marker bytes is its own encoding. -/
theorem toBytes_one {value : UInt64} (small : value.toNat < 0xFD) :
    LittleEndian.toBytes 1 value.toNat = [value.toUInt8] := by
  rw [LittleEndian.toBytes, Nat.mod_eq_of_lt (by omega),
    UInt8.ofNat_uInt64ToNat, LittleEndian.toBytes]

theorem numericStores_eq (value : UInt64) :
    numericStores value = storeFront (VarInt.encode value.toNat) := by
  simp only [numericStores, VarInt.encode, lt_marker_iff, le_two_bytes_iff,
    le_four_bytes_iff]
  split_ifs with one
  · rw [toBytes_one one]
  all_goals rfl

theorem bytesEncodeVarSize_eq (value : UInt64) (content : List UInt8) :
    bytesEncodeVarSize value (.items content) =
      bytesStores (VarInt.encode value.toNat) (.items content) := by
  simp only [bytesEncodeVarSize, VarInt.encode, lt_marker_iff,
    le_two_bytes_iff, le_four_bytes_iff]
  split_ifs with one
  · rw [toBytes_one one]
  all_goals rfl

theorem numericEncodeVarSize_run {value : UInt64} {content : List UInt8}
    (room : (VarInt.encode value.toNat).length ≤ content.length) :
    numericEncodeVarSize value (.items content) =
      (.ok (VarInt.encode value.toNat).length,
        .items
          (VarInt.encode value.toNat ++
            content.drop (VarInt.encode value.toNat).length)) := by
  have enough : ¬content.length < (VarInt.encode value.toNat).length :=
    Nat.not_lt_of_le room
  simp only [numericEncodeVarSize, numericVarSize_eq, if_neg enough,
    numericStores_eq]
  rw [Call.bind_of_ok (storeFront_run room)]
  rfl

theorem bytesEncodeVarSize_run {value : UInt64} {content : List UInt8}
    (room : (VarInt.encode value.toNat).length ≤ content.length) :
    bytesEncodeVarSize value (.items content) =
      (.ok (VarInt.encode value.toNat).length,
        .items
          (VarInt.encode value.toNat ++
            content.drop (VarInt.encode value.toNat).length)) :=
  (bytesEncodeVarSize_eq value content).trans (bytesStores_run room)

/-! ## The decoders -/

/-- The bytes behind the marker of a word that was written there. -/
theorem take_word (marker : UInt8) (width value : Nat)
    (suffix : List UInt8) :
    (((marker :: LittleEndian.toBytes width value) ++ suffix).drop 1).take
        width =
      LittleEndian.toBytes width value := by
  rw [List.cons_append, List.drop_one, List.tail_cons,
    List.take_left' (LittleEndian.length_toBytes width value)]

theorem length_word_le (marker : UInt8) (width value : Nat)
    (suffix : List UInt8) :
    ¬((marker :: LittleEndian.toBytes width value) ++ suffix).length <
        1 + width := by
  rw [List.length_append, List.length_cons, LittleEndian.length_toBytes]
  omega

theorem numericWord_toBytes (marker : UInt8) {width : Nat} {value : UInt64}
    (fits : value.toNat < 256 ^ width) (suffix : List UInt8) :
    numericWord
        ((marker :: LittleEndian.toBytes width value.toNat) ++ suffix)
        width =
      .ok (value, 1 + width) := by
  rw [numericWord, if_neg (length_word_le _ _ _ _)]
  dsimp only
  rw [take_word, LittleEndian.ofBytes_toBytes_of_lt fits,
    UInt64.ofNat_toNat]

theorem bytesWord_toBytes (assemble : List UInt8 → Outcome UInt64)
    (marker : UInt8) (width value : Nat) (suffix : List UInt8) :
    bytesWord assemble
        ((marker :: LittleEndian.toBytes width value) ++ suffix) width =
      (assemble (LittleEndian.toBytes width value) >>= fun result =>
        .ok (result, 1 + width)) := by
  rw [bytesWord, if_neg (length_word_le _ _ _ _), take_word]

theorem intWord_toBytes {width : Nat} {value : UInt64}
    (fits : value.toNat < 256 ^ width) :
    intWord (LittleEndian.toBytes width value.toNat) =
      if value.toNat < 0x80000000 then .ok value
      else .error .signedOverflow := by
  rw [intWord, LittleEndian.ofBytes_toBytes_of_lt fits, UInt64.ofNat_toNat]

theorem toUInt8_lt_marker {value : UInt64} (small : value.toNat < 0xFD) :
    value.toUInt8 < 0xFD := by
  rw [UInt8.lt_iff_toNat_lt, UInt64.toNat_toUInt8, Nat.mod_eq_of_lt]
  · exact small
  · omega

theorem toUInt64_toUInt8 {value : UInt64} (small : value.toNat < 0xFD) :
    value.toUInt8.toUInt64 = value := by
  apply UInt64.toNat_inj.mp
  rw [UInt8.toNat_toUInt64, UInt64.toNat_toUInt8]
  exact Nat.mod_eq_of_lt (by omega)

theorem numericDecodeVarSize_encode (value : UInt64)
    (suffix : List UInt8) :
    numericDecodeVarSize (.items (VarInt.encode value.toNat ++ suffix)) =
      .ok (value, (VarInt.encode value.toNat).length) := by
  have bounded := value.toNat_lt
  rw [VarInt.length_encode]
  unfold VarInt.encode
  split_ifs with one two four
  · rw [toBytes_one one, List.singleton_append, numericDecodeVarSize,
      if_pos (toUInt8_lt_marker one), toUInt64_toUInt8 one]
  · rw [List.cons_append, numericDecodeVarSize, if_neg (by decide),
      if_pos rfl]
    exact numericWord_toBytes 0xFD (by omega) suffix
  · rw [List.cons_append, numericDecodeVarSize, if_neg (by decide),
      if_neg (by decide), if_pos rfl]
    exact numericWord_toBytes 0xFE (by omega) suffix
  · rw [List.cons_append, numericDecodeVarSize, if_neg (by decide),
      if_neg (by decide), if_neg (by decide)]
    exact numericWord_toBytes 0xFF (by omega) suffix

theorem bytesDecodeVarSize_two (value : Nat) (suffix : List UInt8) :
    bytesDecodeVarSize
        (.items ((0xFD :: LittleEndian.toBytes 2 value) ++ suffix)) =
      (intWord (LittleEndian.toBytes 2 value) >>= fun result =>
        .ok (result, 3)) := by
  rw [List.cons_append, bytesDecodeVarSize, if_neg (by decide), if_pos rfl]
  exact bytesWord_toBytes intWord 0xFD 2 value suffix

theorem bytesDecodeVarSize_four (value : Nat) (suffix : List UInt8) :
    bytesDecodeVarSize
        (.items ((0xFE :: LittleEndian.toBytes 4 value) ++ suffix)) =
      (intWord (LittleEndian.toBytes 4 value) >>= fun result =>
        .ok (result, 5)) := by
  rw [List.cons_append, bytesDecodeVarSize, if_neg (by decide),
    if_neg (by decide), if_pos rfl]
  exact bytesWord_toBytes intWord 0xFE 4 value suffix

theorem bytesDecodeVarSize_eight (value : Nat) (suffix : List UInt8) :
    bytesDecodeVarSize
        (.items ((0xFF :: LittleEndian.toBytes 8 value) ++ suffix)) =
      (sizeWord (LittleEndian.toBytes 8 value) >>= fun result =>
        .ok (result, 9)) := by
  rw [List.cons_append, bytesDecodeVarSize, if_neg (by decide),
    if_neg (by decide), if_neg (by decide)]
  exact bytesWord_toBytes sizeWord 0xFF 8 value suffix

/-- The form that takes four bytes is the only one that can overflow. -/
theorem bytesDecodeVarSize_encode (value : UInt64) (suffix : List UInt8) :
    bytesDecodeVarSize (.items (VarInt.encode value.toNat ++ suffix)) =
      if value.toNat < 0x80000000 ∨ 0x100000000 ≤ value.toNat then
        .ok (value, (VarInt.encode value.toNat).length)
      else
        .error .signedOverflow := by
  have bounded := value.toNat_lt
  rw [VarInt.length_encode]
  unfold VarInt.encode
  by_cases one : value.toNat < 0xFD
  · rw [if_pos one, if_pos one, if_pos (.inl (by omega)), toBytes_one one,
      List.singleton_append, bytesDecodeVarSize,
      if_pos (toUInt8_lt_marker one), toUInt64_toUInt8 one]
  rw [if_neg one, if_neg one]
  by_cases two : value.toNat ≤ 0xFFFF
  · rw [if_pos two, if_pos two, if_pos (.inl (by omega)),
      bytesDecodeVarSize_two, intWord_toBytes (by omega),
      if_pos (by omega)]
    rfl
  rw [if_neg two, if_neg two]
  by_cases four : value.toNat ≤ 0xFFFFFFFF
  · rw [if_pos four, if_pos four, bytesDecodeVarSize_four,
      intWord_toBytes (by omega)]
    by_cases small : value.toNat < 0x80000000
    · rw [if_pos small, if_pos (.inl small)]
      rfl
    · rw [if_neg small, if_neg (by omega)]
      rfl
  · rw [if_neg four, if_neg four, if_pos (.inr (by omega)),
      bytesDecodeVarSize_eight, sizeWord,
      LittleEndian.ofBytes_toBytes_of_lt (by omega), UInt64.ofNat_toNat]
    rfl

/-! ## The codecs are interchangeable -/

/--
All encoders produce one sequence of bytes for the value, and every decoder
takes that sequence, whatever follows it, for the value.
-/
structure Encodes (value : UInt64) (bytes : List UInt8) : Prop where
  length : bytes.length = numericVarSize value
  writer : ∀ alloc,
    BinaryWriter.Emits alloc (BinaryWriter.writeVarInt alloc value) bytes
  numericEncode : ∀ content : List UInt8,
    bytes.length ≤ content.length →
      numericEncodeVarSize value (.items content) =
        (.ok bytes.length, .items (bytes ++ content.drop bytes.length))
  bytesEncode : ∀ content : List UInt8,
    bytes.length ≤ content.length →
      bytesEncodeVarSize value (.items content) =
        (.ok bytes.length, .items (bytes ++ content.drop bytes.length))
  reader : Reads BinaryReader.readVarInt bytes value
  numericDecode : ∀ suffix,
    numericDecodeVarSize (.items (bytes ++ suffix)) =
      .ok (value, bytes.length)
  bytesDecode : ∀ suffix,
    bytesDecodeVarSize (.items (bytes ++ suffix)) =
      .ok (value, bytes.length)

/-- The codecs agree on a value. -/
def Interchangeable (value : UInt64) : Prop :=
  ∃ bytes, Encodes value bytes

/-- A buffer of the right size receives the encoding and nothing else. -/
theorem Encodes.eq_encode {value : UInt64} {bytes : List UInt8}
    (encodes : Encodes value bytes) :
    bytes = VarInt.encode value.toNat := by
  have length : bytes.length = (VarInt.encode value.toNat).length := by
    rw [encodes.length, numericVarSize_eq]
  have stored := encodes.numericEncode bytes le_rfl
  rw [numericEncodeVarSize_run length.ge, List.drop_length,
    List.append_nil, ← length, List.drop_length, List.append_nil] at stored
  injection stored with _ same
  injection same with same
  exact same.symm

/--
The codecs are interchangeable on every value except those that take four
bytes with the top bit set.
-/
theorem interchangeable_iff (value : UInt64) :
    Interchangeable value ↔
      value.toNat < 0x80000000 ∨ 0x100000000 ≤ value.toNat := by
  constructor
  · rintro ⟨bytes, encodes⟩
    have decoded := encodes.bytesDecode []
    rw [encodes.eq_encode, bytesDecodeVarSize_encode] at decoded
    by_contra outside
    rw [if_neg outside] at decoded
    cases decoded
  · intro inside
    refine ⟨VarInt.encode value.toNat, ?_⟩
    exact
      { length := (numericVarSize_eq value).symm
        writer := fun _ => BinaryWriter.writeVarInt_emits value
        numericEncode := fun _ room => numericEncodeVarSize_run room
        bytesEncode := fun _ room => bytesEncodeVarSize_run room
        reader := reads_readVarInt value
        numericDecode := numericDecodeVarSize_encode value
        bytesDecode := by
          intro suffix
          rw [bytesDecodeVarSize_encode, if_pos inside] }

/-- The least value that the decoder of `neoc_bytes.c` cannot assemble. -/
theorem not_interchangeable_signBit : ¬Interchangeable 0x80000000 := by
  rintro ⟨bytes, encodes⟩
  have decoded := encodes.bytesDecode []
  rw [encodes.eq_encode] at decoded
  have failed :
      bytesDecodeVarSize
          (.items (VarInt.encode (0x80000000 : UInt64).toNat ++ [])) =
        .error .signedOverflow := by
    decide +kernel
  rw [failed] at decoded
  cases decoded

end NeoC.VarSize
