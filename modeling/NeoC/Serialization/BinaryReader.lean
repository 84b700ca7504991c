import NeoC.Foundation.LittleEndian
import NeoC.Foundation.Run
import NeoC.Runtime.Memory

/-!
# The binary reader

A reader owns a copy of the bytes it was created from and a position in them.
The bounds checks are written as the source writes them, with a `size_t`
addition that wraps.  A load outside the data halts with `illegalAccess`, so
that no read past the end can pass unnoticed.

Every read operation moves forward or stays, and reads only inside the data,
as long as the lengths it asks for are lengths of objects.  This is `Forward`,
and it composes along sequencing.  Two operations hand a length of the caller
to the wrapping check unseen, `readBytes` and `skip`; what they need is stated
by `Operation.Guarded`, and the last section shows that it is exactly what the
safety of a run depends on.
-/

namespace NeoC

open Foundation

/--
A `neoc_binary_reader_t`.  The data is a list of exactly `size` bytes, and the
marker is `SIZE_MAX` as long as none is set.
-/
structure BinaryReader where
  data : List UInt8
  position : Nat
  marker : Nat
deriving DecidableEq, Repr

namespace BinaryReader

/-- The number of bytes in the reader. -/
def size (reader : BinaryReader) : Nat :=
  reader.data.length

/-- `sizeof(neoc_binary_reader_t)`. -/
def structSize : Nat := 40

/-! ## Loads -/

/-- Read bytes at the position. -/
def load (count : Nat) : Routine BinaryReader (List UInt8) :=
  fun reader =>
    if reader.position + count ≤ reader.size then
      (.ok ((reader.data.drop reader.position).take count), reader)
    else
      Call.halt .illegalAccess reader

/-- `reader->position += count;` -/
def advance (count : Nat) : Routine BinaryReader Unit :=
  Call.update fun reader =>
    { reader with position := sizeAdd reader.position count }

/-- Read bytes at the position and move past them. -/
def take (count : Nat) : Routine BinaryReader (List UInt8) := do
  let bytes ← load count
  advance count
  pure bytes

/-- `if (reader->position + count > reader->size) return error;` -/
def require (count : Nat) (text : String) : Routine BinaryReader Unit :=
  fun reader =>
    if sizeAdd reader.position count > reader.size then
      errorSet .endOfStream text reader
    else
      (.ok (), reader)

/-- `malloc` of a number of bytes. -/
def malloc (alloc : Allocator) (count : Nat) (text : String) :
    Routine BinaryReader Unit :=
  if alloc.grants count then pure () else errorSet .outOfMemory text

/-! ## The operations -/

/-- `neoc_binary_reader_create`. -/
def create (alloc : Allocator) (data : List UInt8) : Outcome BinaryReader :=
  if alloc.grants structSize = false then
    .error (.error .outOfMemory "Failed to allocate binary reader")
  else if alloc.grants data.length = false then
    .error (.error .outOfMemory "Failed to allocate reader buffer")
  else
    .ok { data, position := 0, marker := sizeMax }

/-- `neoc_binary_reader_read_byte`. -/
def readByte : Routine BinaryReader UInt8 :=
  fun reader =>
    if reader.position ≥ reader.size then
      errorSet .endOfStream "End of stream reached" reader
    else
      (do let bytes ← take 1; pure (bytes.headD 0)) reader

/-- `neoc_binary_reader_read_bytes`. -/
def readBytes (len : Nat) : Routine BinaryReader (List UInt8) :=
  if len = 0 then
    pure []
  else do
    require len "Not enough data to read"
    take len

/-- `neoc_binary_reader_read_bool`. -/
def readBool : Routine BinaryReader Bool := do
  let byteVal ← readByte
  pure (byteVal != 0)

/-- The little-endian loads shared by the fixed-width integer reads. -/
def readWord (width : Nat) (text : String) : Routine BinaryReader Nat := do
  require width text
  let bytes ← take width
  pure (LittleEndian.ofBytes bytes)

/-- `neoc_binary_reader_read_uint16`. -/
def readUint16 : Routine BinaryReader UInt16 := do
  let value ← readWord 2 "Not enough data to read uint16"
  pure (UInt16.ofNat value)

/-- `neoc_binary_reader_read_uint32`. -/
def readUint32 : Routine BinaryReader UInt32 := do
  let value ← readWord 4 "Not enough data to read uint32"
  pure (UInt32.ofNat value)

/-- `neoc_binary_reader_read_uint64`. -/
def readUint64 : Routine BinaryReader UInt64 := do
  let value ← readWord 8 "Not enough data to read uint64"
  pure (UInt64.ofNat value)

/-- `neoc_binary_reader_read_int16`. -/
def readInt16 : Routine BinaryReader Int16 := do
  let value ← readUint16
  pure value.toInt16

/-- `neoc_binary_reader_read_int32`. -/
def readInt32 : Routine BinaryReader Int32 := do
  let value ← readUint32
  pure value.toInt32

/-- `neoc_binary_reader_read_int64`. -/
def readInt64 : Routine BinaryReader Int64 := do
  let value ← readUint64
  pure value.toInt64

/-- `neoc_binary_reader_read_var_int`. -/
def readVarInt : Routine BinaryReader UInt64 := do
  let marker ← readByte
  if marker < 0xFD then
    pure marker.toUInt64
  else if marker = 0xFD then do
    let val ← readUint16
    pure val.toUInt64
  else if marker = 0xFE then do
    let val ← readUint32
    pure val.toUInt64
  else
    readUint64

/--
`neoc_binary_reader_read_var_bytes`.  The comparison of the length with
`SIZE_MAX` is never true on a 64-bit host and is left out.
-/
def readVarBytes (alloc : Allocator) : Routine BinaryReader Buffer := do
  let length ← readVarInt
  if length.toNat = 0 then
    pure (.null 0)
  else do
    malloc alloc length.toNat "Failed to allocate data buffer"
    let data ← readBytes length.toNat
    pure (.items data)

/-- `neoc_binary_reader_read_var_string`. -/
def readVarString (alloc : Allocator) : Routine BinaryReader CString := do
  let data ← readVarBytes alloc
  if data.len = 0 then do
    malloc alloc 1 "Failed to allocate empty string"
    pure (CString.ofBuffer [])
  else do
    malloc alloc (sizeAdd data.len 1) "Failed to allocate string"
    pure (CString.ofBuffer data.content)

/-- `neoc_binary_reader_get_position`. -/
def getPosition (reader : BinaryReader) : Nat :=
  reader.position

/-- `neoc_binary_reader_get_remaining`. -/
def getRemaining (reader : BinaryReader) : Nat :=
  if reader.position ≥ reader.size then 0
  else reader.size - reader.position

/-- `neoc_binary_reader_is_at_end`. -/
def isAtEnd (reader : BinaryReader) : Bool :=
  decide (reader.position ≥ reader.size)

/-- `neoc_binary_reader_seek`. -/
def seek (position : Nat) : Routine BinaryReader Unit :=
  fun reader =>
    if position > reader.size then
      errorSet .invalidArgument "Position beyond data size" reader
    else
      (.ok (), { reader with position })

/-- `neoc_binary_reader_skip`. -/
def skip (count : Nat) : Routine BinaryReader Unit := do
  require count "Not enough data to skip"
  advance count

/-- `neoc_binary_reader_mark`. -/
def mark : Routine BinaryReader Unit :=
  Call.update fun reader => { reader with marker := reader.position }

/-- `neoc_binary_reader_reset`. -/
def reset : Routine BinaryReader Unit :=
  fun reader =>
    if reader.marker = sizeMax then
      errorSet .invalidState "No marker set" reader
    else
      (.ok (), { reader with position := reader.marker })

/-- `neoc_binary_reader_read_encoded_ec_point`. -/
def readEncodedEcPoint (alloc : Allocator) :
    Routine BinaryReader (List UInt8) := do
  let byte ← readByte
  if byte = 0x02 ∨ byte = 0x03 then do
    malloc alloc 33 "Failed to allocate EC point data"
    let rest ← readBytes 32
    pure (byte :: rest)
  else
    errorSet .invalidFormat "Invalid EC point encoding"

/-- The length that follows a `PUSHDATA` opcode. -/
def readPushSize (byte : UInt8) : Routine BinaryReader Nat :=
  if byte = 0x0C then do
    let size8 ← readByte
    pure size8.toNat
  else if byte = 0x0D then do
    let size16 ← readUint16
    pure size16.toNat
  else if byte = 0x0E then do
    let size32 ← readUint32
    pure size32.toNat
  else
    errorSet .invalidFormat "Not a PUSHDATA opcode"

/-- The allocation and copy at the end of the length-prefixed reads. -/
def readSized (alloc : Allocator) (size : Nat) :
    Routine BinaryReader (List UInt8) :=
  if size = 0 then do
    malloc alloc 1 "Failed to allocate empty buffer"
    pure []
  else do
    malloc alloc size "Failed to allocate buffer"
    readBytes size

/-- `neoc_binary_reader_read_push_data`. -/
def readPushData (alloc : Allocator) : Routine BinaryReader (List UInt8) := do
  let byte ← readByte
  let size ← readPushSize byte
  readSized alloc size

/-- `neoc_binary_reader_read_var_bytes_max`. -/
def readVarBytesMax (alloc : Allocator) (maxLength : Nat) :
    Routine BinaryReader (List UInt8) := do
  let length ← readVarInt
  if length.toNat > maxLength then
    errorSet .invalidFormat "Length exceeds maximum"
  else
    readSized alloc length.toNat

/-- `neoc_binary_reader_read_var_int_max`. -/
def readVarIntMax (maxValue : UInt64) : Routine BinaryReader UInt64 := do
  let value ← readVarInt
  if value > maxValue then
    errorSet .invalidFormat "Value exceeds maximum"
  else
    pure value

/-- `neoc_binary_reader_read_push_string`. -/
def readPushString (alloc : Allocator) : Routine BinaryReader CString := do
  let data ← readPushData alloc
  malloc alloc (sizeAdd data.length 1) "Failed to allocate string"
  pure (CString.ofBuffer data)

/-- The number of bytes that follow a `PUSHINT` opcode. -/
def pushIntCount (byte : UInt8) : Option Nat :=
  if byte = 0x00 then some 1
  else if byte = 0x01 then some 2
  else if byte = 0x02 then some 4
  else if byte = 0x03 then some 8
  else if byte = 0x04 then some 16
  else if byte = 0x05 then some 32
  else none

/-- `neoc_binary_reader_read_push_big_int`: the magnitude and its sign. -/
def readPushBigInt (alloc : Allocator) :
    Routine BinaryReader (Buffer × Bool) := do
  let byte ← readByte
  if byte = 0x10 then
    pure (.null 0, false)
  else if 0x11 ≤ byte ∧ byte ≤ 0x20 then do
    malloc alloc 4 "Failed to allocate integer data"
    pure (.items (LittleEndian.toBytes 4 (byte.toNat - 0x10)), false)
  else if byte = 0x0F then do
    malloc alloc 4 "Failed to allocate integer data"
    pure (.items (LittleEndian.toBytes 4 1), true)
  else
    match pushIntCount byte with
    | none => errorSet .invalidFormat "Not a PUSHINT opcode"
    | some count => do
        malloc alloc count "Failed to allocate integer data"
        let data ← readBytes count
        pure (.items data, decide (0x80 ≤ data.getLastD 0))

/-- `neoc_binary_reader_read_push_int`. -/
def readPushInt (alloc : Allocator) : Routine BinaryReader Int32 := do
  let (data, isNegative) ← readPushBigInt alloc
  if data.len > 4 then
    errorSet .invalidFormat "Integer too large for 32-bit"
  else
    let result := UInt32.ofNat (LittleEndian.ofBytes data.content)
    if isNegative then
      -- `-(int32_t)result` leaves the type at its least value
      if result = 0x80000000 then Call.halt .signedOverflow
      else pure (-result.toInt32)
    else
      pure result.toInt32

/-! ## Well-formed readers -/

/-- What `create` establishes and every safe operation keeps. -/
structure WellFormed (reader : BinaryReader) : Prop where
  position_le : reader.position ≤ reader.data.length
  length_le : reader.data.length ≤ ptrdiffMax
  marker_le : reader.marker = sizeMax ∨ reader.marker ≤ reader.data.length

theorem create_eq_ok
    {alloc : Allocator} {data : List UInt8} {reader : BinaryReader}
    (created : create alloc data = .ok reader) :
    reader = { data, position := 0, marker := sizeMax } ∧
      reader.WellFormed := by
  unfold create at created
  split at created
  · cases created
  · split at created
    · cases created
    · rename_i granted
      injection created with built
      subst built
      have bounded :=
        alloc.grants_le _ (Bool.eq_true_of_not_eq_false granted)
      exact ⟨rfl, ⟨Nat.zero_le _, bounded, .inl rfl⟩⟩

theorem create_succeeds {alloc : Allocator} {data : List UInt8}
    (serves : alloc.Serves (max data.length structSize)) :
    create alloc data =
      .ok { data, position := 0, marker := sizeMax } := by
  have header : alloc.grants structSize = true :=
    serves _ (le_max_right _ _)
  have body : alloc.grants data.length = true :=
    serves _ (le_max_left _ _)
  simp only [create, header, body, Bool.true_eq_false, if_false]

/-! ## Moving forward inside the data -/

/-- The state after a call compared with the state before it. -/
structure Moves (before after : BinaryReader) : Prop where
  data_eq : after.data = before.data
  marker_eq : after.marker = before.marker
  position_ge : before.position ≤ after.position
  position_le : after.position ≤ after.data.length

/-- A call that only moves forward and never loads outside the data. -/
def Forward {α : Type} (call : Routine BinaryReader α) : Prop :=
  ∀ reader : BinaryReader,
    reader.WellFormed →
      Moves reader (call reader).2 ∧
        (call reader).1 ≠ .error .illegalAccess

theorem Moves.refl {reader : BinaryReader}
    (wellFormed : reader.WellFormed) :
    Moves reader reader :=
  ⟨rfl, rfl, le_rfl, wellFormed.position_le⟩

theorem Moves.trans {first second third : BinaryReader}
    (head : Moves first second) (tail : Moves second third) :
    Moves first third :=
  ⟨tail.data_eq.trans head.data_eq, tail.marker_eq.trans head.marker_eq,
    head.position_ge.trans tail.position_ge, tail.position_le⟩

theorem Moves.wellFormed {before after : BinaryReader}
    (moves : Moves before after) (wellFormed : before.WellFormed) :
    after.WellFormed := by
  refine ⟨moves.position_le, ?_, ?_⟩
  · rw [moves.data_eq]
    exact wellFormed.length_le
  · rw [moves.data_eq, moves.marker_eq]
    exact wellFormed.marker_le

variable {α β : Type}

theorem forward_pure (value : α) :
    Forward (pure value : Routine BinaryReader α) := by
  intro reader wellFormed
  exact ⟨Moves.refl wellFormed, by simp⟩

theorem forward_halt {reason : Halt} (legal : reason ≠ .illegalAccess) :
    Forward (Call.halt reason : Routine BinaryReader α) := by
  intro reader wellFormed
  exact ⟨Moves.refl wellFormed, by simpa using legal⟩

theorem forward_error (code : ErrorCode) (text : String) :
    Forward (errorSet code text : Routine BinaryReader α) :=
  forward_halt (by simp)

theorem Forward.bind {first : Routine BinaryReader α}
    {next : α → Routine BinaryReader β}
    (head : Forward first) (tail : ∀ value, Forward (next value)) :
    Forward (first >>= next) := by
  intro reader wellFormed
  obtain ⟨moves, legal⟩ := head reader wellFormed
  rcases ran : first reader with ⟨reason | value, between⟩
  · rw [Call.bind_of_error ran]
    rw [ran] at moves legal
    exact ⟨moves, fun equal => legal (by simpa using equal)⟩
  · rw [Call.bind_of_ok ran]
    rw [ran] at moves
    obtain ⟨moves', legal'⟩ := tail value between (moves.wellFormed wellFormed)
    exact ⟨moves.trans moves', legal'⟩

theorem forward_ite {condition : Prop} [Decidable condition]
    {first second : Routine BinaryReader α}
    (yes : condition → Forward first) (no : ¬condition → Forward second) :
    Forward (if condition then first else second) := by
  split
  · exact yes ‹_›
  · exact no ‹_›

theorem forward_malloc (alloc : Allocator) (count : Nat) (text : String) :
    Forward (malloc alloc count text) :=
  forward_ite (fun _ => forward_pure ()) fun _ => forward_error _ _

/-- What can be allocated is small enough for the check not to wrap. -/
theorem Forward.after_malloc {alloc : Allocator} {count : Nat}
    {text : String} {next : Routine BinaryReader α}
    (tail : count ≤ ptrdiffMax → Forward next) :
    Forward (malloc alloc count text >>= fun _ => next) := by
  unfold malloc
  split
  · rename_i granted
    exact tail (alloc.grants_le count granted)
  · exact forward_error _ _

/-! ## Taking bytes -/

theorem take_run {reader : BinaryReader} {count : Nat}
    (wellFormed : reader.WellFormed)
    (inside : reader.position + count ≤ reader.data.length) :
    take count reader =
      (.ok ((reader.data.drop reader.position).take count),
        { reader with position := reader.position + count }) := by
  have noWrap :
      sizeAdd reader.position count = reader.position + count := by
    have bounded := wellFormed.length_le
    apply sizeAdd_of_lt
    simp only [ptrdiffMax] at bounded
    simp only [sizeModulus]
    omega
  have loaded :
      load count reader =
        (.ok ((reader.data.drop reader.position).take count), reader) :=
    if_pos inside
  unfold take
  rw [Call.bind_of_ok loaded, ← noWrap]
  rfl

theorem require_run_of_le {reader : BinaryReader} {count : Nat}
    (text : String) (wellFormed : reader.WellFormed)
    (inside : reader.position + count ≤ reader.data.length) :
    require count text reader = (.ok (), reader) := by
  have bounded := wellFormed.length_le
  have within :
      ¬sizeAdd reader.position count > reader.size := by
    have reduced := Nat.mod_le (reader.position + count) sizeModulus
    simp only [sizeAdd, size]
    omega
  exact if_neg within

/-- The check refuses what lies outside, unless the sum wraps around. -/
theorem require_run_of_gt {reader : BinaryReader} {count : Nat}
    (text : String) (wellFormed : reader.WellFormed)
    (word : count < sizeModulus)
    (outside : reader.data.length < reader.position + count)
    (guarded :
      reader.position + count < sizeModulus ∨
        reader.size + sizeModulus < reader.position + count) :
    require count text reader =
      (.error (.error .endOfStream text), reader) := by
  have beyond : sizeAdd reader.position count > reader.size := by
    have within := wellFormed.position_le
    have bounded := wellFormed.length_le
    simp only [sizeAdd, size, sizeModulus, ptrdiffMax] at *
    omega
  exact if_pos beyond

/-- A sum that wraps to a position inside the data passes the check. -/
theorem require_run_of_wrap {reader : BinaryReader} {count : Nat}
    (text : String) (wellFormed : reader.WellFormed)
    (wraps : sizeModulus ≤ reader.position + count)
    (passes : reader.position + count ≤ reader.size + sizeModulus) :
    require count text reader = (.ok (), reader) := by
  have within : ¬sizeAdd reader.position count > reader.size := by
    have inside := wellFormed.position_le
    have bounded := wellFormed.length_le
    simp only [sizeAdd, size, sizeModulus, ptrdiffMax] at *
    omega
  exact if_neg within

/-- A checked read of a length that cannot wrap. -/
theorem forward_require_take {count : Nat} {text : String}
    (small : count ≤ ptrdiffMax) :
    Forward (require count text >>= fun _ => take count) := by
  intro reader wellFormed
  have bounded := wellFormed.length_le
  have within := wellFormed.position_le
  by_cases inside : reader.position + count ≤ reader.data.length
  · rw [Call.bind_of_ok (require_run_of_le text wellFormed inside),
      take_run wellFormed inside]
    refine ⟨⟨rfl, rfl, ?_, inside⟩, by simp⟩
    exact Nat.le_add_right _ _
  · have noWrap : reader.position + count < sizeModulus := by
      simp only [ptrdiffMax] at small bounded
      simp only [sizeModulus]
      omega
    have refused :=
      require_run_of_gt text wellFormed (by omega)
        (Nat.lt_of_not_le inside) (.inl noWrap)
    rw [Call.bind_of_error refused]
    exact ⟨Moves.refl wellFormed, by simp⟩

/-- Only the last of the three markers is left. -/
theorem last_marker {marker : UInt8} (notSmall : ¬ marker < 0xFD)
    (notTwo : marker ≠ 0xFD) (notFour : marker ≠ 0xFE) : marker = 0xFF := by
  have low := UInt8.le_iff_toNat_le.mp (UInt8.not_lt.mp notSmall)
  have bounded := marker.toNat_lt
  have first : marker.toNat ≠ 0xFD :=
    fun same => notTwo (UInt8.toNat_inj.mp same)
  have second : marker.toNat ≠ 0xFE :=
    fun same => notFour (UInt8.toNat_inj.mp same)
  apply UInt8.toNat_inj.mp
  change 0xFD ≤ marker.toNat at low
  change marker.toNat = 0xFF
  omega

/-! ## Every plain read moves forward -/

theorem forward_readByte : Forward readByte := by
  intro reader wellFormed
  by_cases ended : reader.position ≥ reader.size
  · rw [readByte, if_pos ended]
    exact ⟨Moves.refl wellFormed, by simp⟩
  · have inside : reader.position + 1 ≤ reader.data.length := by
      simp only [size] at ended
      omega
    rw [readByte, if_neg ended, Call.bind_of_ok (take_run wellFormed inside)]
    refine ⟨⟨rfl, rfl, ?_, inside⟩, by simp⟩
    exact Nat.le_add_right _ _

theorem forward_readBytes {len : Nat} (small : len ≤ ptrdiffMax) :
    Forward (readBytes len) :=
  forward_ite (fun _ => forward_pure []) fun _ => forward_require_take small

theorem forward_readWord {width : Nat} (text : String)
    (small : width ≤ ptrdiffMax) :
    Forward (readWord width text) := by
  unfold readWord
  rw [← Call.bind_assoc]
  exact (forward_require_take small).bind fun _ => forward_pure _

theorem forward_readUint16 : Forward readUint16 :=
  (forward_readWord _ (by decide)).bind fun _ => forward_pure _

theorem forward_readUint32 : Forward readUint32 :=
  (forward_readWord _ (by decide)).bind fun _ => forward_pure _

theorem forward_readUint64 : Forward readUint64 :=
  (forward_readWord _ (by decide)).bind fun _ => forward_pure _

theorem forward_readVarInt : Forward readVarInt := by
  refine forward_readByte.bind fun marker => ?_
  refine forward_ite (fun _ => forward_pure _) fun _ => ?_
  refine forward_ite
    (fun _ => forward_readUint16.bind fun _ => forward_pure _) fun _ => ?_
  exact forward_ite
    (fun _ => forward_readUint32.bind fun _ => forward_pure _)
    fun _ => forward_readUint64

theorem forward_readVarBytes (alloc : Allocator) :
    Forward (readVarBytes alloc) := by
  refine forward_readVarInt.bind fun length => ?_
  refine forward_ite (fun _ => forward_pure _) fun _ => ?_
  refine Forward.after_malloc fun small => ?_
  exact (forward_readBytes small).bind fun _ => forward_pure _

theorem forward_readVarString (alloc : Allocator) :
    Forward (readVarString alloc) := by
  refine (forward_readVarBytes alloc).bind fun data => ?_
  exact forward_ite
    (fun _ => (forward_malloc _ _ _).bind fun _ => forward_pure _)
    fun _ => (forward_malloc _ _ _).bind fun _ => forward_pure _

theorem forward_readEncodedEcPoint (alloc : Allocator) :
    Forward (readEncodedEcPoint alloc) := by
  refine forward_readByte.bind fun byte => ?_
  refine forward_ite (fun _ => ?_) fun _ => forward_error _ _
  refine (forward_malloc _ _ _).bind fun _ => ?_
  exact (forward_readBytes (by decide)).bind fun _ => forward_pure _

theorem forward_readPushSize (byte : UInt8) : Forward (readPushSize byte) := by
  refine forward_ite
    (fun _ => forward_readByte.bind fun _ => forward_pure _) fun _ => ?_
  refine forward_ite
    (fun _ => forward_readUint16.bind fun _ => forward_pure _) fun _ => ?_
  exact forward_ite
    (fun _ => forward_readUint32.bind fun _ => forward_pure _)
    fun _ => forward_error _ _

theorem forward_readSized (alloc : Allocator) (size : Nat) :
    Forward (readSized alloc size) := by
  refine forward_ite
    (fun _ => (forward_malloc _ _ _).bind fun _ => forward_pure _) fun _ => ?_
  exact Forward.after_malloc fun small => forward_readBytes small

theorem forward_readPushData (alloc : Allocator) :
    Forward (readPushData alloc) :=
  forward_readByte.bind fun byte =>
    (forward_readPushSize byte).bind fun size => forward_readSized alloc size

theorem forward_readVarBytesMax (alloc : Allocator) (maxLength : Nat) :
    Forward (readVarBytesMax alloc maxLength) :=
  forward_readVarInt.bind fun length =>
    forward_ite (fun _ => forward_error _ _)
      fun _ => forward_readSized alloc length.toNat

theorem forward_readVarIntMax (maxValue : UInt64) :
    Forward (readVarIntMax maxValue) :=
  forward_readVarInt.bind fun _ =>
    forward_ite (fun _ => forward_error _ _) fun _ => forward_pure _

theorem forward_readPushString (alloc : Allocator) :
    Forward (readPushString alloc) :=
  (forward_readPushData alloc).bind fun _ =>
    (forward_malloc _ _ _).bind fun _ => forward_pure _

theorem forward_readPushBigInt (alloc : Allocator) :
    Forward (readPushBigInt alloc) := by
  refine forward_readByte.bind fun byte => ?_
  refine forward_ite (fun _ => forward_pure _) fun _ => ?_
  refine forward_ite
    (fun _ => (forward_malloc _ _ _).bind fun _ => forward_pure _) fun _ => ?_
  refine forward_ite
    (fun _ => (forward_malloc _ _ _).bind fun _ => forward_pure _) fun _ => ?_
  cases pushIntCount byte with
  | none => exact forward_error _ _
  | some count =>
      refine Forward.after_malloc fun small => ?_
      exact (forward_readBytes small).bind fun _ => forward_pure _

theorem forward_readPushInt (alloc : Allocator) :
    Forward (readPushInt alloc) := by
  refine (forward_readPushBigInt alloc).bind fun result => ?_
  obtain ⟨data, isNegative⟩ := result
  refine forward_ite (fun _ => forward_error _ _) fun _ => ?_
  refine forward_ite (fun _ => ?_) fun _ => forward_pure _
  exact forward_ite (fun _ => forward_halt (by decide))
    fun _ => forward_pure _

/-! ## Runs of operations -/

/-- The operations on a reader, with the lengths their callers choose. -/
inductive Operation where
  | readByte
  | readBytes (len : UInt64)
  | readBool
  | readUint16
  | readUint32
  | readUint64
  | readInt16
  | readInt32
  | readInt64
  | readVarInt
  | readVarBytes
  | readVarString
  | seek (position : UInt64)
  | skip (count : UInt64)
  | mark
  | reset
  | readEncodedEcPoint
  | readPushData
  | readVarBytesMax (maxLength : UInt64)
  | readVarIntMax (maxValue : UInt64)
  | readPushString
  | readPushInt
  | readPushBigInt
deriving DecidableEq, Repr

/-- Call a function for its effect on the reader. -/
def ignore (call : Routine BinaryReader α) : Routine BinaryReader Unit := do
  let _ ← call
  pure ()

/-- Run an operation; what it returned is the caller's business. -/
def perform (alloc : Allocator) : Operation → Routine BinaryReader Unit
  | .readByte => ignore readByte
  | .readBytes len => ignore (readBytes len.toNat)
  | .readBool => ignore readBool
  | .readUint16 => ignore readUint16
  | .readUint32 => ignore readUint32
  | .readUint64 => ignore readUint64
  | .readInt16 => ignore readInt16
  | .readInt32 => ignore readInt32
  | .readInt64 => ignore readInt64
  | .readVarInt => ignore readVarInt
  | .readVarBytes => ignore (readVarBytes alloc)
  | .readVarString => ignore (readVarString alloc)
  | .seek position => seek position.toNat
  | .skip count => skip count.toNat
  | .mark => mark
  | .reset => reset
  | .readEncodedEcPoint => ignore (readEncodedEcPoint alloc)
  | .readPushData => ignore (readPushData alloc)
  | .readVarBytesMax maxLength =>
      ignore (readVarBytesMax alloc maxLength.toNat)
  | .readVarIntMax maxValue => ignore (readVarIntMax maxValue)
  | .readPushString => ignore (readPushString alloc)
  | .readPushInt => ignore (readPushInt alloc)
  | .readPushBigInt => ignore (readPushBigInt alloc)

/-- One step of a run: an operation and the allocator it meets. -/
abbrev Step := Allocator × Operation

/-- The reader after one step, whether the operation succeeded or not. -/
def next (reader : BinaryReader) (step : Step) : BinaryReader :=
  (perform step.1 step.2 reader).2

/-- The length an operation hands to the bounds check as its caller gave it. -/
def Operation.callerLength : Operation → Option UInt64
  | .readBytes len => some len
  | .skip count => some count
  | _ => none

/-- What a caller may rely on after one step. -/
structure Safe (reader : BinaryReader) (step : Step) : Prop where
  position_le : (next reader step).position ≤ (next reader step).size
  loads_inside :
    (perform step.1 step.2 reader).1 ≠ .error .illegalAccess
  advances :
    ∀ length,
      step.2.callerLength = some length →
        (perform step.1 step.2 reader).1 = .ok () →
          (next reader step).position = reader.position + length.toNat
  fails_forward :
    ∀ reason,
      (perform step.1 step.2 reader).1 = .error reason →
        reader.position ≤ (next reader step).position

/--
The sum in the bounds check does not wrap, or it wraps to a value that the
check still refuses.
-/
def Guarded (reader : BinaryReader) (step : Step) : Prop :=
  ∀ length,
    step.2.callerLength = some length →
      reader.position + length.toNat < sizeModulus ∨
        reader.size + sizeModulus < reader.position + length.toNat

/-- The guard is exact for a step, and keeps the reader well formed. -/
structure Exact (reader : BinaryReader) (step : Step) : Prop where
  safe_iff : Safe reader step ↔ Guarded reader step
  keeps : Guarded reader step → (next reader step).WellFormed

theorem guarded_of_none {reader : BinaryReader} {step : Step}
    (ordinary : step.2.callerLength = none) :
    Guarded reader step := by
  intro length given
  rw [ordinary] at given
  cases given

/-- A step that needs no guard is exact once it is safe. -/
theorem exact_of_ordinary {reader : BinaryReader} {step : Step}
    (ordinary : step.2.callerLength = none)
    (kept : (next reader step).WellFormed)
    (legal : (perform step.1 step.2 reader).1 ≠ .error .illegalAccess)
    (forward :
      ∀ reason,
        (perform step.1 step.2 reader).1 = .error reason →
          reader.position ≤ (next reader step).position) :
    Exact reader step := by
  refine ⟨⟨fun _ => guarded_of_none ordinary, fun _ => ?_⟩, fun _ => kept⟩
  refine ⟨kept.position_le, legal, ?_, forward⟩
  intro length given
  rw [ordinary] at given
  cases given

/-- A read that only moves forward needs no guard. -/
theorem Forward.exact {alloc : Allocator} {operation : Operation}
    {call : Routine BinaryReader α} (forward : Forward call)
    (performs : perform alloc operation = ignore call)
    (ordinary : operation.callerLength = none)
    {reader : BinaryReader} (wellFormed : reader.WellFormed) :
    Exact reader (alloc, operation) := by
  have ignored : Forward (perform alloc operation) := by
    rw [performs]
    exact forward.bind fun _ => forward_pure ()
  rcases ignored reader wellFormed with ⟨moves, legal⟩
  exact
    exact_of_ordinary ordinary (moves.wellFormed wellFormed) legal
      fun _ _ => moves.position_ge

theorem exact_seek {alloc : Allocator} {reader : BinaryReader}
    (position : UInt64) (wellFormed : reader.WellFormed) :
    Exact reader (alloc, .seek position) := by
  by_cases beyond : position.toNat > reader.size
  · have ran :
        perform alloc (.seek position) reader =
          (.error (.error .invalidArgument "Position beyond data size"),
            reader) :=
      if_pos beyond
    apply exact_of_ordinary rfl
    · simpa only [next, ran] using wellFormed
    · simp [ran]
    · simp [next, ran]
  · have ran :
        perform alloc (.seek position) reader =
          (.ok (), { reader with position := position.toNat }) :=
      if_neg beyond
    apply exact_of_ordinary rfl
    · simp only [next, ran]
      exact ⟨Nat.le_of_not_lt beyond, wellFormed.length_le,
        wellFormed.marker_le⟩
    · simp [ran]
    · simp [ran]

theorem exact_mark {alloc : Allocator} {reader : BinaryReader}
    (wellFormed : reader.WellFormed) :
    Exact reader (alloc, .mark) := by
  have ran :
      perform alloc .mark reader =
        (.ok (), { reader with marker := reader.position }) :=
    rfl
  apply exact_of_ordinary rfl
  · simp only [next, ran]
    exact ⟨wellFormed.position_le, wellFormed.length_le,
      .inr wellFormed.position_le⟩
  · simp [ran]
  · simp [ran]

theorem exact_reset {alloc : Allocator} {reader : BinaryReader}
    (wellFormed : reader.WellFormed) :
    Exact reader (alloc, .reset) := by
  by_cases unset : reader.marker = sizeMax
  · have ran :
        perform alloc .reset reader =
          (.error (.error .invalidState "No marker set"), reader) :=
      if_pos unset
    apply exact_of_ordinary rfl
    · simpa only [next, ran] using wellFormed
    · simp [ran]
    · simp [next, ran]
  · have ran :
        perform alloc .reset reader =
          (.ok (), { reader with position := reader.marker }) :=
      if_neg unset
    apply exact_of_ordinary rfl
    · simp only [next, ran]
      exact ⟨wellFormed.marker_le.resolve_left unset, wellFormed.length_le,
        wellFormed.marker_le⟩
    · simp [ran]
    · simp [ran]

/-- A step with a length of its caller that did what was asked. -/
theorem exact_of_advanced {reader : BinaryReader} {step : Step}
    {length : UInt64} (wellFormed : reader.WellFormed)
    (given : step.2.callerLength = some length)
    (inside : reader.position + length.toNat ≤ reader.data.length)
    (ran :
      perform step.1 step.2 reader =
        (.ok (), { reader with position := reader.position + length.toNat })) :
    Exact reader step := by
  have guarded : Guarded reader step := by
    intro length' given'
    rw [given] at given'
    injection given' with equal
    have bounded := wellFormed.length_le
    left
    rw [← equal]
    simp only [ptrdiffMax] at bounded
    simp only [sizeModulus]
    omega
  refine ⟨⟨fun _ => guarded, fun _ => ?_⟩, fun _ => ?_⟩
  · refine ⟨?_, by simp [ran], ?_, by simp [ran]⟩
    · simpa only [next, ran, size] using inside
    · intro length' given' _
      rw [given] at given'
      injection given' with equal
      rw [next, ran, equal]
  · simp only [next, ran]
    exact ⟨inside, wellFormed.length_le, wellFormed.marker_le⟩

/-- A step with a length of its caller that was refused. -/
theorem exact_of_refused {reader : BinaryReader} {step : Step}
    {text : String} (wellFormed : reader.WellFormed)
    (guarded : Guarded reader step)
    (ran :
      perform step.1 step.2 reader =
        (.error (.error .endOfStream text), reader)) :
    Exact reader step := by
  refine ⟨⟨fun _ => guarded, fun _ => ?_⟩, fun _ => ?_⟩
  · refine ⟨?_, by simp [ran], by simp [ran], by simp [next, ran]⟩
    simpa only [next, ran, size] using wellFormed.position_le
  · simpa only [next, ran] using wellFormed

theorem exact_skip {alloc : Allocator} {reader : BinaryReader}
    (count : UInt64) (wellFormed : reader.WellFormed) :
    Exact reader (alloc, .skip count) := by
  have word : count.toNat < sizeModulus := count.toNat_lt
  by_cases inside : reader.position + count.toNat ≤ reader.data.length
  · apply exact_of_advanced wellFormed rfl inside
    change skip count.toNat reader = _
    rw [skip, Call.bind_of_ok (require_run_of_le _ wellFormed inside),
      advance, Call.update_run, sizeAdd_of_lt]
    have bounded := wellFormed.length_le
    simp only [ptrdiffMax] at bounded
    simp only [sizeModulus]
    omega
  · have outside := Nat.lt_of_not_le inside
    by_cases guarded : Guarded reader (alloc, .skip count)
    · apply exact_of_refused wellFormed guarded
      exact
        Call.bind_of_error
          (require_run_of_gt _ wellFormed word outside (guarded count rfl))
    · refine ⟨⟨fun safe => ?_, fun held => absurd held guarded⟩,
        fun held => absurd held guarded⟩
      simp only [Guarded, Operation.callerLength, Option.some.injEq,
        forall_eq', not_or, not_lt] at guarded
      rcases guarded with ⟨wraps, passes⟩
      have ran :
          perform alloc (.skip count) reader =
            (.ok (),
              { reader with
                position := sizeAdd reader.position count.toNat }) := by
        change skip count.toNat reader = _
        rw [skip, Call.bind_of_ok
          (require_run_of_wrap _ wellFormed wraps passes)]
        rfl
      have advanced := safe.advances count rfl (by rw [ran])
      have reduced :
          sizeAdd reader.position count.toNat < sizeModulus :=
        Nat.mod_lt _ (by decide)
      simp only [next, ran] at advanced
      omega

theorem exact_readBytes {alloc : Allocator} {reader : BinaryReader}
    (len : UInt64) (wellFormed : reader.WellFormed) :
    Exact reader (alloc, .readBytes len) := by
  have word : len.toNat < sizeModulus := len.toNat_lt
  by_cases inside : reader.position + len.toNat ≤ reader.data.length
  · apply exact_of_advanced wellFormed rfl inside
    change ignore (readBytes len.toNat) reader = _
    by_cases empty : len.toNat = 0
    · rw [readBytes, if_pos empty, empty]
      rfl
    · have ran :
          readBytes len.toNat reader =
            (.ok ((reader.data.drop reader.position).take len.toNat),
              { reader with position := reader.position + len.toNat }) := by
        rw [readBytes, if_neg empty,
          Call.bind_of_ok (require_run_of_le _ wellFormed inside),
          take_run wellFormed inside]
      rw [ignore, Call.bind_of_ok ran]
      rfl
  · have outside := Nat.lt_of_not_le inside
    have nonempty : len.toNat ≠ 0 := by
      intro empty
      exact inside (by simpa [empty] using wellFormed.position_le)
    by_cases guarded : Guarded reader (alloc, .readBytes len)
    · apply exact_of_refused wellFormed guarded
      change ignore (readBytes len.toNat) reader = _
      apply Call.bind_of_error
      rw [readBytes, if_neg nonempty]
      exact
        Call.bind_of_error
          (require_run_of_gt _ wellFormed word outside (guarded len rfl))
    · refine ⟨⟨fun safe => ?_, fun held => absurd held guarded⟩,
        fun held => absurd held guarded⟩
      simp only [Guarded, Operation.callerLength, Option.some.injEq,
        forall_eq', not_or, not_lt] at guarded
      rcases guarded with ⟨wraps, passes⟩
      have loaded :
          load len.toNat reader = (.error .illegalAccess, reader) :=
        if_neg inside
      have ran :
          perform alloc (.readBytes len) reader =
            (.error .illegalAccess, reader) := by
        change ignore (readBytes len.toNat) reader = _
        apply Call.bind_of_error
        rw [readBytes, if_neg nonempty, Call.bind_of_ok
          (require_run_of_wrap _ wellFormed wraps passes)]
        exact Call.bind_of_error loaded
      exact absurd (by rw [ran]) safe.loads_inside

/-- The guard is exact for every operation. -/
theorem step_exact {reader : BinaryReader}
    (wellFormed : reader.WellFormed) (step : Step) :
    Exact reader step := by
  rcases step with ⟨alloc, operation⟩
  cases operation with
  | readByte => exact forward_readByte.exact rfl rfl wellFormed
  | readBytes len => exact exact_readBytes len wellFormed
  | readBool =>
      exact
        (forward_readByte.bind fun _ => forward_pure _).exact rfl rfl
          wellFormed
  | readUint16 => exact forward_readUint16.exact rfl rfl wellFormed
  | readUint32 => exact forward_readUint32.exact rfl rfl wellFormed
  | readUint64 => exact forward_readUint64.exact rfl rfl wellFormed
  | readInt16 =>
      exact
        (forward_readUint16.bind fun _ => forward_pure _).exact rfl rfl
          wellFormed
  | readInt32 =>
      exact
        (forward_readUint32.bind fun _ => forward_pure _).exact rfl rfl
          wellFormed
  | readInt64 =>
      exact
        (forward_readUint64.bind fun _ => forward_pure _).exact rfl rfl
          wellFormed
  | readVarInt => exact forward_readVarInt.exact rfl rfl wellFormed
  | readVarBytes =>
      exact (forward_readVarBytes alloc).exact rfl rfl wellFormed
  | readVarString =>
      exact (forward_readVarString alloc).exact rfl rfl wellFormed
  | seek position => exact exact_seek position wellFormed
  | skip count => exact exact_skip count wellFormed
  | mark => exact exact_mark wellFormed
  | reset => exact exact_reset wellFormed
  | readEncodedEcPoint =>
      exact (forward_readEncodedEcPoint alloc).exact rfl rfl wellFormed
  | readPushData =>
      exact (forward_readPushData alloc).exact rfl rfl wellFormed
  | readVarBytesMax maxLength =>
      exact
        (forward_readVarBytesMax alloc maxLength.toNat).exact rfl rfl
          wellFormed
  | readVarIntMax maxValue =>
      exact (forward_readVarIntMax maxValue).exact rfl rfl wellFormed
  | readPushString =>
      exact (forward_readPushString alloc).exact rfl rfl wellFormed
  | readPushInt =>
      exact (forward_readPushInt alloc).exact rfl rfl wellFormed
  | readPushBigInt =>
      exact (forward_readPushBigInt alloc).exact rfl rfl wellFormed

/--
A run of a new reader is safe at every step exactly when no caller's length
wraps the bounds check to a position inside the data.
-/
theorem run_safe_iff_guarded
    {alloc : Allocator} {data : List UInt8} {reader : BinaryReader}
    (created : create alloc data = .ok reader) (steps : List Step) :
    Along next Safe reader steps ↔ Along next Guarded reader steps := by
  apply along_iff_of_invariant WellFormed
  · intro reader step wellFormed
    exact (step_exact wellFormed step).keeps
  · intro reader step wellFormed
    exact (step_exact wellFormed step).safe_iff
  · exact (create_eq_ok created).2

/-- Reading, moving ahead, going back and reading all bytes is safe. -/
theorem run_safe_of_small_lengths :
    Along next Safe { data := [7, 8, 9], position := 0, marker := sizeMax }
      [(.ample, .readByte), (.ample, .skip 1),
        (.ample, .seek 0), (.ample, .readBytes 3)] := by
  have created :
      create .ample [7, 8, 9] =
        .ok { data := [7, 8, 9], position := 0, marker := sizeMax } :=
    rfl
  apply (run_safe_iff_guarded created _).mpr
  refine ⟨?_, ?_, ?_, ?_, trivial⟩
  · exact guarded_of_none rfl
  · intro length given
    cases given
    exact .inl (by decide)
  · exact guarded_of_none rfl
  · intro length given
    cases given
    exact .inl (by decide)

/-- Skipping `2 ^ 64 - 1` bytes succeeds and moves one byte backwards. -/
theorem skip_wraps_backwards :
    ¬∀ (alloc : Allocator) (data : List UInt8) (reader : BinaryReader)
        (steps : List Step),
      create alloc data = .ok reader → Along next Safe reader steps := by
  intro always
  have along :=
    always .ample [7]
      { data := [7], position := 0, marker := sizeMax }
      [(.ample, .readByte),
        (.ample, .skip 0xFFFFFFFFFFFFFFFF)] rfl
  have advanced := along.2.1.advances 0xFFFFFFFFFFFFFFFF rfl (by decide)
  revert advanced
  decide

end BinaryReader

end NeoC
