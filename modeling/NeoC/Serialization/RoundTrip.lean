import NeoC.Serialization.BinaryReader
import NeoC.Serialization.BinaryWriter

/-!
# Reading back what was written

A sequence of typed values goes through a writer into an array and through a
reader back into values.  The writer side is `Emits` with the wire form of
each value; the reader side is `Reads`, which says that a call consumes a given
wire form and returns a given value.  Both compose along sequencing, so the
two traversals meet at the concatenated wire forms.
-/

namespace NeoC.Serialization

open Foundation

/-! ## Typed values -/

/-- The type of a value on the wire. -/
inductive Kind where
  | byte
  | bool
  | uint16
  | uint32
  | uint64
  | int16
  | int32
  | int64
  | varInt
  | varBytes
  | varString
deriving DecidableEq, Repr

/-- A value together with its type on the wire. -/
inductive Value where
  | byte (value : UInt8)
  | bool (value : Bool)
  | uint16 (value : UInt16)
  | uint32 (value : UInt32)
  | uint64 (value : UInt64)
  | int16 (value : Int16)
  | int32 (value : Int32)
  | int64 (value : Int64)
  | varInt (value : UInt64)
  | varBytes (content : List UInt8)
  | varString (text : CString)
deriving DecidableEq

namespace Value

/-- The type of a value. -/
def kind : Value → Kind
  | .byte _ => .byte
  | .bool _ => .bool
  | .uint16 _ => .uint16
  | .uint32 _ => .uint32
  | .uint64 _ => .uint64
  | .int16 _ => .int16
  | .int32 _ => .int32
  | .int64 _ => .int64
  | .varInt _ => .varInt
  | .varBytes _ => .varBytes
  | .varString _ => .varString

/-- The wire form of a value. -/
def encode : Value → List UInt8
  | .byte value => [value]
  | .bool value => [if value then 1 else 0]
  | .uint16 value => LittleEndian.toBytes 2 value.toNat
  | .uint32 value => LittleEndian.toBytes 4 value.toNat
  | .uint64 value => LittleEndian.toBytes 8 value.toNat
  | .int16 value => LittleEndian.toBytes 2 value.toUInt16.toNat
  | .int32 value => LittleEndian.toBytes 4 value.toUInt32.toNat
  | .int64 value => LittleEndian.toBytes 8 value.toUInt64.toNat
  | .varInt value => VarInt.encode value.toNat
  | .varBytes content => BinaryWriter.varBytes content
  | .varString text => BinaryWriter.varBytes text.characters

end Value

/-- The wire form of a sequence of values. -/
def encodeAll (values : List Value) : List UInt8 :=
  values.flatMap Value.encode

/-- The matching `neoc_binary_writer_write_*` call. -/
def write (alloc : Allocator) : Value → Routine BinaryWriter Unit
  | .byte value => BinaryWriter.writeByte alloc value
  | .bool value => BinaryWriter.writeBool alloc value
  | .uint16 value => BinaryWriter.writeUint16 alloc value
  | .uint32 value => BinaryWriter.writeUint32 alloc value
  | .uint64 value => BinaryWriter.writeUint64 alloc value
  | .int16 value => BinaryWriter.writeInt16 alloc value
  | .int32 value => BinaryWriter.writeInt32 alloc value
  | .int64 value => BinaryWriter.writeInt64 alloc value
  | .varInt value => BinaryWriter.writeVarInt alloc value
  | .varBytes content => BinaryWriter.writeVarBytes alloc (.items content)
  | .varString text => BinaryWriter.writeVarString alloc (some text)

/-- The matching `neoc_binary_reader_read_*` call. -/
def read (alloc : Allocator) : Kind → Routine BinaryReader Value
  | .byte => do return .byte (← BinaryReader.readByte)
  | .bool => do return .bool (← BinaryReader.readBool)
  | .uint16 => do return .uint16 (← BinaryReader.readUint16)
  | .uint32 => do return .uint32 (← BinaryReader.readUint32)
  | .uint64 => do return .uint64 (← BinaryReader.readUint64)
  | .int16 => do return .int16 (← BinaryReader.readInt16)
  | .int32 => do return .int32 (← BinaryReader.readInt32)
  | .int64 => do return .int64 (← BinaryReader.readInt64)
  | .varInt => do return .varInt (← BinaryReader.readVarInt)
  | .varBytes => do
      return .varBytes (← BinaryReader.readVarBytes alloc).content
  | .varString => do return .varString (← BinaryReader.readVarString alloc)

/-- Write values one after another. -/
def writeAll (alloc : Allocator) : List Value → Routine BinaryWriter Unit
  | [] => pure ()
  | value :: rest => do
      write alloc value
      writeAll alloc rest

/-- Read values of the given types one after another. -/
def readAll (alloc : Allocator) : List Kind → Routine BinaryReader (List Value)
  | [] => pure []
  | kind :: rest => do
      let value ← read alloc kind
      let values ← readAll alloc rest
      return value :: values

/-! ## The writer side -/

theorem write_emits (alloc : Allocator) (value : Value) :
    BinaryWriter.Emits alloc (write alloc value) value.encode := by
  cases value with
  | byte value => exact BinaryWriter.writeByte_emits value
  | bool value => exact BinaryWriter.writeBool_emits value
  | uint16 value => exact BinaryWriter.writeWord_emits 2 _
  | uint32 value => exact BinaryWriter.writeWord_emits 4 _
  | uint64 value => exact BinaryWriter.writeWord_emits 8 _
  | int16 value => exact BinaryWriter.writeWord_emits 2 _
  | int32 value => exact BinaryWriter.writeWord_emits 4 _
  | int64 value => exact BinaryWriter.writeWord_emits 8 _
  | varInt value => exact BinaryWriter.writeVarInt_emits value
  | varBytes content => exact BinaryWriter.writeVarBytes_emits content
  | varString text => exact BinaryWriter.writeVarString_emits text

theorem writeAll_emits (alloc : Allocator) (values : List Value) :
    BinaryWriter.Emits alloc (writeAll alloc values) (encodeAll values) := by
  induction values with
  | nil => exact BinaryWriter.emits_pure
  | cons value rest induction =>
      rw [encodeAll, List.flatMap_cons]
      exact (write_emits alloc value).bind induction

/-! ## The reader side -/

/-- The call consumes these bytes, wherever they stand, as this value. -/
def Reads {α : Type} (call : Routine BinaryReader α) (bytes : List UInt8)
    (value : α) : Prop :=
  ∀ (reader : BinaryReader) (rest : List UInt8),
    reader.WellFormed →
      reader.data.drop reader.position = bytes ++ rest →
        call reader =
          (.ok value,
            { reader with position := reader.position + bytes.length })

variable {α β : Type}

/-- Bytes found at the position lie inside the data. -/
theorem position_add_le {reader : BinaryReader} {bytes rest : List UInt8}
    (wellFormed : reader.WellFormed)
    (found : reader.data.drop reader.position = bytes ++ rest) :
    reader.position + bytes.length ≤ reader.data.length := by
  have lengths := congrArg List.length found
  have within := wellFormed.position_le
  rw [List.length_drop, List.length_append] at lengths
  omega

theorem reads_pure (value : α) :
    Reads (pure value : Routine BinaryReader α) [] value := by
  intro reader rest _ _
  rfl

theorem Reads.bind {first : Routine BinaryReader α}
    {next : α → Routine BinaryReader β}
    {firstBytes secondBytes : List UInt8} {value : α} {result : β}
    (head : Reads first firstBytes value)
    (tail : Reads (next value) secondBytes result) :
    Reads (first >>= next) (firstBytes ++ secondBytes) result := by
  intro reader rest wellFormed found
  rw [List.append_assoc] at found
  have inside := position_add_le wellFormed found
  have moved :
      ({ reader with position := reader.position + firstBytes.length } :
        BinaryReader).WellFormed :=
    ⟨inside, wellFormed.length_le, wellFormed.marker_le⟩
  have remaining :
      reader.data.drop (reader.position + firstBytes.length) =
        secondBytes ++ rest := by
    rw [← List.drop_drop, found, List.drop_left]
  rw [Call.bind_of_ok (head reader _ wellFormed found),
    tail _ rest moved remaining, List.length_append, Nat.add_assoc]

/-- A value computed from what was read consumes nothing more. -/
theorem Reads.map {first : Routine BinaryReader α} {bytes : List UInt8}
    {value : α} (head : Reads first bytes value) (change : α → β) :
    Reads (first >>= fun result => pure (change result)) bytes
      (change value) := by
  have mapped :
      Reads (first >>= fun result => pure (change result)) (bytes ++ [])
        (change value) :=
    head.bind (reads_pure (change value))
  rwa [List.append_nil] at mapped

theorem reads_lift {outcome : Outcome α} {value : α}
    (made : outcome = .ok value) :
    Reads (Call.lift outcome) [] value := by
  intro reader rest _ _
  rw [Call.lift_run, made]
  rfl

/-- Items that a call reads one by one are read one after another. -/
theorem Reads.times {call : Routine BinaryReader α}
    {bytesOf : α → List UInt8} {items : List α}
    (each : ∀ item ∈ items, Reads call (bytesOf item) item) :
    Reads (call.times items.length) (items.flatMap bytesOf) items := by
  induction items with
  | nil => exact reads_pure []
  | cons item rest induction =>
      rcases List.forall_mem_cons.mp each with ⟨first, later⟩
      rw [List.flatMap_cons]
      exact first.bind ((induction later).map (item :: ·))

theorem reads_take (bytes : List UInt8) :
    Reads (BinaryReader.take bytes.length) bytes bytes := by
  intro reader rest wellFormed found
  rw [BinaryReader.take_run wellFormed (position_add_le wellFormed found),
    found, List.take_left]

theorem reads_require_take (bytes : List UInt8) (text : String) :
    Reads
      (BinaryReader.require bytes.length text >>= fun _ =>
        BinaryReader.take bytes.length) bytes bytes := by
  intro reader rest wellFormed found
  have inside := position_add_le wellFormed found
  rw [Call.bind_of_ok (BinaryReader.require_run_of_le text wellFormed inside)]
  exact reads_take bytes reader rest wellFormed found

theorem reads_readByte (byte : UInt8) :
    Reads BinaryReader.readByte [byte] byte := by
  intro reader rest wellFormed found
  have inside := position_add_le wellFormed found
  have unfinished : ¬reader.position ≥ reader.size := by
    simp only [List.length_singleton] at inside
    exact Nat.not_le_of_lt inside
  rw [BinaryReader.readByte, if_neg unfinished]
  exact (reads_take [byte]).map (fun bytes => bytes.headD 0)
    reader rest wellFormed found

theorem reads_readBytes (bytes : List UInt8) :
    Reads (BinaryReader.readBytes bytes.length) bytes bytes := by
  unfold BinaryReader.readBytes
  split
  · rename_i empty
    rw [List.length_eq_zero_iff.mp empty]
    exact reads_pure []
  · exact reads_require_take bytes _

theorem reads_readWord {width value : Nat} (text : String)
    (fits : value < 256 ^ width) :
    Reads (BinaryReader.readWord width text)
      (LittleEndian.toBytes width value) value := by
  have read :=
    (reads_require_take (LittleEndian.toBytes width value) text).map
      LittleEndian.ofBytes
  rw [LittleEndian.length_toBytes, LittleEndian.ofBytes_toBytes_of_lt fits,
    Call.bind_assoc] at read
  exact read

theorem reads_readUint16 (value : UInt16) :
    Reads BinaryReader.readUint16 (LittleEndian.toBytes 2 value.toNat)
      value := by
  have read :=
    (reads_readWord "Not enough data to read uint16"
      (show value.toNat < 256 ^ 2 from value.toNat_lt)).map UInt16.ofNat
  rw [UInt16.ofNat_toNat] at read
  exact read

theorem reads_readUint32 (value : UInt32) :
    Reads BinaryReader.readUint32 (LittleEndian.toBytes 4 value.toNat)
      value := by
  have read :=
    (reads_readWord "Not enough data to read uint32"
      (show value.toNat < 256 ^ 4 from value.toNat_lt)).map UInt32.ofNat
  rw [UInt32.ofNat_toNat] at read
  exact read

theorem reads_readUint64 (value : UInt64) :
    Reads BinaryReader.readUint64 (LittleEndian.toBytes 8 value.toNat)
      value := by
  have read :=
    (reads_readWord "Not enough data to read uint64"
      (show value.toNat < 256 ^ 8 from value.toNat_lt)).map UInt64.ofNat
  rw [UInt64.ofNat_toNat] at read
  exact read

/-- A marker byte selects how many bytes of the number follow. -/
theorem reads_readVarInt (value : UInt64) :
    Reads BinaryReader.readVarInt (VarInt.encode value.toNat) value := by
  unfold VarInt.encode
  split_ifs with one two four
  · have low : value.toNat % 256 = value.toNat := Nat.mod_eq_of_lt (by omega)
    have small : value.toUInt8 < 0xFD := by
      rw [UInt8.lt_iff_toNat_lt, UInt64.toNat_toUInt8, low]
      exact one
    have restored : value.toUInt8.toUInt64 = value := by
      apply UInt64.toNat_inj.mp
      rw [UInt8.toNat_toUInt64, UInt64.toNat_toUInt8]
      exact low
    rw [LittleEndian.toBytes, low, UInt8.ofNat_uInt64ToNat,
      LittleEndian.toBytes]
    intro reader rest wellFormed found
    have first := reads_readByte value.toUInt8 reader rest wellFormed found
    rw [BinaryReader.readVarInt, Call.bind_of_ok first, if_pos small,
      restored]
    rfl
  · have restored : value.toUInt16.toUInt64 = value := by
      apply UInt64.toNat_inj.mp
      rw [UInt16.toNat_toUInt64, UInt64.toNat_toUInt16]
      exact Nat.mod_eq_of_lt (Nat.lt_succ_of_le two)
    have exact16 : value.toUInt16.toNat = value.toNat := by
      rw [← UInt16.toNat_toUInt64, restored]
    rw [← exact16]
    have word := (reads_readUint16 value.toUInt16).map UInt16.toUInt64
    rw [restored] at word
    exact (reads_readByte 0xFD).bind word
  · have restored : value.toUInt32.toUInt64 = value := by
      apply UInt64.toNat_inj.mp
      rw [UInt32.toNat_toUInt64, UInt64.toNat_toUInt32]
      exact Nat.mod_eq_of_lt (Nat.lt_succ_of_le four)
    have exact32 : value.toUInt32.toNat = value.toNat := by
      rw [← UInt32.toNat_toUInt64, restored]
    rw [← exact32]
    have word := (reads_readUint32 value.toUInt32).map UInt32.toUInt64
    rw [restored] at word
    exact (reads_readByte 0xFE).bind word
  · exact (reads_readByte 0xFF).bind (reads_readUint64 value)

theorem reads_malloc {alloc : Allocator} {count : Nat} (text : String)
    (granted : alloc.grants count = true) :
    Reads (BinaryReader.malloc alloc count text) [] () := by
  rw [BinaryReader.malloc, if_pos granted]
  exact reads_pure ()

/-- The buffer returned for a byte string: empty ones have no pointer. -/
def bufferOf (content : List UInt8) : Buffer :=
  if content.length = 0 then .null 0 else .items content

theorem content_bufferOf (content : List UInt8) :
    (bufferOf content).content = content := by
  unfold bufferOf
  split
  · rename_i empty
    rw [List.length_eq_zero_iff.mp empty]
    rfl
  · rfl

theorem len_bufferOf (content : List UInt8) :
    (bufferOf content).len = content.length := by
  unfold bufferOf
  split
  · rename_i empty
    exact empty.symm
  · rfl

/-- A byte string is read behind anything that is read as its length. -/
theorem reads_varBytesBehind {alloc : Allocator}
    {lengthBytes content : List UInt8}
    (length :
      Reads BinaryReader.readVarInt lengthBytes
        (UInt64.ofNat content.length))
    (granted : alloc.grants content.length = true) :
    Reads (BinaryReader.readVarBytes alloc) (lengthBytes ++ content)
      (bufferOf content) := by
  have exact64 : (UInt64.ofNat content.length).toNat = content.length :=
    toNat_ofNat_size (lt_sizeModulus (alloc.grants_le _ granted))
  apply length.bind
  rw [exact64, bufferOf]
  split
  · rename_i empty
    rw [List.length_eq_zero_iff.mp empty]
    exact reads_pure _
  · exact
      (reads_malloc _ granted).bind
        ((reads_readBytes content).map Slice.items)

theorem reads_readVarBytes {alloc : Allocator} {content : List UInt8}
    (granted : alloc.grants content.length = true) :
    Reads (BinaryReader.readVarBytes alloc) (BinaryWriter.varBytes content)
      (bufferOf content) := by
  have length := reads_readVarInt (UInt64.ofNat content.length)
  rw [toNat_ofNat_size (lt_sizeModulus (alloc.grants_le _ granted))]
    at length
  exact reads_varBytesBehind length granted

theorem reads_readVarString {alloc : Allocator} {text : CString}
    (serves : alloc.Serves (text.strlen + 1)) :
    Reads (BinaryReader.readVarString alloc)
      (BinaryWriter.varBytes text.characters) text := by
  have bounded := serves.bound_le
  have granted : alloc.grants text.characters.length = true :=
    serves _ (Nat.le_succ _)
  have one : alloc.grants 1 = true := serves _ (Nat.le_add_left _ _)
  have noWrap :
      sizeAdd text.characters.length 1 = text.characters.length + 1 := by
    apply sizeAdd_of_lt
    simp only [CString.strlen, ptrdiffMax] at bounded
    simp only [sizeModulus]
    omega
  have tail :
      Reads
        (if (bufferOf text.characters).len = 0 then do
          BinaryReader.malloc alloc 1 "Failed to allocate empty string"
          pure (CString.ofBuffer [])
        else do
          BinaryReader.malloc alloc
            (sizeAdd (bufferOf text.characters).len 1)
            "Failed to allocate string"
          pure (CString.ofBuffer (bufferOf text.characters).content))
        [] text := by
    rw [len_bufferOf, content_bufferOf, noWrap]
    split
    · rename_i empty
      have same : CString.ofBuffer [] = text := by
        rw [← List.length_eq_zero_iff.mp empty, CString.ofBuffer_characters]
      rw [same]
      exact (reads_malloc _ one).bind (reads_pure text)
    · rw [CString.ofBuffer_characters]
      exact (reads_malloc _ (serves _ le_rfl)).bind (reads_pure text)
  have read :
      Reads (BinaryReader.readVarString alloc)
        (BinaryWriter.varBytes text.characters ++ []) text :=
    (reads_readVarBytes granted).bind tail
  rwa [List.append_nil] at read

theorem length_le_varBytes (content : List UInt8) :
    content.length + 1 ≤ (BinaryWriter.varBytes content).length := by
  have header := VarInt.one_le_length_encode content.length
  rw [BinaryWriter.varBytes, List.length_append]
  omega

theorem reads_read {alloc : Allocator} {value : Value}
    (serves : alloc.Serves value.encode.length) :
    Reads (read alloc value.kind) value.encode value := by
  cases value with
  | byte value => exact (reads_readByte value).map Value.byte
  | bool value =>
      have read := (reads_readByte (if value then 1 else 0)).map (· != 0)
      have restored : ((if value then 1 else 0 : UInt8) != 0) = value := by
        cases value <;> rfl
      rw [restored] at read
      exact read.map Value.bool
  | uint16 value => exact (reads_readUint16 value).map Value.uint16
  | uint32 value => exact (reads_readUint32 value).map Value.uint32
  | uint64 value => exact (reads_readUint64 value).map Value.uint64
  | int16 value =>
      exact
        ((reads_readUint16 value.toUInt16).map UInt16.toInt16).map Value.int16
  | int32 value =>
      exact
        ((reads_readUint32 value.toUInt32).map UInt32.toInt32).map Value.int32
  | int64 value =>
      exact
        ((reads_readUint64 value.toUInt64).map UInt64.toInt64).map Value.int64
  | varInt value => exact (reads_readVarInt value).map Value.varInt
  | varBytes content =>
      have small := length_le_varBytes content
      have granted : alloc.grants content.length = true :=
        serves _ (Nat.le_of_succ_le small)
      have read :=
        (reads_readVarBytes granted).map fun data => Value.varBytes data.content
      rw [content_bufferOf] at read
      exact read
  | varString text =>
      have small := length_le_varBytes text.characters
      exact (reads_readVarString (serves.mono small)).map Value.varString

theorem reads_readAll {alloc : Allocator} {values : List Value}
    (serves : alloc.Serves (encodeAll values).length) :
    Reads (readAll alloc (values.map Value.kind)) (encodeAll values)
      values := by
  induction values with
  | nil => exact reads_pure []
  | cons value rest induction =>
      rw [encodeAll, List.flatMap_cons, List.length_append] at serves
      rw [encodeAll, List.flatMap_cons, List.map_cons]
      have tail := induction (serves.mono (Nat.le_add_left _ _))
      exact
        (reads_read (serves.mono (Nat.le_add_right _ _))).bind
          (tail.map (value :: ·))

/-! ## A reader of its own -/

/-- A writer treats an absent buffer like an empty one. -/
theorem writeVarBytes_bufferOf (alloc : Allocator) (content : List UInt8) :
    BinaryWriter.writeVarBytes alloc (bufferOf content) =
      BinaryWriter.writeVarBytes alloc (.items content) := by
  unfold bufferOf
  split
  · rename_i empty
    rw [List.length_eq_zero_iff.mp empty]
    rfl
  · rfl

/-- A call on a fresh reader consumes the bytes at the start. -/
theorem Reads.eval_fresh {call : Routine BinaryReader α}
    {bytes : List UInt8} {value : α}
    (reads : Reads call bytes value) {rest : List UInt8}
    (small : (bytes ++ rest).length ≤ ptrdiffMax) :
    call.eval { data := bytes ++ rest, position := 0, marker := sizeMax } =
      .ok
        (value,
          { data := bytes ++ rest
            position := bytes.length
            marker := sizeMax }) := by
  apply Call.eval_eq_ok_iff.mpr
  have ready :
      ({ data := bytes ++ rest, position := 0, marker := sizeMax } :
        BinaryReader).WellFormed :=
    ⟨Nat.zero_le _, small, .inl rfl⟩
  rw [reads _ rest ready (List.drop_zero), Nat.zero_add]

/-! ## The round trip -/

/--
Whatever is written into an auto-growing writer is read back from the finished
array, and the reader ends at the end of that array.  The only assumption is
that the allocator has the memory: room for the initial capacity, and for
twice the bytes on the wire.
-/
theorem readAll_writeAll
    (alloc : Allocator) (initialCapacity : Nat) (values : List Value)
    (serves :
      alloc.Serves
        (max initialCapacity (2 * (encodeAll values).length + 64))) :
    ∃ writer written array reader finished,
      BinaryWriter.create alloc initialCapacity true = .ok writer ∧
      writeAll alloc values writer = (.ok (), written) ∧
      written.toArray alloc = .ok array ∧
      BinaryReader.create alloc array = .ok reader ∧
      readAll alloc (values.map Value.kind) reader =
        (.ok values, finished) ∧
      finished.isAtEnd = true ∧
      finished.getPosition = array.length := by
  have wire := serves.mono (le_max_right _ _)
  rcases BinaryWriter.create_succeeds true
      (serves.mono (max_le_max le_rfl (by simp [BinaryWriter.structSize])))
    with ⟨writer, created⟩
  rcases (writeAll_emits alloc values).fresh_run
      (BinaryWriter.fresh_create initialCapacity) created
      (wire.mono (by omega)) with
    ⟨written, ran, contents, position⟩
  have wrote := Call.eval_eq_ok_iff.mp ran
  have copied : written.toArray alloc = .ok (encodeAll values) := by
    rw [BinaryWriter.toArray, if_pos (wire _ (by omega)), contents]
  have opened :
      BinaryReader.create alloc (encodeAll values) =
        .ok { data := encodeAll values, position := 0, marker := sizeMax } := by
    apply BinaryReader.create_succeeds
    apply wire.mono
    simp only [BinaryReader.structSize]
    omega
  have ready := (BinaryReader.create_eq_ok opened).2
  have readBack :
      readAll alloc (values.map Value.kind)
          { data := encodeAll values, position := 0, marker := sizeMax } =
        (.ok values,
          { data := encodeAll values
            position := 0 + (encodeAll values).length
            marker := sizeMax }) :=
    reads_readAll (wire.mono (by omega)) _ [] ready (by simp)
  refine
    ⟨writer, written, _, _, _, created, wrote, copied, opened, readBack,
      ?_, ?_⟩
  · simp [BinaryReader.isAtEnd, BinaryReader.size]
  · simp [BinaryReader.getPosition]

/-- A mixed sequence through a writer that has to grow. -/
theorem readAll_writeAll_mixed :
    ∃ writer written array reader finished,
      BinaryWriter.create .ample 0 true = .ok writer ∧
      writeAll .ample
          [.int16 (-2), .varInt 65536, .varBytes [1, 2, 3], .uint64 7]
          writer =
        (.ok (), written) ∧
      written.toArray .ample = .ok array ∧
      BinaryReader.create .ample array = .ok reader ∧
      readAll .ample [.int16, .varInt, .varBytes, .uint64] reader =
        (.ok [.int16 (-2), .varInt 65536, .varBytes [1, 2, 3], .uint64 7],
          finished) ∧
      finished.isAtEnd = true ∧
      finished.getPosition = array.length :=
  readAll_writeAll .ample 0
    [.int16 (-2), .varInt 65536, .varBytes [1, 2, 3], .uint64 7]
    (Allocator.ample_serves (by decide))

end NeoC.Serialization
