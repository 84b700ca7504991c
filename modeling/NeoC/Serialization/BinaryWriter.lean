import NeoC.Foundation.LittleEndian
import NeoC.Runtime.Memory

/-!
# The binary writer

A writer owns a buffer and a position in it.  Every write first makes room and
then stores at the position.  `Appends` and `Succeeds` say what a write does
to the bytes written so far and how much memory it needs; both compose along
sequencing, so a serializer built from writes is described by concatenating
the descriptions of its parts.
-/

namespace NeoC

open Foundation

/--
A `neoc_binary_writer_t`.  The buffer is a list of exactly `capacity` bytes;
bytes at and above the position have never been read by anyone.
-/
structure BinaryWriter where
  data : List UInt8
  position : Nat
  autoGrow : Bool
deriving DecidableEq, Repr

namespace BinaryWriter

/-- The allocated size of the buffer. -/
def capacity (writer : BinaryWriter) : Nat :=
  writer.data.length

/-- The bytes written so far. -/
def contents (writer : BinaryWriter) : List UInt8 :=
  writer.data.take writer.position

/-- `MIN_CAPACITY`. -/
def minCapacity : Nat := 16

/-- `GROWTH_FACTOR`. -/
def growthFactor : Nat := 2

/-- `sizeof(neoc_binary_writer_t)`. -/
def structSize : Nat := 32

/-! ## Making room -/

/--
`while (new_capacity < needed) new_capacity *= GROWTH_FACTOR;`

A `size_t` is zero after 64 doublings and stays zero, so a loop that is still
running after 65 tests of its condition never ends.
-/
def growCapacity : (fuel : Nat) → (newCapacity needed : Nat) → Option Nat
  | 0, _, _ => none
  | fuel + 1, newCapacity, needed =>
      if newCapacity < needed then
        growCapacity fuel (newCapacity * growthFactor % sizeModulus) needed
      else
        some newCapacity

/-- `realloc`: the old bytes stay, new bytes are indeterminate. -/
def resize (data : List UInt8) (size : Nat) : List UInt8 :=
  data.take size ++ List.replicate (size - data.length) 0

/-- `ensure_capacity`. -/
def ensureCapacity (alloc : Allocator) (required : Nat) :
    Routine BinaryWriter Unit :=
  fun writer =>
    let needed := sizeAdd writer.position required
    if needed ≤ writer.capacity then
      (.ok (), writer)
    else if writer.autoGrow = false then
      errorSet .bufferOverflow "Binary writer buffer overflow" writer
    else
      match
        growCapacity 65 (writer.capacity * growthFactor % sizeModulus) needed
      with
      | none => Call.halt .divergence writer
      | some newCapacity =>
          if alloc.grants newCapacity then
            (.ok (), { writer with data := resize writer.data newCapacity })
          else
            errorSet .outOfMemory "Failed to grow binary writer buffer"
              writer

/-- Stores at the position, which moves past them. -/
def store (bytes : List UInt8) : Routine BinaryWriter Unit :=
  fun writer =>
    if writer.position + bytes.length ≤ writer.capacity then
      (.ok (),
        { writer with
          data :=
            writer.data.take writer.position ++ bytes ++
              writer.data.drop (writer.position + bytes.length)
          position := writer.position + bytes.length })
    else
      Call.halt .illegalAccess writer

/-! ## The operations -/

/-- The capacity of a new writer. -/
def startCapacity (initialCapacity : Nat) : Nat :=
  if initialCapacity > minCapacity then initialCapacity else minCapacity

/-- `neoc_binary_writer_create`. -/
def create (alloc : Allocator) (initialCapacity : Nat) (autoGrow : Bool) :
    Outcome BinaryWriter :=
  if alloc.grants structSize = false then
    .error (.error .outOfMemory "Failed to allocate binary writer")
  else if alloc.grants (startCapacity initialCapacity) = false then
    .error (.error .outOfMemory "Failed to allocate writer buffer")
  else
    .ok
      { data := List.replicate (startCapacity initialCapacity) 0
        position := 0
        autoGrow }

/-- `neoc_binary_writer_write_byte`. -/
def writeByte (alloc : Allocator) (value : UInt8) :
    Routine BinaryWriter Unit := do
  ensureCapacity alloc 1
  store [value]

/-- `neoc_binary_writer_write_bytes`. -/
def writeBytes (alloc : Allocator) (data : Buffer) :
    Routine BinaryWriter Unit :=
  match data with
  | .null _ => errorSet .invalidArgument "Invalid arguments"
  | .items content =>
      if content.length = 0 then
        pure ()
      else do
        ensureCapacity alloc content.length
        store content

/-- `neoc_binary_writer_write_bool`. -/
def writeBool (alloc : Allocator) (value : Bool) :
    Routine BinaryWriter Unit :=
  writeByte alloc (if value then 1 else 0)

/-- The little-endian stores shared by the fixed-width integer writes. -/
def writeWord (alloc : Allocator) (width value : Nat) :
    Routine BinaryWriter Unit := do
  ensureCapacity alloc width
  store (LittleEndian.toBytes width value)

/-- `neoc_binary_writer_write_uint16`. -/
def writeUint16 (alloc : Allocator) (value : UInt16) :
    Routine BinaryWriter Unit :=
  writeWord alloc 2 value.toNat

/-- `neoc_binary_writer_write_uint32`. -/
def writeUint32 (alloc : Allocator) (value : UInt32) :
    Routine BinaryWriter Unit :=
  writeWord alloc 4 value.toNat

/-- `neoc_binary_writer_write_uint64`. -/
def writeUint64 (alloc : Allocator) (value : UInt64) :
    Routine BinaryWriter Unit :=
  writeWord alloc 8 value.toNat

/-- `neoc_binary_writer_write_int16`. -/
def writeInt16 (alloc : Allocator) (value : Int16) :
    Routine BinaryWriter Unit :=
  writeUint16 alloc value.toUInt16

/-- `neoc_binary_writer_write_int32`. -/
def writeInt32 (alloc : Allocator) (value : Int32) :
    Routine BinaryWriter Unit :=
  writeUint32 alloc value.toUInt32

/-- `neoc_binary_writer_write_int64`. -/
def writeInt64 (alloc : Allocator) (value : Int64) :
    Routine BinaryWriter Unit :=
  writeUint64 alloc value.toUInt64

/-- `neoc_binary_writer_write_var_int`. -/
def writeVarInt (alloc : Allocator) (value : UInt64) :
    Routine BinaryWriter Unit :=
  if value < 0xFD then
    writeByte alloc value.toUInt8
  else if value ≤ 0xFFFF then do
    writeByte alloc 0xFD
    writeUint16 alloc value.toUInt16
  else if value ≤ 0xFFFFFFFF then do
    writeByte alloc 0xFE
    writeUint32 alloc value.toUInt32
  else do
    writeByte alloc 0xFF
    writeUint64 alloc value

/-- `neoc_binary_writer_write_var_bytes`. -/
def writeVarBytes (alloc : Allocator) (data : Buffer) :
    Routine BinaryWriter Unit := do
  writeVarInt alloc (UInt64.ofNat data.len)
  match data with
  | .null _ => pure ()
  | .items content =>
      if content.length > 0 then
        writeBytes alloc (.items content)
      else
        pure ()

/-- `neoc_binary_writer_write_var_string`. -/
def writeVarString (alloc : Allocator) (str : Option CString) :
    Routine BinaryWriter Unit :=
  match str with
  | none => writeVarInt alloc 0
  | some text => writeVarBytes alloc (.items text.characters)

/-- `neoc_binary_writer_get_position`. -/
def getPosition (writer : BinaryWriter) : Nat :=
  writer.position

/-- `neoc_binary_writer_to_array`. -/
def toArray (alloc : Allocator) (writer : BinaryWriter) :
    Outcome (List UInt8) :=
  if alloc.grants writer.position then
    .ok writer.contents
  else
    .error (.error .outOfMemory "Failed to allocate output array")

/-! ## Well-formed writers -/

/-- What `create` establishes and every write keeps. -/
structure WellFormed (writer : BinaryWriter) : Prop where
  position_le : writer.position ≤ writer.data.length
  minimum_le : minCapacity ≤ writer.data.length
  length_le : writer.data.length ≤ ptrdiffMax

theorem WellFormed.length_contents {writer : BinaryWriter}
    (wellFormed : writer.WellFormed) :
    writer.contents.length = writer.position := by
  simp [contents, wellFormed.position_le]

theorem minCapacity_le_startCapacity (initialCapacity : Nat) :
    minCapacity ≤ startCapacity initialCapacity := by
  unfold startCapacity
  split
  · omega
  · exact le_rfl

theorem create_eq_ok
    {alloc : Allocator} {initialCapacity : Nat} {autoGrow : Bool}
    {writer : BinaryWriter}
    (created : create alloc initialCapacity autoGrow = .ok writer) :
    writer.WellFormed ∧ writer.autoGrow = autoGrow ∧
      writer.contents = [] := by
  unfold create at created
  split at created
  · cases created
  · split at created
    · cases created
    · rename_i granted
      injection created with built
      subst built
      have bounded :=
        alloc.grants_le _ (Bool.eq_true_of_not_eq_false granted)
      refine ⟨⟨Nat.zero_le _, ?_, ?_⟩, rfl, rfl⟩
      · rw [List.length_replicate]
        exact minCapacity_le_startCapacity initialCapacity
      · rw [List.length_replicate]
        exact bounded

theorem create_succeeds
    {alloc : Allocator} {initialCapacity : Nat} (autoGrow : Bool)
    (serves : alloc.Serves (max initialCapacity structSize)) :
    ∃ writer, create alloc initialCapacity autoGrow = .ok writer := by
  have header : alloc.grants structSize = true :=
    serves _ (le_max_right _ _)
  have buffer : alloc.grants (startCapacity initialCapacity) = true := by
    apply serves
    unfold startCapacity
    split
    · exact le_max_left _ _
    · exact (by decide : minCapacity ≤ structSize).trans (le_max_right _ _)
  simp only [create, header, buffer, Bool.true_eq_false, if_false]
  exact ⟨_, rfl⟩

/-! ## Making room keeps what was written -/

theorem growCapacity_ge
    {fuel newCapacity needed result : Nat}
    (found : growCapacity fuel newCapacity needed = some result) :
    needed ≤ result := by
  induction fuel generalizing newCapacity with
  | zero => cases found
  | succ fuel induction =>
      rw [growCapacity] at found
      split at found
      · exact induction found
      · injection found with equal
        omega

/-- Doubling stops before it passes twice the needed size. -/
theorem growCapacity_finds
    {fuel newCapacity needed : Nat}
    (enough : needed ≤ newCapacity * 2 ^ fuel)
    (small : newCapacity < 2 * needed)
    (fits : 2 * needed ≤ ptrdiffMax) :
    ∃ result,
      growCapacity (fuel + 1) newCapacity needed = some result ∧
        result < 2 * needed := by
  induction fuel generalizing newCapacity with
  | zero =>
      rw [growCapacity, if_neg (by omega)]
      exact ⟨newCapacity, rfl, small⟩
  | succ fuel induction =>
      rw [growCapacity]
      by_cases below : newCapacity < needed
      · have exactDouble :
            newCapacity * growthFactor % sizeModulus = newCapacity * 2 := by
          simp only [growthFactor, sizeModulus]
          simp only [ptrdiffMax] at fits
          omega
        rw [if_pos below, exactDouble]
        apply induction
        · calc
            needed ≤ newCapacity * 2 ^ (fuel + 1) := enough
            _ = newCapacity * 2 * 2 ^ fuel := by rw [pow_succ']; ring
        · omega
      · rw [if_neg below]
        exact ⟨newCapacity, rfl, small⟩

theorem length_resize (data : List UInt8) (size : Nat) :
    (resize data size).length = size := by
  simp [resize]
  omega

theorem take_resize {data : List UInt8} {size count : Nat}
    (kept : count ≤ data.length) (bounded : count ≤ size) :
    (resize data size).take count = data.take count := by
  rw [resize, List.take_append_of_le_length, List.take_take]
  · rw [min_eq_left bounded]
  · rw [List.length_take]
    omega

/-- Room is made without moving the position or changing a written byte. -/
theorem ensureCapacity_keeps
    {alloc : Allocator} {required : Nat} {writer grown : BinaryWriter}
    (wellFormed : writer.WellFormed)
    (ran : ensureCapacity alloc required writer = (.ok (), grown)) :
    grown.WellFormed ∧ grown.autoGrow = writer.autoGrow ∧
      grown.position = writer.position ∧
        grown.contents = writer.contents := by
  unfold ensureCapacity at ran
  dsimp only at ran
  split at ran
  · cases ran
    exact ⟨wellFormed, rfl, rfl, rfl⟩
  · rename_i full
    split at ran
    · cases ran
    · split at ran
      · cases ran
      · rename_i newCapacity found
        split at ran
        · rename_i granted
          cases ran
          have large := growCapacity_ge found
          have bounded := alloc.grants_le _ granted
          have longer : writer.data.length < newCapacity := by
            simp only [capacity] at full
            omega
          have within := wellFormed.position_le
          have minimum := wellFormed.minimum_le
          refine ⟨⟨?_, ?_, ?_⟩, rfl, rfl, ?_⟩
          · simp only [length_resize]
            omega
          · simp only [length_resize]
            omega
          · simpa only [length_resize] using bounded
          · exact take_resize within (within.trans longer.le)
        · cases ran

/-- With enough memory an auto-growing writer always finds room. -/
theorem ensureCapacity_succeeds
    {alloc : Allocator} {required : Nat} {writer : BinaryWriter}
    (wellFormed : writer.WellFormed) (grows : writer.autoGrow = true)
    (serves : alloc.Serves (2 * (writer.position + required))) :
    ∃ grown,
      ensureCapacity alloc required writer = (.ok (), grown) ∧
        grown.position = writer.position ∧
          grown.position + required ≤ grown.capacity := by
  have fits := serves.bound_le
  have noWrap :
      sizeAdd writer.position required = writer.position + required := by
    apply sizeAdd_of_lt
    simp only [sizeModulus]
    simp only [ptrdiffMax] at fits
    omega
  unfold ensureCapacity
  simp only [noWrap]
  by_cases room : writer.position + required ≤ writer.capacity
  · rw [if_pos room]
    exact ⟨writer, rfl, rfl, room⟩
  · have minimum := wellFormed.minimum_le
    simp only [capacity, minCapacity] at room minimum
    have exactDouble :
        writer.capacity * growthFactor % sizeModulus =
          writer.data.length * 2 := by
      simp only [capacity, growthFactor, sizeModulus]
      simp only [ptrdiffMax] at fits
      omega
    obtain ⟨newCapacity, found, bounded⟩ :=
      @growCapacity_finds 64 (writer.data.length * 2)
        (writer.position + required)
        (by simp only [ptrdiffMax] at fits; omega) (by omega) fits
    have granted : alloc.grants newCapacity = true :=
      serves newCapacity (Nat.le_of_lt bounded)
    have large := growCapacity_ge found
    rw [if_neg (by simpa [capacity] using room), if_neg (by simp [grows]),
      exactDouble, found]
    simp only [granted, if_true]
    refine ⟨_, rfl, rfl, ?_⟩
    simpa [capacity, length_resize] using large

/-! ## What a sequence of writes does -/

/-- A call that succeeds has appended exactly these bytes. -/
def Appends (call : Routine BinaryWriter Unit) (bytes : List UInt8) : Prop :=
  ∀ writer written,
    writer.WellFormed → call writer = (.ok (), written) →
      written.WellFormed ∧ written.autoGrow = writer.autoGrow ∧
        written.contents = writer.contents ++ bytes

/-- An auto-growing writer with enough memory takes `count` more bytes. -/
def Succeeds (alloc : Allocator) (call : Routine BinaryWriter Unit)
    (count : Nat) : Prop :=
  ∀ writer : BinaryWriter,
    writer.WellFormed → writer.autoGrow = true →
      alloc.Serves (2 * (writer.position + count)) →
        ∃ written, call writer = (.ok (), written)

/-- A call that appends these bytes, and does so whenever memory allows. -/
structure Emits (alloc : Allocator) (call : Routine BinaryWriter Unit)
    (bytes : List UInt8) : Prop where
  appends : Appends call bytes
  succeeds : Succeeds alloc call bytes.length

variable {alloc : Allocator}
variable {first second : Routine BinaryWriter Unit}
variable {bytes firstBytes secondBytes : List UInt8}

theorem Appends.position {call : Routine BinaryWriter Unit}
    {writer written : BinaryWriter}
    (appends : Appends call bytes) (wellFormed : writer.WellFormed)
    (ran : call writer = (.ok (), written)) :
    written.position = writer.position + bytes.length := by
  obtain ⟨kept, -, contents⟩ := appends writer written wellFormed ran
  rw [← kept.length_contents, contents, List.length_append,
    wellFormed.length_contents]

theorem Appends.bind (head : Appends first firstBytes)
    (tail : Appends second secondBytes) :
    Appends (first >>= fun _ => second) (firstBytes ++ secondBytes) := by
  intro writer written wellFormed ran
  obtain ⟨_, between, ranFirst, ranSecond⟩ := Call.bind_eq_ok_iff.mp ran
  obtain ⟨wellFormed', grows, contents⟩ := head _ _ wellFormed ranFirst
  obtain ⟨wellFormed'', grows', contents'⟩ := tail _ _ wellFormed' ranSecond
  refine ⟨wellFormed'', grows'.trans grows, ?_⟩
  rw [contents', contents, List.append_assoc]

theorem Emits.bind (head : Emits alloc first firstBytes)
    (tail : Emits alloc second secondBytes) :
    Emits alloc (first >>= fun _ => second)
      (firstBytes ++ secondBytes) := by
  refine ⟨head.appends.bind tail.appends, ?_⟩
  intro writer wellFormed grows serves
  rw [List.length_append] at serves
  obtain ⟨between, ranFirst⟩ :=
    head.succeeds writer wellFormed grows (serves.mono (by omega))
  obtain ⟨wellFormed', grows', -⟩ :=
    head.appends _ _ wellFormed ranFirst
  have position := head.appends.position wellFormed ranFirst
  obtain ⟨written, ranSecond⟩ :=
    tail.succeeds between wellFormed' (grows'.trans grows)
      (serves.mono (by omega))
  exact ⟨written, Call.bind_eq_ok_iff.mpr ⟨(), between, ranFirst, ranSecond⟩⟩

theorem appends_pure : Appends (pure ()) [] := by
  intro writer written wellFormed ran
  cases ran
  exact ⟨wellFormed, rfl, (List.append_nil _).symm⟩

/-- A call that halts has appended whatever one likes. -/
theorem appends_halt (reason : Halt) (bytes : List UInt8) :
    Appends (Call.halt reason) bytes := by
  intro writer written _ ran
  cases ran

theorem appends_forEach {α : Type} {call : α → Routine BinaryWriter Unit}
    {bytesOf : α → List UInt8} {items : List α}
    (each : ∀ item ∈ items, Appends (call item) (bytesOf item)) :
    Appends (Call.forEach call items) (items.flatMap bytesOf) := by
  induction items with
  | nil => exact appends_pure
  | cons item rest induction =>
      rcases List.forall_mem_cons.mp each with ⟨head, tail⟩
      rw [List.flatMap_cons]
      exact head.bind (induction tail)

theorem appends_ite {condition : Prop} [Decidable condition]
    (whenTrue : Appends first firstBytes)
    (whenFalse : Appends second secondBytes) :
    Appends (if condition then first else second)
      (if condition then firstBytes else secondBytes) := by
  split
  · exact whenTrue
  · exact whenFalse

theorem emits_pure : Emits alloc (pure ()) [] := by
  refine ⟨appends_pure, ?_⟩
  intro writer _ _ _
  exact ⟨writer, rfl⟩

theorem emits_forEach {α : Type} {call : α → Routine BinaryWriter Unit}
    {bytesOf : α → List UInt8} {items : List α}
    (each : ∀ item ∈ items, Emits alloc (call item) (bytesOf item)) :
    Emits alloc (Call.forEach call items) (items.flatMap bytesOf) := by
  induction items with
  | nil => exact emits_pure
  | cons item rest induction =>
      rcases List.forall_mem_cons.mp each with ⟨head, tail⟩
      rw [List.flatMap_cons]
      exact head.bind (induction tail)

theorem emits_ite {condition : Prop} [Decidable condition]
    (whenTrue : condition → Emits alloc first firstBytes)
    (whenFalse : Emits alloc second secondBytes) :
    Emits alloc (if condition then first else second)
      (if condition then firstBytes else secondBytes) := by
  split
  · rename_i holds
    exact whenTrue holds
  · exact whenFalse

theorem store_appends (bytes : List UInt8) : Appends (store bytes) bytes := by
  intro writer written wellFormed ran
  unfold store at ran
  split at ran
  · rename_i room
    cases ran
    have within := wellFormed.position_le
    have minimum := wellFormed.minimum_le
    have bounded := wellFormed.length_le
    simp only [capacity] at room
    have unchanged :
        (writer.data.take writer.position ++ bytes ++
          writer.data.drop (writer.position + bytes.length)).length =
            writer.data.length := by
      simp only [List.length_append, List.length_take, List.length_drop]
      omega
    refine ⟨⟨?_, ?_, ?_⟩, rfl, ?_⟩
    · simpa only [unchanged] using room
    · simpa only [unchanged] using minimum
    · simpa only [unchanged] using bounded
    · simp only [contents]
      rw [List.take_append_of_le_length]
      · rw [List.take_of_length_le]
        simp only [List.length_append, List.length_take]
        omega
      · simp only [List.length_append, List.length_take]
        omega
  · cases ran

/-- Room for a number of bytes followed by storing that many. -/
theorem ensureCapacity_store_emits (bytes : List UInt8) {count : Nat}
    (exact : bytes.length = count) :
    Emits alloc
      (ensureCapacity alloc count >>= fun _ => store bytes) bytes := by
  constructor
  · intro writer written wellFormed ran
    obtain ⟨_, grown, ranFirst, ranSecond⟩ := Call.bind_eq_ok_iff.mp ran
    obtain ⟨kept, grows, -, contents⟩ :=
      ensureCapacity_keeps wellFormed ranFirst
    obtain ⟨kept', grows', contents'⟩ :=
      store_appends bytes grown written kept ranSecond
    exact ⟨kept', grows'.trans grows, by rw [contents', contents]⟩
  · intro writer wellFormed grows serves
    rw [exact] at serves
    obtain ⟨grown, ran, -, room⟩ :=
      ensureCapacity_succeeds wellFormed grows serves
    rw [← exact] at room
    have stored : ∃ written, store bytes grown = (.ok (), written) := by
      rw [store, if_pos room]
      exact ⟨_, rfl⟩
    obtain ⟨written, ranStore⟩ := stored
    exact ⟨written, Call.bind_eq_ok_iff.mpr ⟨(), grown, ran, ranStore⟩⟩

/-! ## The bytes of each operation -/

theorem writeByte_emits (value : UInt8) :
    Emits alloc (writeByte alloc value) [value] :=
  ensureCapacity_store_emits [value] rfl

theorem writeBytes_emits (content : List UInt8) :
    Emits alloc (writeBytes alloc (.items content)) content := by
  simp only [writeBytes]
  split
  · rename_i empty
    rw [List.length_eq_zero_iff.mp empty]
    exact emits_pure
  · exact ensureCapacity_store_emits content rfl

theorem writeBytes_appends (data : Buffer) :
    Appends (writeBytes alloc data) data.content := by
  cases data with
  | null len =>
      intro writer written _ ran
      cases ran
  | items content => exact (writeBytes_emits content).appends

theorem writeWord_emits (width value : Nat) :
    Emits alloc (writeWord alloc width value)
      (LittleEndian.toBytes width value) :=
  ensureCapacity_store_emits _ (LittleEndian.length_toBytes width value)

theorem writeBool_emits (value : Bool) :
    Emits alloc (writeBool alloc value) [if value then 1 else 0] :=
  writeByte_emits _

theorem writeVarInt_emits (value : UInt64) :
    Emits alloc (writeVarInt alloc value) (VarInt.encode value.toNat) := by
  have low : value < 0xFD ↔ value.toNat < 0xFD := UInt64.lt_iff_toNat_lt
  have middle : value ≤ 0xFFFF ↔ value.toNat ≤ 0xFFFF :=
    UInt64.le_iff_toNat_le
  have high : value ≤ 0xFFFFFFFF ↔ value.toNat ≤ 0xFFFFFFFF :=
    UInt64.le_iff_toNat_le
  simp only [writeVarInt, VarInt.encode, low, middle, high]
  split_ifs with one two four
  · have exact8 : LittleEndian.toBytes 1 value.toNat = [value.toUInt8] := by
      rw [LittleEndian.toBytes, Nat.mod_eq_of_lt (by omega),
        UInt8.ofNat_uInt64ToNat, LittleEndian.toBytes]
    rw [exact8]
    exact writeByte_emits value.toUInt8
  · have exact16 : value.toUInt16.toNat = value.toNat := by
      rw [UInt64.toNat_toUInt16]
      exact Nat.mod_eq_of_lt (Nat.lt_succ_of_le two)
    rw [← exact16]
    exact (writeByte_emits 0xFD).bind (writeWord_emits 2 _)
  · have exact32 : value.toUInt32.toNat = value.toNat := by
      rw [UInt64.toNat_toUInt32]
      exact Nat.mod_eq_of_lt (Nat.lt_succ_of_le four)
    rw [← exact32]
    exact (writeByte_emits 0xFE).bind (writeWord_emits 4 _)
  · exact (writeByte_emits 0xFF).bind (writeWord_emits 8 _)

/-- No call writes more bytes than an object can hold. -/
theorem Emits.of_long {call : Routine BinaryWriter Unit}
    (emits : Emits alloc call firstBytes)
    (long : ptrdiffMax < firstBytes.length)
    (long' : ptrdiffMax < secondBytes.length) :
    Emits alloc call secondBytes := by
  constructor
  · intro writer written wellFormed ran
    obtain ⟨kept, -, -⟩ := emits.appends writer written wellFormed ran
    have position := emits.appends.position wellFormed ran
    have within := kept.position_le
    have bounded := kept.length_le
    omega
  · intro writer _ _ serves
    have bounded := serves.bound_le
    omega

/-- A variable-length byte string on the wire: its length, then its bytes. -/
def varBytes (content : List UInt8) : List UInt8 :=
  VarInt.encode content.length ++ content

theorem writeVarInt_ofNat_emits {count : Nat} (small : count < sizeModulus) :
    Emits alloc (writeVarInt alloc (UInt64.ofNat count))
      (VarInt.encode count) := by
  rw [← toNat_ofNat_size small, UInt64.ofNat_toNat]
  exact writeVarInt_emits _

theorem writeVarBytes_emits (content : List UInt8) :
    Emits alloc (writeVarBytes alloc (.items content)) (varBytes content) := by
  have body :
      Emits alloc
        (if content.length > 0 then writeBytes alloc (.items content)
          else pure ()) content := by
    split
    · exact writeBytes_emits content
    · rename_i empty
      rw [List.length_eq_zero_iff.mp (Nat.eq_zero_of_not_pos empty)]
      exact emits_pure
  by_cases small : content.length < sizeModulus
  · exact (writeVarInt_ofNat_emits small).bind body
  · have long : ptrdiffMax < content.length := by
      simp only [sizeModulus] at small
      simp only [ptrdiffMax]
      omega
    refine ((writeVarInt_emits (UInt64.ofNat content.length)).bind
      body).of_long ?_ ?_
    · rw [List.length_append]
      omega
    · rw [varBytes, List.length_append]
      omega

theorem writeVarString_emits (text : CString) :
    Emits alloc (writeVarString alloc (some text))
      (varBytes text.characters) :=
  writeVarBytes_emits text.characters

/-! ## The finished array -/

/-- `neoc_var_int_size`, which several files define for themselves. -/
def varIntSize (value : Nat) : Nat :=
  if value < 0xFD then 1
  else if value ≤ 0xFFFF then 3
  else if value ≤ 0xFFFFFFFF then 5
  else 9

/-- The prefix for a count kept in a `size_t`. -/
def countBytes (count : Nat) : List UInt8 :=
  VarInt.encode (count % sizeModulus)

theorem writeCount_emits (count : Nat) :
    Emits alloc (writeVarInt alloc (UInt64.ofNat count))
      (countBytes count) := by
  have residue : (UInt64.ofNat count).toNat = count % sizeModulus :=
    UInt64.toNat_ofNat'
  rw [countBytes, ← residue]
  exact writeVarInt_emits _

theorem writeCount_appends (count : Nat) :
    Appends (writeVarInt alloc (UInt64.ofNat count)) (countBytes count) :=
  (writeCount_emits count).appends

theorem length_countBytes {count : Nat} (small : count < sizeModulus) :
    (countBytes count).length = varIntSize count := by
  rw [countBytes, Nat.mod_eq_of_lt small, VarInt.length_encode]
  rfl

/-- A buffer on the wire: its stored length, then what can be read of it. -/
def bufferBytes (data : Buffer) : List UInt8 :=
  countBytes data.len ++ data.content

theorem writeVarBytes_emits_buffer (data : Buffer) :
    Emits alloc (writeVarBytes alloc data) (bufferBytes data) := by
  apply (writeCount_emits data.len).bind
  cases data with
  | null count => exact emits_pure
  | items content =>
      dsimp only
      split
      · exact writeBytes_emits content
      · rename_i empty
        rw [Slice.content,
          List.length_eq_zero_iff.mp (Nat.eq_zero_of_not_pos empty)]
        exact emits_pure

theorem writeVarBytes_appends (data : Buffer) :
    Appends (writeVarBytes alloc data) (bufferBytes data) :=
  (writeVarBytes_emits_buffer data).appends

/-! ## From a fresh writer to an array -/

/--
The frame of every function that returns bytes: create a writer, write to it
and copy what was written.
-/
def produce (alloc : Allocator) (created : Outcome BinaryWriter)
    (calls : Routine BinaryWriter Unit) : Outcome (List UInt8) := do
  let writer ← created
  let written ← calls.eval writer
  written.2.toArray alloc

/-- The outcome of a function that creates an auto-growing writer. -/
def Fresh (created : Outcome BinaryWriter) : Prop :=
  ∀ writer,
    created = .ok writer →
      writer.WellFormed ∧ writer.autoGrow = true ∧ writer.contents = []

theorem fresh_create (initialCapacity : Nat) :
    Fresh (create alloc initialCapacity true) :=
  fun _ created => create_eq_ok created

/-- The array holds what the calls append. -/
theorem produce_eq_ok
    {created : Outcome BinaryWriter} {calls : Routine BinaryWriter Unit}
    {array : List UInt8}
    (fresh : Fresh created) (appends : Appends calls bytes)
    (made : produce alloc created calls = .ok array) :
    array = bytes := by
  rcases Except.bind_eq_ok_iff.mp made with ⟨writer, opened, rest⟩
  rcases Except.bind_eq_ok_iff.mp rest with ⟨⟨_, written⟩, ran, copied⟩
  rcases fresh writer opened with ⟨wellFormed, -, empty⟩
  have contents :=
    (appends writer written wellFormed (Call.eval_eq_ok_iff.mp ran)).2.2
  unfold toArray at copied
  split at copied
  · injection copied with equal
    rw [← equal, contents, empty, List.nil_append]
  · cases copied

/-- An array is never larger than an object can be. -/
theorem produce_length_le
    {created : Outcome BinaryWriter} {calls : Routine BinaryWriter Unit}
    {array : List UInt8}
    (made : produce alloc created calls = .ok array) :
    array.length ≤ ptrdiffMax := by
  rcases Except.bind_eq_ok_iff.mp made with ⟨writer, -, rest⟩
  rcases Except.bind_eq_ok_iff.mp rest with ⟨⟨_, written⟩, -, copied⟩
  unfold toArray at copied
  split at copied
  · rename_i granted
    injection copied with equal
    rw [← equal, contents, List.length_take]
    exact (Nat.min_le_left _ _).trans (alloc.grants_le _ granted)
  · cases copied

/-- With enough memory a fresh writer holds what the calls emit. -/
theorem Emits.fresh_run
    {created : Outcome BinaryWriter} {calls : Routine BinaryWriter Unit}
    {writer : BinaryWriter}
    (emits : Emits alloc calls bytes)
    (fresh : Fresh created) (made : created = .ok writer)
    (serves : alloc.Serves (2 * bytes.length)) :
    ∃ written,
      calls.eval writer = .ok ((), written) ∧ written.contents = bytes ∧
        written.position = bytes.length := by
  rcases fresh writer made with ⟨wellFormed, grows, empty⟩
  have start : writer.position = 0 := by
    rw [← wellFormed.length_contents, empty]
    rfl
  rcases emits.succeeds writer wellFormed grows
      (serves.mono (by rw [start]; omega))
    with ⟨written, wrote⟩
  rcases emits.appends writer written wellFormed wrote with
    ⟨kept, -, contents⟩
  rw [empty, List.nil_append] at contents
  refine ⟨written, Call.eval_eq_ok_iff.mpr wrote, contents, ?_⟩
  rw [← kept.length_contents, contents]

/-- With enough memory the array is made. -/
theorem produce_succeeds
    {created : Outcome BinaryWriter} {calls : Routine BinaryWriter Unit}
    {writer : BinaryWriter}
    (fresh : Fresh created) (made : created = .ok writer)
    (emits : Emits alloc calls bytes)
    (serves : alloc.Serves (2 * bytes.length)) :
    produce alloc created calls = .ok bytes := by
  rcases emits.fresh_run fresh made serves with
    ⟨written, ran, contents, position⟩
  have granted : alloc.grants written.position = true :=
    serves _ (by rw [position]; omega)
  rw [produce, made]
  simp only [bind, Except.bind, ran, toArray, granted, if_true, contents]

/-! ## What a successful call tells -/

/-- The fact holds whenever the call succeeds. -/
def Ensures (call : Routine BinaryWriter Unit) (fact : Prop) : Prop :=
  ∀ writer written,
    writer.WellFormed → call writer = (.ok (), written) → fact

/-- What was appended fits into an object. -/
theorem Appends.ensures_length {call : Routine BinaryWriter Unit}
    (appends : Appends call bytes) :
    Ensures call (bytes.length ≤ ptrdiffMax) := by
  intro writer written wellFormed ran
  have kept := (appends writer written wellFormed ran).1
  have position := appends.position wellFormed ran
  have within := kept.position_le
  have bounded := kept.length_le
  omega

theorem ensures_halt (reason : Halt) (fact : Prop) :
    Ensures (Call.halt reason) fact := by
  intro writer written _ ran
  cases ran

theorem Ensures.of_true {fact : Prop} (holds : fact)
    (call : Routine BinaryWriter Unit) :
    Ensures call fact :=
  fun _ _ _ _ => holds

theorem Ensures.and {call : Routine BinaryWriter Unit} {fact fact' : Prop}
    (one : Ensures call fact) (other : Ensures call fact') :
    Ensures call (fact ∧ fact') :=
  fun writer written wellFormed ran =>
    ⟨one writer written wellFormed ran, other writer written wellFormed ran⟩

theorem Ensures.imp {call : Routine BinaryWriter Unit} {fact fact' : Prop}
    (ensures : Ensures call fact) (weaker : fact → fact') :
    Ensures call fact' :=
  fun writer written wellFormed ran =>
    weaker (ensures writer written wellFormed ran)

/-- The first of two calls has succeeded. -/
theorem Ensures.bind_left {fact : Prop} (ensures : Ensures first fact) :
    Ensures (first >>= fun _ => second) fact := by
  intro writer written wellFormed ran
  rcases Call.bind_eq_ok_iff.mp ran with ⟨_, between, ranFirst, -⟩
  exact ensures writer between wellFormed ranFirst

/-- The second of two calls has succeeded. -/
theorem Ensures.bind_right {fact : Prop} (ensures : Ensures second fact)
    (appends : Appends first firstBytes) :
    Ensures (first >>= fun _ => second) fact := by
  intro writer written wellFormed ran
  rcases Call.bind_eq_ok_iff.mp ran with
    ⟨_, between, ranFirst, ranSecond⟩
  have kept := (appends writer between wellFormed ranFirst).1
  exact ensures between written kept ranSecond

theorem ensures_forEach {α : Type} {call : α → Routine BinaryWriter Unit}
    {bytesOf : α → List UInt8} {fact : α → Prop} {items : List α}
    (appends : ∀ item ∈ items, Appends (call item) (bytesOf item))
    (each : ∀ item ∈ items, Ensures (call item) (fact item)) :
    Ensures (Call.forEach call items) (∀ item ∈ items, fact item) := by
  induction items with
  | nil => exact Ensures.of_true (List.forall_mem_nil _) _
  | cons item rest induction =>
      rcases List.forall_mem_cons.mp appends with ⟨appendsHead, appendsTail⟩
      rcases List.forall_mem_cons.mp each with ⟨head, tail⟩
      rw [List.forall_mem_cons]
      exact
        (Ensures.bind_left head).and
          ((induction appendsTail tail).bind_right appendsHead)

theorem ensures_ite {condition : Prop} [Decidable condition] {fact : Prop}
    (whenTrue : Ensures first fact) :
    Ensures (if condition then first else second) (condition → fact) := by
  split
  · exact whenTrue.imp fun holds _ => holds
  · rename_i fails
    exact Ensures.of_true (fun holds => absurd holds fails) _

/-- The calls that made an array have succeeded. -/
theorem Ensures.of_produce
    {created : Outcome BinaryWriter} {calls : Routine BinaryWriter Unit}
    {array : List UInt8} {fact : Prop}
    (ensures : Ensures calls fact) (fresh : Fresh created)
    (made : produce alloc created calls = .ok array) :
    fact := by
  rcases Except.bind_eq_ok_iff.mp made with ⟨writer, opened, rest⟩
  rcases Except.bind_eq_ok_iff.mp rest with ⟨⟨_, written⟩, ran, -⟩
  exact
    ensures writer written (fresh writer opened).1
      (Call.eval_eq_ok_iff.mp ran)

end BinaryWriter

end NeoC
