import NeoC.Crypto.Hash
import NeoC.NeoVm.Machine
import NeoC.Serialization.BinaryWriter

/-!
# The script builder

A `neoc_script_builder_t` is a struct with one member, an auto-growing writer,
so its operations are routines on a `BinaryWriter`.  Each push appends the
bytes of one NeoVM instruction; `Assembles` states that about a call, and the
emitters of larger scripts are described by concatenating programs.

Two choices of the library are fixed here.  A boolean is pushed as the integer
one or zero, because the opcode table has no boolean constants.  An empty byte
string is pushed as `PUSH0`.
-/

namespace NeoC

open Foundation NeoVm

/-! ## Opcodes -/

namespace Opcode

/-- `NEOC_OP_PUSHINT8`. -/
def pushInt8 : UInt8 := 0x00

/-- `NEOC_OP_PUSHINT16`. -/
def pushInt16 : UInt8 := 0x01

/-- `NEOC_OP_PUSHINT32`. -/
def pushInt32 : UInt8 := 0x02

/-- `NEOC_OP_PUSHINT64`. -/
def pushInt64 : UInt8 := 0x03

/-- `NEOC_OP_PUSHNULL`. -/
def pushNull : UInt8 := 0x0B

/-- `NEOC_OP_PUSHDATA1`. -/
def pushData1 : UInt8 := 0x0C

/-- `NEOC_OP_PUSHDATA2`. -/
def pushData2 : UInt8 := 0x0D

/-- `NEOC_OP_PUSHDATA4`. -/
def pushData4 : UInt8 := 0x0E

/-- `NEOC_OP_PUSHM1`. -/
def pushM1 : UInt8 := 0x0F

/-- `NEOC_OP_PUSH0`. -/
def push0 : UInt8 := 0x10

/-- `NEOC_OP_PUSH1`. -/
def push1 : UInt8 := 0x11

/-- `NEOC_OP_ASSERT`. -/
def assert : UInt8 := 0x39

/-- `NEOC_OP_SYSCALL`. -/
def syscall : UInt8 := 0x41

/-- `NEOC_OP_PACKMAP`. -/
def packMap : UInt8 := 0xBE

/-- `NEOC_OP_PACK`. -/
def pack : UInt8 := 0xC0

/-- `NEOC_OP_NEWARRAY0`. -/
def newArray0 : UInt8 := 0xC2

/-- `NEOC_OP_NEWMAP`. -/
def newMap : UInt8 := 0xC8

end Opcode

/-! ## The operations -/

namespace ScriptBuilder

/-- `sizeof(neoc_script_builder_t)`. -/
def structSize : Nat := 8

/-- `neoc_script_builder_create`. -/
def create (alloc : Allocator) : Outcome BinaryWriter :=
  if alloc.neocGrants structSize then
    BinaryWriter.create alloc 256 true
  else
    .error (.error .outOfMemory "")

/-- `neoc_script_builder_emit`. -/
def emit (alloc : Allocator) (opcode : UInt8) : Routine BinaryWriter Unit :=
  BinaryWriter.writeByte alloc opcode

/-- `neoc_script_builder_emit_syscall`. -/
def emitSyscall (host : Host) (alloc : Allocator) (service : InteropService) :
    Routine BinaryWriter Unit := do
  BinaryWriter.writeByte alloc Opcode.syscall
  BinaryWriter.writeUint32 alloc (host.interopGetHash service)

/-- `neoc_script_builder_push_integer`. -/
def pushInteger (alloc : Allocator) (value : Int64) :
    Routine BinaryWriter Unit :=
  if value = -1 then
    emit alloc Opcode.pushM1
  else if 0 ≤ value ∧ value ≤ 16 then
    emit alloc (Opcode.push0 + value.toUInt64.toUInt8)
  else if -128 ≤ value ∧ value ≤ 127 then do
    emit alloc Opcode.pushInt8
    BinaryWriter.writeByte alloc value.toUInt64.toUInt8
  else if -32768 ≤ value ∧ value ≤ 32767 then do
    emit alloc Opcode.pushInt16
    BinaryWriter.writeInt16 alloc value.toInt16
  else if -2147483648 ≤ value ∧ value ≤ 2147483647 then do
    emit alloc Opcode.pushInt32
    BinaryWriter.writeInt32 alloc value.toInt32
  else do
    emit alloc Opcode.pushInt64
    BinaryWriter.writeInt64 alloc value

/-- `neoc_script_builder_push_bool`. -/
def pushBool (alloc : Allocator) (value : Bool) : Routine BinaryWriter Unit :=
  emit alloc (if value then Opcode.push1 else Opcode.push0)

/-- The opcode and length in front of a byte string. -/
def pushDataHeader (alloc : Allocator) (dataLen : Nat) :
    Routine BinaryWriter Unit :=
  if dataLen ≤ 0xFF then do
    emit alloc Opcode.pushData1
    BinaryWriter.writeByte alloc (UInt8.ofNat dataLen)
  else if dataLen ≤ 0xFFFF then do
    emit alloc Opcode.pushData2
    BinaryWriter.writeUint16 alloc (UInt16.ofNat dataLen)
  else do
    emit alloc Opcode.pushData4
    BinaryWriter.writeUint32 alloc (UInt32.ofNat dataLen)

/-- `neoc_script_builder_push_data`. -/
def pushData (alloc : Allocator) (data : Buffer) :
    Routine BinaryWriter Unit :=
  match data with
  | .null count =>
      if count > 0 then
        errorSet .nullPointer ""
      else
        emit alloc Opcode.push0
  | .items content =>
      if content.length = 0 then
        emit alloc Opcode.push0
      else do
        pushDataHeader alloc content.length
        BinaryWriter.writeBytes alloc (.items content)

/-- `neoc_script_builder_push_string`. -/
def pushString (alloc : Allocator) (str : CString) :
    Routine BinaryWriter Unit :=
  pushData alloc (.items str.characters)

/-- `neoc_script_builder_push_null`. -/
def pushNull (alloc : Allocator) : Routine BinaryWriter Unit :=
  emit alloc Opcode.pushNull

/-- `neoc_script_builder_push_hash160`. -/
def pushHash160 (alloc : Allocator) (hash : Hash160) :
    Routine BinaryWriter Unit :=
  pushData alloc (.items hash.toLittleEndianBytes)

/-- `neoc_script_builder_to_array`. -/
def toArray (alloc : Allocator) (builder : BinaryWriter) :
    Outcome (List UInt8) :=
  builder.toArray alloc

/-- Create a builder, push and emit, and take the script. -/
def build (alloc : Allocator) (calls : Routine BinaryWriter Unit) :
    Outcome (List UInt8) :=
  BinaryWriter.produce alloc (create alloc) calls

/-- `neoc_script_builder_build_verification_script`. -/
def buildVerificationScript (host : Host) (alloc : Allocator)
    (publicKey : List UInt8) : Outcome (List UInt8) :=
  if publicKey.length ≠ 33 ∧ publicKey.length ≠ 65 then
    .error (.error .invalidArgument "Invalid public key length")
  else if alloc.grants (1 + 1 + publicKey.length + 1 + 4) = false then
    .error (.error .outOfMemory "Failed to allocate script")
  else
    .ok
      ([Opcode.pushData1, UInt8.ofNat publicKey.length] ++ publicKey ++
        Opcode.syscall ::
          LittleEndian.toBytes 4
            (host.interopGetHash .systemCryptoCheckSig).toNat)

/-! ## Building a whole script -/

theorem fresh_create (alloc : Allocator) :
    BinaryWriter.Fresh (create alloc) := by
  intro writer created
  unfold create at created
  split at created
  · exact BinaryWriter.create_eq_ok created
  · cases created

theorem create_succeeds {alloc : Allocator} (serves : alloc.Serves 256) :
    ∃ builder, create alloc = .ok builder := by
  rw [create, if_pos (serves.neocGrants (by decide) (by decide))]
  exact BinaryWriter.create_succeeds true serves

theorem build_eq_ok {alloc : Allocator} {calls : Routine BinaryWriter Unit}
    {bytes script : List UInt8}
    (appends : BinaryWriter.Appends calls bytes)
    (built : build alloc calls = .ok script) :
    script = bytes :=
  BinaryWriter.produce_eq_ok (fresh_create alloc) appends built

theorem build_succeeds {alloc : Allocator}
    {calls : Routine BinaryWriter Unit} {bytes : List UInt8}
    (emits : BinaryWriter.Emits alloc calls bytes)
    (serves : alloc.Serves (max 256 (2 * bytes.length))) :
    build alloc calls = .ok bytes := by
  rcases create_succeeds (serves.mono (le_max_left _ _)) with
    ⟨builder, created⟩
  exact
    BinaryWriter.produce_succeeds (fresh_create alloc) created emits
      (serves.mono (le_max_right _ _))

/-! ## Each push is one instruction -/

/-- The call appends the bytes of the program, whenever memory allows. -/
abbrev Assembles (alloc : Allocator) (call : Routine BinaryWriter Unit)
    (program : List Instruction) : Prop :=
  BinaryWriter.Emits alloc call (assemble program)

variable {alloc : Allocator}

theorem Assembles.bind {first second : Routine BinaryWriter Unit}
    {head tail : List Instruction}
    (assemblesFirst : Assembles alloc first head)
    (assemblesSecond : Assembles alloc second tail) :
    Assembles alloc (first >>= fun _ => second) (head ++ tail) := by
  rw [Assembles, assemble_append]
  exact BinaryWriter.Emits.bind assemblesFirst assemblesSecond

theorem assembles_of_emits {call : Routine BinaryWriter Unit}
    {instruction : Instruction}
    (emits : BinaryWriter.Emits alloc call instruction.encode) :
    Assembles alloc call [instruction] := by
  rw [Assembles, assemble_cons]
  rwa [show assemble [] = [] from rfl, List.append_nil]

theorem emit_assembles {opcode : UInt8} {instruction : Instruction}
    (exact : instruction.encode = [opcode]) :
    Assembles alloc (emit alloc opcode) [instruction] := by
  apply assembles_of_emits
  rw [exact]
  exact BinaryWriter.writeByte_emits opcode

theorem emitSyscall_assembles (host : Host) (service : InteropService) :
    Assembles alloc (emitSyscall host alloc service)
      [.syscall (host.interopGetHash service)] := by
  apply assembles_of_emits
  exact
    (BinaryWriter.writeByte_emits Opcode.syscall).bind
      (BinaryWriter.writeWord_emits 4 _)

theorem small_opcode {value : Int64}
    (low : 0 ≤ value.toInt) (high : value.toInt ≤ 16) :
    [UInt8.ofNat (0x10 + value.toInt.toNat)] =
      [Opcode.push0 + value.toUInt64.toUInt8] := by
  have word : value.toUInt64.toNat = value.toInt.toNat := by
    have residue :
        value.toUInt64.toNat = (value.toInt % (2 ^ 64 : Nat)).toNat :=
      LittleEndian.toNat_word value.toBitVec
    rw [residue]
    omega
  congr 1
  apply UInt8.toNat_inj.mp
  rw [UInt8.toNat_ofNat', UInt8.toNat_add, UInt64.toNat_toUInt8, word]
  rw [Nat.mod_eq_of_lt (by omega : value.toInt.toNat < 256)]
  rfl

theorem byte_of_int64 (value : Int64) :
    [value.toUInt64.toUInt8] =
      LittleEndian.toBytesSigned 1 value.toInt := by
  have word : value.toUInt64.toNat = (value.toInt % (2 ^ 64 : Nat)).toNat :=
    LittleEndian.toNat_word value.toBitVec
  have byte :
      (value.toInt % (256 ^ 1 : Nat)).toNat % 256 =
        value.toUInt64.toNat % 256 := by
    rw [word]
    omega
  rw [LittleEndian.toBytesSigned, LittleEndian.toBytes, byte,
    ← UInt64.toNat_toUInt8, UInt8.ofNat_toNat]
  rfl

/-- Integers take the shortest of the forms the machine knows. -/
theorem pushInteger_assembles (value : Int64) :
    Assembles alloc (pushInteger alloc value) [.pushInt value.toInt] := by
  apply assembles_of_emits
  have minusOne : value = -1 ↔ value.toInt = -1 := by
    rw [← Int64.toInt_inj]
    rfl
  have atLeast (bound : Int64) : bound ≤ value ↔ bound.toInt ≤ value.toInt :=
    Int64.le_iff_toInt_le
  have atMost (bound : Int64) : value ≤ bound ↔ value.toInt ≤ bound.toInt :=
    Int64.le_iff_toInt_le
  have zero : (0 : Int64).toInt = 0 := rfl
  have sixteen : (16 : Int64).toInt = 16 := rfl
  have low8 : (-128 : Int64).toInt = -128 := rfl
  have high8 : (127 : Int64).toInt = 127 := rfl
  have low16 : (-32768 : Int64).toInt = -32768 := rfl
  have high16 : (32767 : Int64).toInt = 32767 := rfl
  have low32 : (-2147483648 : Int64).toInt = -2147483648 := rfl
  have high32 : (2147483647 : Int64).toInt = 2147483647 := rfl
  simp only [pushInteger, Instruction.encode, minusOne, atLeast, atMost,
    zero, sixteen, low8, high8, low16, high16, low32, high32]
  split_ifs with isMinusOne small one two four
  · exact BinaryWriter.writeByte_emits Opcode.pushM1
  · rw [small_opcode small.1 small.2]
    exact BinaryWriter.writeByte_emits _
  · rw [← byte_of_int64]
    exact
      (BinaryWriter.writeByte_emits Opcode.pushInt8).bind
        (BinaryWriter.writeByte_emits _)
  · have same : value.toInt16.toInt = value.toInt := by
      rw [Int64.toInt_toInt16]
      exact Int.bmod_eq_of_le (by omega) (by omega)
    have word :
        LittleEndian.toBytes 2 value.toInt16.toUInt16.toNat =
          LittleEndian.toBytesSigned 2 value.toInt16.toInt :=
      LittleEndian.toBytes_word 2 value.toInt16.toBitVec
    rw [← same, ← word]
    exact
      (BinaryWriter.writeByte_emits Opcode.pushInt16).bind
        (BinaryWriter.writeWord_emits 2 _)
  · have same : value.toInt32.toInt = value.toInt := by
      rw [Int64.toInt_toInt32]
      exact Int.bmod_eq_of_le (by omega) (by omega)
    have word :
        LittleEndian.toBytes 4 value.toInt32.toUInt32.toNat =
          LittleEndian.toBytesSigned 4 value.toInt32.toInt :=
      LittleEndian.toBytes_word 4 value.toInt32.toBitVec
    rw [← same, ← word]
    exact
      (BinaryWriter.writeByte_emits Opcode.pushInt32).bind
        (BinaryWriter.writeWord_emits 4 _)
  · have word :
        LittleEndian.toBytes 8 value.toUInt64.toNat =
          LittleEndian.toBytesSigned 8 value.toInt :=
      LittleEndian.toBytes_word 8 value.toBitVec
    rw [← word]
    exact
      (BinaryWriter.writeByte_emits Opcode.pushInt64).bind
        (BinaryWriter.writeWord_emits 8 _)

theorem pushBool_assembles (value : Bool) :
    Assembles alloc (pushBool alloc value)
      [.pushInt (if value then 1 else 0)] := by
  cases value with
  | false => exact emit_assembles rfl
  | true => exact emit_assembles rfl

/-- The instruction the library uses for a byte string. -/
def instructionOfBytes (content : List UInt8) : Instruction :=
  if content.length = 0 then .pushInt 0 else .pushData content

theorem pushData_assembles (content : List UInt8) :
    Assembles alloc (pushData alloc (.items content))
      [instructionOfBytes content] := by
  rw [pushData, instructionOfBytes]
  split
  · exact emit_assembles rfl
  · apply assembles_of_emits
    rw [Instruction.encode, pushDataHeader]
    split_ifs with one two
    · have exact8 :
          LittleEndian.toBytes 1 content.length =
            [UInt8.ofNat content.length] := by
        rw [LittleEndian.toBytes, Nat.mod_eq_of_lt (by omega)]
        rfl
      rw [exact8]
      exact
        ((BinaryWriter.writeByte_emits Opcode.pushData1).bind
          (BinaryWriter.writeByte_emits _)).bind
            (BinaryWriter.writeBytes_emits content)
    · have residue :
          LittleEndian.toBytes 2 (UInt16.ofNat content.length).toNat =
            LittleEndian.toBytes 2 content.length := by
        rw [UInt16.toNat_ofNat']
        exact LittleEndian.toBytes_mod 2 content.length
      rw [← residue]
      exact
        ((BinaryWriter.writeByte_emits Opcode.pushData2).bind
          (BinaryWriter.writeWord_emits 2 _)).bind
            (BinaryWriter.writeBytes_emits content)
    · have residue :
          LittleEndian.toBytes 4 (UInt32.ofNat content.length).toNat =
            LittleEndian.toBytes 4 content.length := by
        rw [UInt32.toNat_ofNat']
        exact LittleEndian.toBytes_mod 4 content.length
      rw [← residue]
      exact
        ((BinaryWriter.writeByte_emits Opcode.pushData4).bind
          (BinaryWriter.writeWord_emits 4 _)).bind
            (BinaryWriter.writeBytes_emits content)

theorem pushNull_assembles : Assembles alloc (pushNull alloc) [.pushNull] :=
  emit_assembles rfl

end ScriptBuilder

end NeoC
