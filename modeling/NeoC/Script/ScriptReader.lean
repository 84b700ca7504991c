import NeoC.Runtime.Text
import NeoC.Script.Opcode

/-!
# The script reader

`neoc_script_reader_to_opcode_string` walks over a script and writes one line
for each opcode it meets.  It does not consult the opcode table: the names and
the operand sizes are written out a second time in its own file.

What it writes is what the table describes exactly when the two files agree on
every instruction it meets, no counted operand is longer than the 255 bytes
that its buffer for digits holds, and every buffer for such an operand is
granted.  Where the sizes disagree, the reader loses its place and takes bytes
of an operand for opcodes.
-/

namespace NeoC

open Foundation JsonGrammar

/--
A `neoc_script_reader_t`.  The bytes of the script before the position are
never looked at again and are left out.
-/
structure ScriptReader where
  unread : List UInt8
  output : List UInt8
  outputSize : Nat
deriving DecidableEq, Repr

namespace ScriptReader

/-! ## Reading and writing -/

/-- `neoc_script_reader_read_byte`. -/
def readByte : Routine ScriptReader UInt8 :=
  fun reader =>
    match reader.unread with
    | [] => errorSet .endOfStream "" reader
    | byte :: rest => (.ok byte, { reader with unread := rest })

/--
`neoc_script_reader_read_bytes`.  A count has at most 32 bits and a script is
an object, so the sum in the check does not wrap.
-/
def readBytes (count : Nat) : Routine ScriptReader (List UInt8) :=
  fun reader =>
    if reader.unread.length < count then
      errorSet .endOfStream "" reader
    else
      (.ok (reader.unread.take count),
        { reader with unread := reader.unread.drop count })

/-- `neoc_script_reader_append_output`. -/
def appendOutput (text : List UInt8) : Routine ScriptReader Unit :=
  fun reader =>
    if reader.output.length + text.length + 1 > reader.outputSize then
      errorSet .bufferTooSmall "" reader
    else
      (.ok (), { reader with output := reader.output ++ text })

/-- `neoc_script_reader_append_formatted` with the text that is formatted. -/
def appendFormatted (text : List UInt8) : Routine ScriptReader Unit :=
  if 256 ≤ text.length then
    errorSet .bufferTooSmall ""
  else
    appendOutput text

/-- `if (result == NEOC_SUCCESS) { ... }`: an error code is passed over. -/
def onSuccess {α : Type} (call : Routine ScriptReader α)
    (next : α → Routine ScriptReader Unit) : Routine ScriptReader Unit :=
  fun reader =>
    match call reader with
    | (.ok value, reader') => next value reader'
    | (.error (.error _ _), reader') => (.ok (), reader')
    | (.error reason, reader') => (.error reason, reader')

/-! ## The tables of the reader -/

/-- The cases of `opcode_to_string`. -/
def opcodeStrings : List (UInt8 × String) :=
  [(0x00, "PUSHINT8"), (0x01, "PUSHINT16"), (0x02, "PUSHINT32"),
    (0x03, "PUSHINT64"), (0x04, "PUSHINT128"), (0x05, "PUSHINT256"),
    (0x0A, "PUSHA"), (0x0B, "PUSHNULL"), (0x0C, "PUSHDATA1"),
    (0x0D, "PUSHDATA2"), (0x0E, "PUSHDATA4"), (0x0F, "PUSHM1"),
    (0x10, "PUSH0"), (0x11, "PUSH1"), (0x12, "PUSH2"), (0x13, "PUSH3"),
    (0x14, "PUSH4"), (0x15, "PUSH5"), (0x16, "PUSH6"), (0x17, "PUSH7"),
    (0x18, "PUSH8"), (0x19, "PUSH9"), (0x1A, "PUSH10"), (0x1B, "PUSH11"),
    (0x1C, "PUSH12"), (0x1D, "PUSH13"), (0x1E, "PUSH14"), (0x1F, "PUSH15"),
    (0x20, "PUSH16"), (0x21, "NOP"), (0x22, "JMP"), (0x23, "JMP_L"),
    (0x24, "JMPIF"), (0x25, "JMPIF_L"), (0x26, "JMPIFNOT"),
    (0x27, "JMPIFNOT_L"), (0x28, "JMPEQ"), (0x29, "JMPEQ_L"), (0x2A, "JMPNE"),
    (0x2B, "JMPNE_L"), (0x2C, "JMPGT"), (0x2D, "JMPGT_L"), (0x2E, "JMPGE"),
    (0x2F, "JMPGE_L"), (0x30, "JMPLT"), (0x31, "JMPLT_L"), (0x32, "JMPLE"),
    (0x33, "JMPLE_L"), (0x34, "CALL"), (0x35, "CALL_L"), (0x36, "CALLA"),
    (0x37, "CALLT"), (0x38, "ABORT"), (0x39, "ASSERT"), (0x3A, "THROW"),
    (0x3B, "TRY"), (0x3C, "TRY_L"), (0x3D, "ENDTRY"), (0x3E, "ENDTRY_L"),
    (0x3F, "ENDFINALLY"), (0x40, "RET"), (0x41, "SYSCALL")]

/-- `opcode_to_string`. -/
def opcodeToString (opcode : UInt8) : String :=
  ((opcodeStrings.find? (·.1 == opcode)).map Prod.snd).getD "UNKNOWN"

/--
`get_operand_size_info`: the size of a fixed operand and the width of a
length, each zero if there is none.
-/
def getOperandSizeInfo (opcode : UInt8) : Nat × Nat :=
  -- PUSHINT8, the short jumps, CALL, ENDTRY
  if opcode ∈ [0x00, 0x22, 0x24, 0x26, 0x28, 0x2A, 0x2C, 0x2E, 0x30, 0x32,
      0x34, 0x3D] then
    (1, 0)
  -- PUSHINT16, the long jumps, CALL_L, ENDTRY_L
  else if opcode ∈ [0x01, 0x23, 0x25, 0x27, 0x29, 0x2B, 0x2D, 0x2F, 0x31,
      0x33, 0x35, 0x3E] then
    (2, 0)
  -- PUSHINT32, PUSHA, SYSCALL, ENDFINALLY
  else if opcode ∈ [0x02, 0x0A, 0x41, 0x3F] then
    (4, 0)
  -- PUSHINT64, PUSHINT128, PUSHINT256
  else if opcode ∈ [0x03, 0x04, 0x05] then
    (8, 0)
  -- PUSHDATA1, PUSHDATA2, PUSHDATA4
  else if opcode = 0x0C then
    (0, 1)
  else if opcode = 0x0D then
    (0, 2)
  else if opcode = 0x0E then
    (0, 4)
  else
    (0, 0)

/-! ## The disassembler -/

/-- The size of the buffer for hexadecimal digits. -/
def hexStringSize : Nat := 512

/-- `max_hex_bytes`. -/
def maxHexBytes : Nat := (hexStringSize - 1) / 2

/-- The branch for an operand of fixed size. -/
def appendFixed (fixedSize : Nat) : Routine ScriptReader Unit :=
  if fixedSize ≤ 256 then
    onSuccess (readBytes fixedSize) fun operandData =>
      onSuccess (Call.lift (Hex.encode operandData hexStringSize false false))
        fun hexString => appendFormatted (0x20 :: hexString.characters)
  else
    pure ()

/-- `read_prefix_size`. -/
def readPrefixSize (width : Nat) : Routine ScriptReader Nat := do
  let bytes ← Call.times readByte width
  pure (LittleEndian.ofBytes bytes)

/-- The operand behind a length that was read. -/
def appendBytes (alloc : Allocator) (operandSize : Nat) :
    Routine ScriptReader Unit :=
  if 0 < operandSize then do
    appendFormatted (0x20 :: (decimal operandSize ++ [0x20]))
    if alloc.neocGrants operandSize then
      onSuccess (readBytes operandSize) fun operandData =>
        onSuccess
          (Call.lift (Hex.encode
            (operandData.take (min operandSize maxHexBytes))
            hexStringSize false false))
          fun hexString =>
            onSuccess (appendOutput hexString.characters) fun _ => pure ()
    else
      pure ()
  else
    pure ()

/-- The branch for an operand behind its length. -/
def appendCounted (alloc : Allocator) (width : Nat) :
    Routine ScriptReader Unit :=
  onSuccess (readPrefixSize width) (appendBytes alloc)

/-- The operand of an opcode that was read. -/
def appendOperand (alloc : Allocator) (opcode : UInt8) :
    Routine ScriptReader Unit :=
  if 0 < (getOperandSizeInfo opcode).1 then
    appendFixed (getOperandSizeInfo opcode).1
  else if 0 < (getOperandSizeInfo opcode).2 then
    appendCounted alloc (getOperandSizeInfo opcode).2
  else
    pure ()

/-- The line of an opcode that was read. -/
def appendLine (alloc : Allocator) (opcode : UInt8) :
    Routine ScriptReader Unit := do
  appendOutput (ascii (opcodeToString opcode))
  appendOperand alloc opcode
  appendOutput [0x0A]

/-- The loop over the script. -/
def appendLines (alloc : Allocator) : Nat → Routine ScriptReader Unit
  | 0 => Call.halt .divergence
  | fuel + 1 => fun reader =>
      if reader.unread ≠ [] then
        (do
          onSuccess readByte (appendLine alloc)
          appendLines alloc fuel) reader
      else
        (.ok (), reader)

/--
`neoc_script_reader_to_opcode_string` with an output buffer of a given size.
Every turn of the loop reads an opcode.
-/
def toOpcodeString (alloc : Allocator) (script : List UInt8)
    (bufferSize : Nat) : Outcome (List UInt8) :=
  match appendLines alloc (script.length + 1)
      { unread := script, output := [], outputSize := bufferSize } with
  | (.ok (), reader) => .ok reader.output
  | (.error reason, _) => .error reason

end ScriptReader

end NeoC
