import NeoC.Script.ScriptReader

/-!
# What the script reader writes

The opcode table says what a listing of a script is: a line for each
instruction, with its name, and with its operand in hexadecimal digits if it
has one.  A counted operand is shown behind its length, as the reader does it.

With room in the output buffer the reader writes a text that depends on the
script alone (`appendLines_eq`).  A line ends at its first newline and a name
at its first blank, so the text is the listing exactly when every instruction
by itself is shown as it should be and leaves the reader at the next one.
-/

namespace NeoC

open Foundation JsonGrammar

namespace CompleteInstruction

/-! ## The listing of a script -/

/-- The operand as it is shown behind the name. -/
def shown (instruction : CompleteInstruction) : List UInt8 :=
  let digits := 0x20 :: instruction.operand.flatMap (Hex.digits false)
  if instruction.operand = [] then
    []
  else
    match Opcode.layout instruction.opcode with
    | .fixed _ => digits
    | .counted _ => 0x20 :: (decimal instruction.operand.length ++ digits)

/-- The line of an instruction. -/
def line (instruction : CompleteInstruction) : List UInt8 :=
  ascii (Opcode.getName instruction.opcode) ++ (instruction.shown ++ [0x0A])

/-- The lines of instructions. -/
def listing (instructions : List CompleteInstruction) : List UInt8 :=
  instructions.flatMap line

end CompleteInstruction

namespace ScriptReader

open CompleteInstruction

variable {alloc : Allocator}

/-! ## When an instruction is followed -/

/-- The two files give the operand of an opcode the same size. -/
def SizesAgree (opcode : UInt8) : Prop :=
  ((getOperandSizeInfo opcode).1 : Int) = Opcode.getOperandSize opcode

/--
The reader knows the name of the instruction and does not lose its place.  An
opcode without an operand may be followed by fewer bytes than the reader takes
it to have: then it takes none.
-/
structure Follows (alloc : Allocator) (instruction : CompleteInstruction)
    (behind : List UInt8) : Prop where
  named :
    opcodeToString instruction.opcode = Opcode.getName instruction.opcode
  sized :
    0 ≤ Opcode.getOperandSize instruction.opcode →
      SizesAgree instruction.opcode ∨
        Opcode.getOperandSize instruction.opcode = 0 ∧
          behind.length < (getOperandSizeInfo instruction.opcode).1
  short :
    Opcode.getOperandSize instruction.opcode < 0 →
      instruction.operand.length ≤ maxHexBytes
  granted :
    Opcode.getOperandSize instruction.opcode < 0 →
      instruction.operand ≠ [] →
        alloc.neocGrants instruction.operand.length = true

/-- Every instruction is followed, each with the script behind it. -/
def FollowsAll (alloc : Allocator) : List CompleteInstruction → Prop
  | [] => True
  | instruction :: rest =>
      Follows alloc instruction (script rest) ∧ FollowsAll alloc rest

/-- What holds of the cases of the switch, and of its default, always holds. -/
theorem opcodeToString_induction {property : UInt8 → String → Prop}
    (listed : ∀ entry ∈ opcodeStrings, property entry.1 entry.2)
    {opcode : UInt8}
    (unlisted :
      opcodeStrings.find? (·.1 == opcode) = none →
        property opcode "UNKNOWN") :
    property opcode (opcodeToString opcode) := by
  rw [opcodeToString]
  cases found : opcodeStrings.find? (·.1 == opcode) with
  | none => exact unlisted found
  | some entry =>
      have same : entry.1 = opcode := by
        simpa using List.find?_some found
      rw [← same]
      exact listed entry (List.mem_of_find?_eq_some found)

/-! ## The text that depends on the script alone -/

/-- What is written for a fixed operand, and the bytes left behind it. -/
def fixedText (size : Nat) (unread : List UInt8) : List UInt8 × List UInt8 :=
  if unread.length < size then
    ([], unread)
  else
    (0x20 :: (unread.take size).flatMap (Hex.digits false),
      unread.drop size)

/-- What is written for an operand of known length, and what is left. -/
def bytesText (alloc : Allocator) (size : Nat) (unread : List UInt8) :
    List UInt8 × List UInt8 :=
  let count := 0x20 :: (decimal size ++ [0x20])
  if size = 0 then
    ([], unread)
  else if alloc.neocGrants size = true ∧ size ≤ unread.length then
    (count ++ ((unread.take size).take maxHexBytes).flatMap
        (Hex.digits false),
      unread.drop size)
  else
    (count, unread)

/-- What is written for a counted operand, and the bytes left behind it. -/
def countedText (alloc : Allocator) (width : Nat) (unread : List UInt8) :
    List UInt8 × List UInt8 :=
  if unread.length < width then
    ([], [])
  else
    bytesText alloc (LittleEndian.ofBytes (unread.take width))
      (unread.drop width)

/-- What is written for the operand of an opcode, and what is left. -/
def operandText (alloc : Allocator) (opcode : UInt8)
    (unread : List UInt8) : List UInt8 × List UInt8 :=
  if 0 < (getOperandSizeInfo opcode).1 then
    fixedText (getOperandSizeInfo opcode).1 unread
  else if 0 < (getOperandSizeInfo opcode).2 then
    countedText alloc (getOperandSizeInfo opcode).2 unread
  else
    ([], unread)

/-- The lines that are written for a script. -/
def transcript (alloc : Allocator) : Nat → List UInt8 → List UInt8
  | 0, _ => []
  | _ + 1, [] => []
  | fuel + 1, opcode :: rest =>
      ascii (opcodeToString opcode) ++
        ((operandText alloc opcode rest).1 ++
          0x0A :: transcript alloc fuel (operandText alloc opcode rest).2)

/-! ## The reader writes that text -/

/-- The reader after it wrote a text and went on to some bytes. -/
def wrote (reader : ScriptReader) (text rest : List UInt8) : ScriptReader :=
  { reader with unread := rest, output := reader.output ++ text }

/-- The output buffer has room for a text and a NUL. -/
def HasRoom (reader : ScriptReader) (length : Nat) : Prop :=
  reader.output.length + length < reader.outputSize

theorem wrote_wrote (reader : ScriptReader)
    (first rest second rest' : List UInt8) :
    (reader.wrote first rest).wrote second rest' =
      reader.wrote (first ++ second) rest' := by
  rw [wrote, wrote, wrote, List.append_assoc]

theorem wrote_nil (reader : ScriptReader) (rest : List UInt8) :
    { reader with unread := rest } = reader.wrote [] rest := by
  rw [wrote, List.append_nil]

theorem hasRoom_wrote_iff {reader : ScriptReader} {text rest : List UInt8}
    {length : Nat} :
    (reader.wrote text rest).HasRoom length ↔
      reader.HasRoom (text.length + length) := by
  rw [HasRoom, HasRoom, wrote, List.length_append, Nat.add_assoc]

theorem HasRoom.mono {reader : ScriptReader} {length length' : Nat}
    (room : reader.HasRoom length) (shorter : length' ≤ length) :
    reader.HasRoom length' :=
  Nat.lt_of_le_of_lt (Nat.add_le_add_left shorter _) room

theorem appendOutput_eq {reader : ScriptReader} {text : List UInt8}
    (room : reader.HasRoom text.length) :
    appendOutput text reader = (.ok (), reader.wrote text reader.unread) := by
  have fits :
      ¬ reader.output.length + text.length + 1 > reader.outputSize :=
    Nat.not_lt.mpr room
  rw [appendOutput, if_neg fits, wrote]

theorem appendFormatted_eq {reader : ScriptReader} {text : List UInt8}
    (room : reader.HasRoom text.length) (small : text.length < 256) :
    appendFormatted text reader =
      (.ok (), reader.wrote text reader.unread) := by
  rw [appendFormatted, if_neg (Nat.not_le.mpr small), appendOutput_eq room]

theorem onSuccess_of_ok {α : Type} {call : Routine ScriptReader α}
    {next : α → Routine ScriptReader Unit} {reader reader' : ScriptReader}
    {value : α} (ran : call reader = (.ok value, reader')) :
    onSuccess call next reader = next value reader' := by
  rw [onSuccess, ran]

theorem onSuccess_of_error {α : Type} {call : Routine ScriptReader α}
    {next : α → Routine ScriptReader Unit} {reader reader' : ScriptReader}
    {code : ErrorCode} {text : String}
    (ran : call reader = (.error (.error code text), reader')) :
    onSuccess call next reader = (.ok (), reader') := by
  rw [onSuccess, ran]

theorem readBytes_of_le {reader : ScriptReader} {count : Nat}
    (enough : count ≤ reader.unread.length) :
    readBytes count reader =
      (.ok (reader.unread.take count),
        reader.wrote [] (reader.unread.drop count)) := by
  rw [readBytes, if_neg (Nat.not_lt.mpr enough), wrote_nil]

theorem readBytes_of_lt {reader : ScriptReader} {count : Nat}
    (short : reader.unread.length < count) :
    readBytes count reader = (.error (.error .endOfStream ""), reader) := by
  rw [readBytes, if_pos short]
  rfl

/-- The buffer for digits holds those of at most 255 bytes. -/
theorem hexEncode_eq {data : List UInt8} (small : data.length ≤ maxHexBytes) :
    Hex.encode data hexStringSize false false =
      .ok (Hex.text data false false) := by
  have fits :
      ¬ hexStringSize < Hex.encodeBufferSize data.length false := by
    simp only [maxHexBytes, hexStringSize] at small
    simp only [Hex.encodeBufferSize, hexStringSize, Bool.false_eq_true,
      if_false]
    omega
  rw [Hex.encode, if_neg fits]

theorem appendFixed_eq {reader : ScriptReader} {size : Nat}
    (small : size ≤ 8)
    (room : reader.HasRoom (fixedText size reader.unread).1.length) :
    appendFixed size reader =
      (.ok (), reader.wrote (fixedText size reader.unread).1
        (fixedText size reader.unread).2) := by
  rw [appendFixed, if_pos (Nat.le_trans small (by decide))]
  rw [fixedText] at room ⊢
  split_ifs at room ⊢ with short
  · rw [onSuccess_of_error (readBytes_of_lt short), ← wrote_nil]
  · have enough := Nat.le_of_not_lt short
    have taken : (reader.unread.take size).length = size :=
      List.length_take_of_le enough
    have length := Hex.length_digits (reader.unread.take size) false
    have fits : (reader.unread.take size).length ≤ maxHexBytes := by
      rw [taken]
      exact Nat.le_trans small (by decide)
    rw [onSuccess_of_ok (readBytes_of_le enough), hexEncode_eq fits,
      onSuccess_of_ok (Call.lift_run _ _), Hex.characters_text,
      appendFormatted_eq (hasRoom_wrote_iff.mpr (by simpa using room)),
      wrote_wrote]
    · rfl
    · rw [List.length_cons, length, taken]
      omega

theorem times_readByte_of_le {width : Nat} :
    ∀ {reader : ScriptReader},
      width ≤ reader.unread.length →
        Call.times readByte width reader =
          (.ok (reader.unread.take width),
            reader.wrote [] (reader.unread.drop width)) := by
  induction width with
  | zero =>
      intro reader _
      rw [List.take_zero, List.drop_zero, ← wrote_nil]
      rfl
  | succ width induction =>
      intro reader enough
      rcases reader with ⟨unread, output, outputSize⟩
      cases unread with
      | nil => cases enough
      | cons byte rest =>
          have behind := @induction ⟨rest, output, outputSize⟩
            (Nat.le_of_succ_le_succ enough)
          have first :
              readByte ⟨byte :: rest, output, outputSize⟩ =
                (.ok byte, ⟨rest, output, outputSize⟩) :=
            rfl
          exact (Call.bind_of_ok first).trans (Call.bind_of_ok behind)

theorem times_readByte_of_lt {width : Nat} :
    ∀ {reader : ScriptReader},
      reader.unread.length < width →
        Call.times readByte width reader =
          (.error (.error .endOfStream ""), reader.wrote [] []) := by
  induction width with
  | zero =>
      intro reader short
      cases short
  | succ width induction =>
      intro reader short
      rcases reader with ⟨unread, output, outputSize⟩
      cases unread with
      | nil =>
          rw [wrote, List.append_nil]
          rfl
      | cons byte rest =>
          have behind := @induction ⟨rest, output, outputSize⟩
            (Nat.lt_of_succ_lt_succ short)
          have first :
              readByte ⟨byte :: rest, output, outputSize⟩ =
                (.ok byte, ⟨rest, output, outputSize⟩) :=
            rfl
          exact (Call.bind_of_ok first).trans (Call.bind_of_error behind)

theorem appendBytes_eq {reader : ScriptReader} {size : Nat}
    (digits : (decimal size).length ≤ 10)
    (room : reader.HasRoom (bytesText alloc size reader.unread).1.length) :
    appendBytes alloc size reader =
      (.ok (), reader.wrote (bytesText alloc size reader.unread).1
        (bytesText alloc size reader.unread).2) := by
  rw [appendBytes]
  rw [bytesText] at room ⊢
  rcases Nat.eq_zero_or_pos size with rfl | positive
  · rw [if_neg (Nat.lt_irrefl 0), if_pos rfl, ← wrote_nil]
    rfl
  · rw [if_neg (Nat.ne_of_gt positive)] at room ⊢
    rw [if_pos positive]
    generalize counted : (0x20 :: (decimal size ++ [0x20]) : List UInt8) =
      count at room ⊢
    have short : count.length < 256 := by
      rw [← counted, List.length_cons, List.length_append,
        List.length_singleton]
      omega
    have roomCount : reader.HasRoom count.length := by
      split_ifs at room
      · exact room.mono (by simp)
      · exact room
    rw [Call.bind_of_ok (appendFormatted_eq roomCount short)]
    by_cases granted : alloc.neocGrants size = true
    · rw [if_pos granted]
      by_cases enough : size ≤ reader.unread.length
      · rw [if_pos ⟨granted, enough⟩] at room ⊢
        have taken : (reader.unread.take size).length = size :=
          List.length_take_of_le enough
        have least :
            (reader.unread.take size).take (min size maxHexBytes) =
              (reader.unread.take size).take maxHexBytes := by
          rw [List.take_take, List.take_take, Nat.min_right_comm,
            Nat.min_self, Nat.min_comm]
        have read :
            readBytes size (reader.wrote count reader.unread) =
              (.ok (reader.unread.take size),
                (reader.wrote count reader.unread).wrote []
                  (reader.unread.drop size)) :=
          readBytes_of_le enough
        have fits :
            ((reader.unread.take size).take maxHexBytes).length ≤
              maxHexBytes :=
          List.length_take_le _ _
        rw [onSuccess_of_ok read, least,
          hexEncode_eq fits, onSuccess_of_ok (Call.lift_run _ _),
          Hex.characters_text,
          onSuccess_of_ok (appendOutput_eq
            (hasRoom_wrote_iff.mpr (hasRoom_wrote_iff.mpr
              (by simpa using room)))),
          wrote_wrote, wrote_wrote]
        rfl
      · have absent :
            ¬ (alloc.neocGrants size = true ∧ size ≤ reader.unread.length) :=
          fun both => enough both.2
        have stops :
            readBytes size (reader.wrote count reader.unread) =
              (.error (.error .endOfStream ""),
                reader.wrote count reader.unread) :=
          readBytes_of_lt (Nat.lt_of_not_le enough)
        rw [if_neg absent, onSuccess_of_error stops]
    · have absent :
          ¬ (alloc.neocGrants size = true ∧ size ≤ reader.unread.length) :=
        fun both => granted both.1
      rw [if_neg granted, if_neg absent]
      rfl

theorem appendCounted_eq {reader : ScriptReader} {width : Nat}
    (small : width ≤ 4)
    (room :
      reader.HasRoom (countedText alloc width reader.unread).1.length) :
    appendCounted alloc width reader =
      (.ok (), reader.wrote (countedText alloc width reader.unread).1
        (countedText alloc width reader.unread).2) := by
  rw [appendCounted]
  rw [countedText] at room ⊢
  split_ifs at room ⊢ with short
  · have stops :
        readPrefixSize width reader =
          (.error (.error .endOfStream ""), reader.wrote [] []) :=
      Call.bind_of_error (times_readByte_of_lt short)
    rw [onSuccess_of_error stops]
  · have enough := Nat.le_of_not_lt short
    have counts :
        readPrefixSize width reader =
          (.ok (LittleEndian.ofBytes (reader.unread.take width)),
            reader.wrote [] (reader.unread.drop width)) :=
      Call.bind_of_ok (times_readByte_of_le enough)
    rw [onSuccess_of_ok counts]
    have bounded :
        LittleEndian.ofBytes (reader.unread.take width) < 10 ^ 10 := by
      have below := LittleEndian.ofBytes_lt (reader.unread.take width)
      rw [List.length_take_of_le enough] at below
      have widest := Nat.pow_le_pow_right (show 0 < 256 by decide) small
      exact Nat.lt_of_lt_of_le below (Nat.le_trans widest (by decide))
    generalize LittleEndian.ofBytes (reader.unread.take width) = size at *
    have digits := length_decimal_le (by decide) bounded
    have room' :
        (reader.wrote [] (reader.unread.drop width)).HasRoom
          (bytesText alloc size (reader.unread.drop width)).1.length :=
      hasRoom_wrote_iff.mpr (by simpa using room)
    exact (appendBytes_eq digits room').trans (by rw [wrote_wrote]; rfl)

/-! ## A whole script -/

/-- What the tables say about every opcode. -/
theorem sizes_table (opcode : UInt8) :
    (getOperandSizeInfo opcode).1 ≤ 8 ∧ (getOperandSizeInfo opcode).2 ≤ 4 ∧
      (0 ≤ Opcode.getOperandSize opcode →
        (getOperandSizeInfo opcode).2 = 0) ∧
      (Opcode.getOperandSize opcode < 0 →
        (getOperandSizeInfo opcode).1 = 0 ∧
          ((getOperandSizeInfo opcode).2 : Int) =
            -Opcode.getOperandSize opcode) := by
  have sizes :
      ∀ info ∈ Opcode.table,
        (0 ≤ info.operandSize → (getOperandSizeInfo info.opcode).2 = 0) ∧
          (info.operandSize < 0 →
            (getOperandSizeInfo info.opcode).1 = 0 ∧
              ((getOperandSizeInfo info.opcode).2 : Int) =
                -info.operandSize) := by
    decide +kernel
  have pushData :
      Opcode.find 0x0C ≠ none ∧ Opcode.find 0x0D ≠ none ∧
        Opcode.find 0x0E ≠ none := by
    decide +kernel
  refine ⟨?_, ?_, ?_⟩
  · rw [getOperandSizeInfo]
    split_ifs <;> decide
  · rw [getOperandSizeInfo]
    split_ifs <;> decide
  · refine @Opcode.find_induction
      (fun opcode _ size =>
        (0 ≤ size → (getOperandSizeInfo opcode).2 = 0) ∧
          (size < 0 →
            (getOperandSizeInfo opcode).1 = 0 ∧
              ((getOperandSizeInfo opcode).2 : Int) = -size)) sizes _ ?_
    intro unlisted
    refine ⟨?_, fun negative => absurd negative (Int.lt_irrefl 0)⟩
    intro _
    rw [getOperandSizeInfo]
    split_ifs with _ _ _ _ first second third
    · rfl
    · rfl
    · rfl
    · rfl
    · exact absurd (first ▸ unlisted) pushData.1
    · exact absurd (second ▸ unlisted) pushData.2.1
    · exact absurd (third ▸ unlisted) pushData.2.2
    · rfl

theorem length_operandText_le (opcode : UInt8) (unread : List UInt8) :
    (operandText alloc opcode unread).2.length ≤ unread.length := by
  rw [operandText, fixedText, countedText, bytesText]
  split_ifs <;> simp

theorem appendOperand_eq {reader : ScriptReader} {opcode : UInt8}
    (room :
      reader.HasRoom (operandText alloc opcode reader.unread).1.length) :
    appendOperand alloc opcode reader =
      (.ok (), reader.wrote (operandText alloc opcode reader.unread).1
        (operandText alloc opcode reader.unread).2) := by
  rcases sizes_table opcode with ⟨smallFixed, smallWidth, -, -⟩
  rw [appendOperand]
  rw [operandText] at room ⊢
  split_ifs at room ⊢
  · exact appendFixed_eq smallFixed room
  · exact appendCounted_eq smallWidth room
  · rw [← wrote_nil]
    rfl

theorem appendLine_eq {reader : ScriptReader} {opcode : UInt8}
    (room :
      reader.HasRoom (ascii (opcodeToString opcode) ++
        ((operandText alloc opcode reader.unread).1 ++ [0x0A])).length) :
    appendLine alloc opcode reader =
      (.ok (), reader.wrote
        (ascii (opcodeToString opcode) ++
          ((operandText alloc opcode reader.unread).1 ++ [0x0A]))
        (operandText alloc opcode reader.unread).2) := by
  rw [List.length_append, List.length_append] at room
  have named := appendOutput_eq (room.mono (Nat.le_add_right _ _))
  have roomBehind :
      (reader.wrote (ascii (opcodeToString opcode)) reader.unread).HasRoom
        ((operandText alloc opcode reader.unread).1.length +
          [(0x0A : UInt8)].length) :=
    hasRoom_wrote_iff.mpr room
  have operand := appendOperand_eq (roomBehind.mono (Nat.le_add_right _ _))
  have roomLast :
      ((reader.wrote (ascii (opcodeToString opcode)) reader.unread).wrote
        (operandText alloc opcode reader.unread).1
        (operandText alloc opcode reader.unread).2).HasRoom
          [(0x0A : UInt8)].length :=
    hasRoom_wrote_iff.mpr roomBehind
  have last := appendOutput_eq roomLast
  rw [appendLine, Call.bind_of_ok named, Call.bind_of_ok operand]
  exact last.trans (by rw [wrote_wrote, wrote_wrote]; rfl)

theorem appendLines_of_unread {fuel : Nat} {reader : ScriptReader}
    (more : reader.unread ≠ []) :
    appendLines alloc (fuel + 1) reader =
      (onSuccess readByte (appendLine alloc) >>= fun _ =>
        appendLines alloc fuel) reader :=
  if_pos more

/-- With room for it, the reader writes the transcript of a script. -/
theorem appendLines_eq {fuel : Nat} :
    ∀ {reader : ScriptReader},
      reader.unread.length < fuel →
        reader.HasRoom (transcript alloc fuel reader.unread).length →
          appendLines alloc fuel reader =
            (.ok (),
              reader.wrote (transcript alloc fuel reader.unread) []) := by
  induction fuel with
  | zero =>
      intro reader short
      cases short
  | succ fuel induction =>
      intro reader short room
      rcases reader with ⟨unread, output, outputSize⟩
      cases unread with
      | nil =>
          rw [transcript, ← wrote_nil]
          rfl
      | cons opcode rest =>
          have smaller := @length_operandText_le alloc opcode rest
          have split :
              transcript alloc (fuel + 1) (opcode :: rest) =
                (ascii (opcodeToString opcode) ++
                  ((operandText alloc opcode rest).1 ++ [0x0A])) ++
                  transcript alloc fuel (operandText alloc opcode rest).2 := by
            simp [transcript]
          rw [split] at room ⊢
          rw [List.length_append] at room
          have read :
              readByte ⟨opcode :: rest, output, outputSize⟩ =
                (.ok opcode, ⟨rest, output, outputSize⟩) :=
            rfl
          have line :=
            @appendLine_eq alloc ⟨rest, output, outputSize⟩ opcode
              (room.mono (Nat.le_add_right _ _))
          have behind :=
            @induction
              ((⟨rest, output, outputSize⟩ : ScriptReader).wrote
                (ascii (opcodeToString opcode) ++
                  ((operandText alloc opcode rest).1 ++ [0x0A]))
                (operandText alloc opcode rest).2)
              (Nat.lt_of_le_of_lt smaller (Nat.lt_of_succ_lt_succ short))
              (hasRoom_wrote_iff.mpr room)
          rw [appendLines_of_unread (List.cons_ne_nil _ _),
            Call.bind_of_ok ((onSuccess_of_ok read).trans line), behind,
            wrote_wrote]
          rfl

theorem toOpcodeString_eq {bytes : List UInt8} {bufferSize : Nat}
    (room :
      (transcript alloc (bytes.length + 1) bytes).length < bufferSize) :
    toOpcodeString alloc bytes bufferSize =
      .ok (transcript alloc (bytes.length + 1) bytes) := by
  have ran :=
    @appendLines_eq alloc (bytes.length + 1) ⟨bytes, [], bufferSize⟩
      (Nat.lt_succ_self _) (by simpa [HasRoom] using room)
  rw [toOpcodeString, ran]
  rfl

/-! ## Lines and names are apart -/

/-- The characters of a name: single bytes, no blank and no newline. -/
def IsName (name : String) : Prop :=
  ∀ character ∈ name.toList,
    character.toNat < 256 ∧ character.toNat ≠ 0x20 ∧ character.toNat ≠ 0x0A

instance (name : String) : Decidable (IsName name) :=
  List.decidableBAll _ name.toList

theorem isName_getName (opcode : UInt8) : IsName (Opcode.getName opcode) :=
  @Opcode.find_induction (fun _ name _ => IsName name) (by decide +kernel)
    opcode fun _ => by decide +kernel

theorem isName_opcodeToString (opcode : UInt8) :
    IsName (opcodeToString opcode) :=
  @opcodeToString_induction (fun _ name => IsName name) (by decide +kernel)
    opcode fun _ => by decide +kernel

theorem IsName.of_mem {name : String} (plain : IsName name) {byte : UInt8}
    (member : byte ∈ ascii name) : byte ≠ 0x20 ∧ byte ≠ 0x0A := by
  rcases List.mem_map.mp member with ⟨character, inside, rfl⟩
  rcases plain character inside with ⟨small, noBlank, noNewline⟩
  have value : (UInt8.ofNat character.toNat).toNat = character.toNat :=
    UInt8.toNat_ofNat_of_lt' small
  constructor
  · intro same
    rw [same] at value
    exact noBlank value.symm
  · intro same
    rw [same] at value
    exact noNewline value.symm

theorem IsName.not_mem {name : String} (plain : IsName name) :
    0x20 ∉ ascii name ∧ 0x0A ∉ ascii name :=
  ⟨fun member => (plain.of_mem member).1 rfl,
    fun member => (plain.of_mem member).2 rfl⟩

theorem IsName.characters {name : String} (plain : IsName name) :
    (ascii name).map (fun byte => Char.ofNat byte.toNat) = name.toList := by
  rw [ascii, List.map_map]
  refine (List.map_congr_left ?_).trans (List.map_id _)
  intro character member
  rw [Function.comp_apply, UInt8.toNat_ofNat_of_lt' (plain _ member).1,
    Char.ofNat_toNat, id]

theorem IsName.ascii_inj {name name' : String} (plain : IsName name)
    (plain' : IsName name') (same : ascii name = ascii name') :
    name = name' := by
  rw [← String.toList_inj, ← plain.characters, ← plain'.characters, same]

/-- What stands behind a name: nothing, or a blank and no newline. -/
def IsOperandText (text : List UInt8) : Prop :=
  0x0A ∉ text ∧ (text = [] ∨ ∃ rest, text = 0x20 :: rest)

theorem isOperandText_nil : IsOperandText [] :=
  ⟨List.not_mem_nil, .inl rfl⟩

theorem newline_not_mem_digits (data : List UInt8) :
    0x0A ∉ data.flatMap (Hex.digits false) := by
  intro member
  exact absurd (Hex.isValidChar_of_mem member) (by decide)

theorem isOperandText_fixedText (size : Nat) (unread : List UInt8) :
    IsOperandText (fixedText size unread).1 := by
  rw [fixedText]
  split_ifs
  · exact isOperandText_nil
  · refine ⟨?_, .inr ⟨_, rfl⟩⟩
    rw [List.mem_cons, not_or]
    exact ⟨by decide, newline_not_mem_digits _⟩

theorem isOperandText_counted {count digits : List UInt8}
    (counted : 0x0A ∉ count) (shown : 0x0A ∉ digits) :
    IsOperandText (0x20 :: (count ++ 0x20 :: digits)) := by
  refine ⟨?_, .inr ⟨_, rfl⟩⟩
  rw [List.mem_cons, List.mem_append, List.mem_cons]
  rintro (blank | member | blank | member)
  · exact absurd blank (by decide)
  · exact counted member
  · exact absurd blank (by decide)
  · exact shown member

theorem isOperandText_operandText (opcode : UInt8) (unread : List UInt8) :
    IsOperandText (operandText alloc opcode unread).1 := by
  have counted (size : Nat) : 0x0A ∉ decimal size := not_mem_decimal rfl size
  rw [operandText, countedText, bytesText]
  split_ifs
  · exact isOperandText_fixedText _ _
  · exact isOperandText_nil
  · exact isOperandText_nil
  · rw [List.cons_append, List.append_assoc, List.singleton_append]
    exact isOperandText_counted (counted _) (newline_not_mem_digits _)
  · exact isOperandText_counted (counted _) List.not_mem_nil
  · exact isOperandText_nil

theorem isOperandText_shown (instruction : CompleteInstruction) :
    IsOperandText instruction.shown := by
  rw [shown]
  split_ifs
  · exact isOperandText_nil
  · split
    · refine ⟨?_, .inr ⟨_, rfl⟩⟩
      rw [List.mem_cons, not_or]
      exact ⟨by decide, newline_not_mem_digits _⟩
    · exact isOperandText_counted (not_mem_decimal rfl _)
        (newline_not_mem_digits _)

/-- Two lines are the same only if their names and their operands are. -/
theorem line_inj {name name' operand operand' rest rest' : List UInt8}
    (plain : 0x20 ∉ name ∧ 0x0A ∉ name)
    (plain' : 0x20 ∉ name' ∧ 0x0A ∉ name')
    (shown : IsOperandText operand) (shown' : IsOperandText operand')
    (same :
      name ++ (operand ++ 0x0A :: rest) =
        name' ++ (operand' ++ 0x0A :: rest')) :
    name = name' ∧ operand = operand' ∧ rest = rest' := by
  have absent : 0x0A ∉ name ++ operand := by
    rw [List.mem_append, not_or]
    exact ⟨plain.2, shown.1⟩
  have absent' : 0x0A ∉ name' ++ operand' := by
    rw [List.mem_append, not_or]
    exact ⟨plain'.2, shown'.1⟩
  rw [← List.append_assoc, ← List.append_assoc] at same
  rcases append_cons_inj_of_absent absent absent' same with ⟨first, rfl⟩
  rcases shown.2 with rfl | ⟨text, rfl⟩ <;>
    rcases shown'.2 with rfl | ⟨text', rfl⟩
  · rw [List.append_nil, List.append_nil] at first
    exact ⟨first, rfl, rfl⟩
  · rw [List.append_nil] at first
    rw [first] at plain
    exact absurd (by simp) plain.1
  · rw [List.append_nil] at first
    rw [← first] at plain'
    exact absurd (by simp) plain'.1
  · rcases append_cons_inj_of_absent plain.1 plain'.1 first with ⟨rfl, rfl⟩
    exact ⟨rfl, rfl, rfl⟩

/-! ## One instruction -/

theorem length_digits_cons (data : List UInt8) :
    (0x20 :: data.flatMap (Hex.digits false)).length =
      2 * data.length + 1 := by
  rw [List.length_cons, Hex.length_digits]

/-- The reader's size is that of the operand, or no byte is taken. -/
theorem fixedText_eq_iff {size : Nat} {operand behind : List UInt8} :
    (if 0 < size then (fixedText size (operand ++ behind)).1 else []) =
        (if operand = [] then [] else
          0x20 :: operand.flatMap (Hex.digits false)) ↔
      size = operand.length ∨ operand = [] ∧ behind.length < size := by
  rcases Nat.eq_zero_or_pos size with rfl | positive
  · rw [if_neg (Nat.lt_irrefl 0)]
    cases operand <;> simp
  · rw [if_pos positive, fixedText, List.length_append]
    by_cases short : operand.length + behind.length < size
    · rw [if_pos short]
      cases operand with
      | nil =>
          have behindShort : behind.length < size := by simpa using short
          simp [behindShort]
      | cons byte rest =>
          have longer : ¬ size = rest.length + 1 := by
            rw [List.length_cons] at short
            omega
          simp [longer]
    · rw [if_neg short]
      cases operand with
      | nil =>
          have enough : ¬ behind.length < size := by simpa using short
          simp [Nat.ne_of_gt positive, enough]
      | cons byte rest =>
          rw [if_neg (List.cons_ne_nil _ _)]
          constructor
          · intro same
            have lengths := congrArg List.length same
            rw [length_digits_cons, length_digits_cons,
              List.length_take_of_le
                (by rw [List.length_append]; exact Nat.le_of_not_lt short)]
              at lengths
            exact .inl (by omega)
          · rintro (rfl | ⟨absurdity, -⟩)
            · rw [List.take_left]
            · cases absurdity

theorem fixedText_behind {size : Nat} {operand behind : List UInt8}
    (agree : size = operand.length ∨ operand = [] ∧ behind.length < size)
    (positive : 0 < size) :
    (fixedText size (operand ++ behind)).2 = behind := by
  rw [fixedText]
  rcases agree with rfl | ⟨rfl, short⟩
  · rw [if_neg (by simp), List.drop_left]
  · rw [List.nil_append, if_pos short]

theorem bytesText_of_nil (behind : List UInt8) :
    bytesText alloc 0 behind = ([], behind) :=
  rfl

theorem bytesText_eq_iff {operand behind : List UInt8}
    (some : operand ≠ []) :
    (bytesText alloc operand.length (operand ++ behind)).1 =
        0x20 :: (decimal operand.length ++
          0x20 :: operand.flatMap (Hex.digits false)) ↔
      operand.length ≤ maxHexBytes ∧
        alloc.neocGrants operand.length = true := by
  have positive : operand.length ≠ 0 := by simpa using some
  have within : operand.length ≤ (operand ++ behind).length := by simp
  rw [bytesText, if_neg positive]
  by_cases granted : alloc.neocGrants operand.length = true
  · rw [if_pos ⟨granted, within⟩, List.take_left]
    simp only [List.cons_append, List.append_assoc, List.nil_append,
      List.cons.injEq, List.append_cancel_left_eq, true_and,
      granted, and_true]
    constructor
    · intro same
      have lengths := congrArg List.length same
      rw [Hex.length_digits, Hex.length_digits, List.length_take] at lengths
      omega
    · intro short
      rw [List.take_of_length_le short]
  · have refused :
        ¬ (alloc.neocGrants operand.length = true ∧
          operand.length ≤ (operand ++ behind).length) :=
      fun both => granted both.1
    rw [if_neg refused]
    constructor
    · intro same
      have lengths := congrArg List.length same
      simp only [List.length_cons, List.length_append,
        Hex.length_digits, List.length_nil] at lengths
      omega
    · rintro ⟨-, granted'⟩
      exact absurd granted' granted

theorem bytesText_behind {operand behind : List UInt8}
    (granted : alloc.neocGrants operand.length = true) :
    (bytesText alloc operand.length (operand ++ behind)).2 = behind := by
  have positive : operand.length ≠ 0 := by
    rintro empty
    rw [empty] at granted
    cases granted
  rw [bytesText, if_neg positive, if_pos ⟨granted, by simp⟩, List.drop_left]

/-! ## The two kinds of operands -/

section Operand

variable {instruction : CompleteInstruction} {behind : List UInt8}

theorem operand_of_fixed
    (fixed : 0 ≤ Opcode.getOperandSize instruction.opcode) :
    (instruction.operand.length : Int) =
        Opcode.getOperandSize instruction.opcode ∧
      instruction.tail = instruction.operand ∧
      instruction.shown =
        if instruction.operand = [] then [] else
          0x20 :: instruction.operand.flatMap (Hex.digits false) := by
  have complete := instruction.complete
  rw [tail, shown]
  rw [Opcode.layout, if_pos fixed] at complete ⊢
  refine ⟨?_, rfl, rfl⟩
  rw [show instruction.operand.length = _ from complete,
    Int.toNat_of_nonneg fixed]

theorem operandText_of_fixed
    (fixed : 0 ≤ Opcode.getOperandSize instruction.opcode) :
    operandText alloc instruction.opcode (instruction.tail ++ behind) =
      if 0 < (getOperandSizeInfo instruction.opcode).1 then
        fixedText (getOperandSizeInfo instruction.opcode).1
          (instruction.operand ++ behind)
      else
        ([], instruction.operand ++ behind) := by
  rcases sizes_table instruction.opcode with ⟨-, -, uncounted, -⟩
  rw [operandText, uncounted fixed, if_neg (Nat.lt_irrefl 0),
    (operand_of_fixed fixed).2.1]

theorem sizesAgree_iff
    (fixed : 0 ≤ Opcode.getOperandSize instruction.opcode) :
    (SizesAgree instruction.opcode ∨
        Opcode.getOperandSize instruction.opcode = 0 ∧
          behind.length < (getOperandSizeInfo instruction.opcode).1) ↔
      (getOperandSizeInfo instruction.opcode).1 =
          instruction.operand.length ∨
        instruction.operand = [] ∧
          behind.length < (getOperandSizeInfo instruction.opcode).1 := by
  rw [SizesAgree, ← (operand_of_fixed fixed).1, Int.natCast_inj,
    Int.natCast_eq_zero, List.length_eq_zero_iff]

theorem operandText_of_counted
    (counted : Opcode.getOperandSize instruction.opcode < 0) :
    operandText alloc instruction.opcode (instruction.tail ++ behind) =
        bytesText alloc instruction.operand.length
          (instruction.operand ++ behind) ∧
      instruction.shown =
        if instruction.operand = [] then [] else
          0x20 :: (decimal instruction.operand.length ++
            0x20 :: instruction.operand.flatMap (Hex.digits false)) := by
  rcases sizes_table instruction.opcode with ⟨-, -, -, widths⟩
  rcases widths counted with ⟨unfixed, width⟩
  have complete := instruction.complete
  have widthEq :
      (-Opcode.getOperandSize instruction.opcode).toNat =
        (getOperandSizeInfo instruction.opcode).2 := by
    omega
  have some : 0 < (getOperandSizeInfo instruction.opcode).2 := by
    omega
  rw [tail, shown]
  rw [Opcode.layout, if_neg (Int.not_le.mpr counted), widthEq] at complete ⊢
  have length :=
    LittleEndian.length_toBytes (getOperandSizeInfo instruction.opcode).2
      instruction.operand.length
  have value :=
    LittleEndian.ofBytes_toBytes_of_lt
      (show instruction.operand.length < 256 ^ _ from complete)
  refine ⟨?_, rfl⟩
  rw [operandText, unfixed, if_neg (Nat.lt_irrefl 0), if_pos some,
    countedText, OperandLayout.place, List.append_assoc,
    List.take_left' length, List.drop_left' length, value, if_neg]
  rw [List.length_append, length]
  exact Nat.not_lt.mpr (Nat.le_add_right _ _)

/-- The operand is shown as it should be, whatever the name. -/
theorem operandText_eq_iff :
    (operandText alloc instruction.opcode (instruction.tail ++ behind)).1 =
        instruction.shown ↔
      (0 ≤ Opcode.getOperandSize instruction.opcode →
        SizesAgree instruction.opcode ∨
          Opcode.getOperandSize instruction.opcode = 0 ∧
            behind.length < (getOperandSizeInfo instruction.opcode).1) ∧
      (Opcode.getOperandSize instruction.opcode < 0 →
        instruction.operand.length ≤ maxHexBytes) ∧
      (Opcode.getOperandSize instruction.opcode < 0 →
        instruction.operand ≠ [] →
          alloc.neocGrants instruction.operand.length = true) := by
  by_cases fixed : 0 ≤ Opcode.getOperandSize instruction.opcode
  · have notCounted := Int.not_lt.mpr fixed
    simp only [fixed, notCounted, true_implies, false_implies, and_true]
    rw [sizesAgree_iff fixed, ← fixedText_eq_iff, operandText_of_fixed fixed,
      (operand_of_fixed fixed).2.2, apply_ite Prod.fst]
  · have counted := Int.not_le.mp fixed
    simp only [fixed, counted, true_implies, false_implies, true_and]
    rcases @operandText_of_counted alloc instruction behind counted with
      ⟨text, shownText⟩
    rw [text, shownText]
    by_cases empty : instruction.operand = []
    · rw [empty]
      simp [bytesText_of_nil]
    · rw [if_neg empty, bytesText_eq_iff empty]
      simp [empty]

/-- An instruction that is followed leaves the reader behind it. -/
theorem Follows.behind_eq (follows : Follows alloc instruction behind) :
    (operandText alloc instruction.opcode (instruction.tail ++ behind)).2 =
      behind := by
  by_cases fixed : 0 ≤ Opcode.getOperandSize instruction.opcode
  · have agree := (sizesAgree_iff fixed).mp (follows.sized fixed)
    rw [operandText_of_fixed fixed]
    split_ifs with positive
    · exact fixedText_behind agree positive
    · have empty : instruction.operand.length = 0 := by
        rcases agree with same | ⟨none, -⟩
        · omega
        · rw [none, List.length_nil]
      rw [List.eq_nil_of_length_eq_zero empty, List.nil_append]
  · have counted := Int.not_le.mp fixed
    rw [(operandText_of_counted counted).1]
    by_cases empty : instruction.operand = []
    · rw [empty]
      rfl
    · exact bytesText_behind (follows.granted counted empty)

end Operand

/-! ## All instructions -/

theorem transcript_eq_listing_iff {instructions : List CompleteInstruction} :
    ∀ {fuel : Nat},
      (script instructions).length < fuel →
        (transcript alloc fuel (script instructions) =
            listing instructions ↔
          FollowsAll alloc instructions) := by
  induction instructions with
  | nil =>
      intro fuel enough
      cases fuel with
      | zero => cases enough
      | succ fuel => exact iff_of_true rfl trivial
  | cons instruction rest induction =>
      intro fuel enough
      cases fuel with
      | zero => cases enough
      | succ fuel =>
          rw [script_cons, List.length_cons, List.length_append] at enough
          have enoughRest : (script rest).length < fuel := by omega
          have named := isName_getName instruction.opcode
          have written := isName_opcodeToString instruction.opcode
          have listed :
              listing (instruction :: rest) =
                ascii (Opcode.getName instruction.opcode) ++
                  (instruction.shown ++ 0x0A :: listing rest) := by
            simp [listing, line]
          rw [script_cons, transcript, listed, FollowsAll]
          constructor
          · intro same
            rcases line_inj written.not_mem named.not_mem
              (isOperandText_operandText _ _)
              (isOperandText_shown _) same with ⟨names, operands, rests⟩
            rcases operandText_eq_iff.mp operands with ⟨sized, short, granted⟩
            have follows : Follows alloc instruction (script rest) :=
              ⟨written.ascii_inj named names, sized, short, granted⟩
            rw [follows.behind_eq] at rests
            exact ⟨follows, (induction enoughRest).mp rests⟩
          · rintro ⟨follows, behind⟩
            rw [follows.named, follows.behind_eq,
              operandText_eq_iff.mpr
                ⟨follows.sized, follows.short, follows.granted⟩,
              (induction enoughRest).mpr behind]

/--
Every output buffer with room for the listing receives the listing exactly
when every instruction is followed.
-/
theorem listing_iff_followsAll
    (alloc : Allocator)
    (instructions : List CompleteInstruction) :
    (∀ bufferSize,
      (listing instructions).length < bufferSize →
        toOpcodeString alloc (script instructions) bufferSize =
          .ok (listing instructions)) ↔
      FollowsAll alloc instructions := by
  rw [← @transcript_eq_listing_iff alloc instructions _ (Nat.lt_succ_self _)]
  constructor
  · intro emits
    -- a buffer with room for both texts
    have ran :=
      emits
        ((listing instructions).length +
          (transcript alloc ((script instructions).length + 1)
            (script instructions)).length + 1)
        (by omega)
    rw [toOpcodeString_eq (by omega)] at ran
    exact Except.ok.inj ran
  · intro same bufferSize room
    rw [toOpcodeString_eq (by rwa [same]), same]

/-- A long jump with an offset of four bytes. -/
def longJump : CompleteInstruction where
  opcode := 0x23
  operand := [0x05, 0x00, 0x00, 0x00]
  complete := by decide +kernel

/-- Two bytes of the offset of a long jump are taken for an instruction. -/
theorem listing_not_emitted :
    ¬ ∀ (alloc : Allocator) (instructions : List CompleteInstruction)
        (bufferSize : Nat),
      (listing instructions).length < bufferSize →
        toOpcodeString alloc (script instructions) bufferSize =
          .ok (listing instructions) := by
  intro always
  have ran :=
    always .ample [longJump] 64 (by decide +kernel)
  exact absurd ran (by decide +kernel)

end ScriptReader

end NeoC
