import NeoC.Script.MultiSigGrammar
import NeoC.Serialization.RoundTrip

/-!
# Two parsers of a pushed integer

`neoc_script_builder_push_integer` writes two's complement.  The parser of
verification scripts puts the bytes together as two's complement of the same
width, so that every integer is parsed back.  The parser of the binary reader
returns the bytes of a negative integer as its magnitude, so negating them
gives the integer back only at the least value of a width.
-/

namespace NeoC.ScriptBuilder

open Foundation NeoVm Serialization VerificationScript

variable {alloc : Allocator}

/-- The bytes that `neoc_script_builder_push_integer` appends for a value. -/
def Pushes (alloc : Allocator) (value : Int64) (bytes : List UInt8) : Prop :=
  ∃ writer written,
    writer.WellFormed ∧
      pushInteger alloc value writer = (.ok (), written) ∧
        written.contents = writer.contents ++ bytes

/-- They are the shortest push of the value. -/
theorem Pushes.eq_encode {value : Int64} {bytes : List UInt8}
    (pushes : Pushes alloc value bytes) :
    bytes = (Instruction.pushInt value.toInt).encode := by
  rcases pushes with ⟨writer, written, wellFormed, ran, contents⟩
  have appended :=
    ((pushInteger_assembles value).appends writer written wellFormed ran).2.2
  rw [contents, List.append_cancel_left_eq] at appended
  rw [appended, assemble_cons]
  exact List.append_nil _

/-- With memory to spare every value is pushed. -/
theorem pushes_ample (value : Int64) :
    Pushes .ample value (Instruction.pushInt value.toInt).encode := by
  have assembles := @pushInteger_assembles .ample value
  have wellFormed :
      (⟨List.replicate 16 0, 0, true⟩ : BinaryWriter).WellFormed :=
    ⟨by decide, by decide, by decide⟩
  have short :
      2 * (0 + (assemble [.pushInt value.toInt]).length) ≤ ptrdiffMax := by
    rw [assemble_cons, Instruction.encode]
    split_ifs <;> simp [assemble, ptrdiffMax]
  rcases assembles.succeeds _ wellFormed rfl (Allocator.ample_serves short)
    with ⟨written, ran⟩
  refine ⟨_, written, wellFormed, ran, ?_⟩
  rw [(assembles.appends _ written wellFormed ran).2.2, assemble_cons]
  exact congrArg _ (List.append_nil _)

/-! ## The parser of verification scripts -/

/-- The number of bytes of an integer that has an operand. -/
def operandWidth (value : Int) : Nat :=
  if -128 ≤ value ∧ value ≤ 127 then 1
  else if -32768 ≤ value ∧ value ≤ 32767 then 2
  else if -2147483648 ≤ value ∧ value ≤ 2147483647 then 4
  else 8

/-- The forms of a push, by its value. -/
theorem encode_pushInt_cases {value : Int}
    (low : -9223372036854775808 ≤ value)
    (high : value ≤ 9223372036854775807) :
    (value = -1 ∧ (Instruction.pushInt value).encode = [Opcode.pushM1]) ∨
    (0 ≤ value ∧ value ≤ 16 ∧
      (Instruction.pushInt value).encode =
        [UInt8.ofNat (0x10 + value.toNat)]) ∨
    ∃ opcode operand,
      (Instruction.pushInt value).encode = opcode :: operand ∧
        (opcode, operand.length) ∈ wideForms ∧
          operand.length = operandWidth value ∧
            LittleEndian.ofBytesSigned operand = value ∧
              (value < -1 ∨ 16 < value) := by
  have wide {opcode : UInt8} {width : Nat}
      (form : (opcode, width) ∈ wideForms)
      (isWidth : operandWidth value = width)
      (fitsBelow : -(256 ^ width : Nat) ≤ 2 * value)
      (fitsAbove : 2 * value < (256 ^ width : Nat)) :
      ∃ opcode' operand,
        opcode :: LittleEndian.toBytesSigned width value =
            opcode' :: operand ∧
          (opcode', operand.length) ∈ wideForms ∧
            operand.length = operandWidth value ∧
              LittleEndian.ofBytesSigned operand = value := by
    have length := LittleEndian.length_toBytesSigned width value
    exact
      ⟨_, _, rfl, by rwa [length], by rw [length, isWidth],
        LittleEndian.ofBytesSigned_toBytesSigned fitsBelow fitsAbove⟩
  have outside (notMinusOne : value ≠ -1)
      (notSmall : ¬ (0 ≤ value ∧ value ≤ 16)) :
      value < -1 ∨ 16 < value := by
    omega
  rw [Instruction.encode]
  split_ifs with minusOne small one two four
  · exact .inl ⟨minusOne, rfl⟩
  · exact .inr (.inl ⟨small.1, small.2, rfl⟩)
  all_goals right; right
  · rcases wide (by simp [wideForms, Opcode.pushInt8] : (0x00, 1) ∈ wideForms)
        (if_pos one) (by norm_num; omega) (by norm_num; omega) with
      ⟨opcode, operand, same, form, width, denotes⟩
    exact
      ⟨opcode, operand, same, form, width, denotes, outside minusOne small⟩
  · rcases wide (by simp [wideForms, Opcode.pushInt16] : (0x01, 2) ∈ wideForms)
        ((if_neg one).trans (if_pos two)) (by norm_num; omega)
        (by norm_num; omega) with
      ⟨opcode, operand, same, form, width, denotes⟩
    exact
      ⟨opcode, operand, same, form, width, denotes, outside minusOne small⟩
  · rcases wide (by simp [wideForms, Opcode.pushInt32] : (0x02, 4) ∈ wideForms)
        ((if_neg one).trans ((if_neg two).trans (if_pos four)))
        (by norm_num; omega) (by norm_num; omega) with
      ⟨opcode, operand, same, form, width, denotes⟩
    exact
      ⟨opcode, operand, same, form, width, denotes, outside minusOne small⟩
  · rcases wide (by simp [wideForms, Opcode.pushInt64] : (0x03, 8) ∈ wideForms)
        ((if_neg one).trans ((if_neg two).trans (if_neg four)))
        (by norm_num; omega) (by norm_num; omega) with
      ⟨opcode, operand, same, form, width, denotes⟩
    exact
      ⟨opcode, operand, same, form, width, denotes, outside minusOne small⟩

/-- Every push is parsed back. -/
theorem parsePushInt_shortest {value : Int}
    (low : -9223372036854775808 ≤ value)
    (high : value ≤ 9223372036854775807) (before after : List UInt8) :
    parsePushInt
        (.items (before ++ ((Instruction.pushInt value).encode ++ after)))
        before.length =
      .ok
        (value, before.length + (Instruction.pushInt value).encode.length) := by
  rcases encode_pushInt_cases low high with
    ⟨rfl, encoded⟩ | ⟨zero, sixteen, encoded⟩ |
    ⟨opcode, operand, encoded, form, -, denotes, -⟩
  · rw [encoded, parsePushInt, if_neg (by simp)]
    simp only [List.singleton_append, getD_append_length]
    rfl
  · rw [encoded, parsePushInt, if_neg (by simp)]
    simp only [List.singleton_append, getD_append_length]
    interval_cases value <;> rfl
  · rw [encoded, parsePushInt_push before after (.wide form), denotes]

/--
For every integer and every suffix the bytes of a push are parsed back to the
integer, with exactly these bytes consumed.
-/
theorem parsePushInt_pushInteger
    (alloc : Allocator)
    (value : Int64)
    (bytes before suffix : List UInt8)
    (pushes : Pushes alloc value bytes) :
    parsePushInt (.items (before ++ (bytes ++ suffix))) before.length =
      .ok (value.toInt, before.length + bytes.length) := by
  rw [pushes.eq_encode]
  exact
    parsePushInt_shortest value.le_toInt
      (Int.le_of_lt_add_one value.toInt_lt) before suffix

/-- Forty thousand below zero is parsed back between other bytes. -/
theorem parsePushInt_pushInteger_negative :
    parsePushInt
        (.items ([0x0C] ++ ([0x02, 0xC0, 0x63, 0xFF, 0xFF] ++ [0x40]))) 1 =
      .ok (-40000, 6) := by
  have pushes :
      Pushes .ample (-40000) [0x02, 0xC0, 0x63, 0xFF, 0xFF] :=
    pushes_ample (-40000)
  exact
    parsePushInt_pushInteger .ample (-40000)
      [0x02, 0xC0, 0x63, 0xFF, 0xFF] [0x0C] [0x40] pushes

/-! ## The parser of the binary reader -/

/-- What `neoc_binary_reader_read_push_int` makes of a magnitude and a sign. -/
def narrow (data : Buffer) (isNegative : Bool) : Outcome Int32 :=
  if data.len > 4 then
    .error (.error .invalidFormat "Integer too large for 32-bit")
  else if isNegative then
    if UInt32.ofNat (LittleEndian.ofBytes data.content) = 0x80000000 then
      .error .signedOverflow
    else
      .ok (-(UInt32.ofNat (LittleEndian.ofBytes data.content)).toInt32)
  else
    .ok (UInt32.ofNat (LittleEndian.ofBytes data.content)).toInt32

theorem readPushInt_eq (alloc : Allocator) :
    BinaryReader.readPushInt alloc =
      (BinaryReader.readPushBigInt alloc >>= fun read =>
        Call.lift (narrow read.1 read.2)) := by
  rw [BinaryReader.readPushInt]
  congr 1
  funext read
  rcases read with ⟨data, isNegative⟩
  dsimp only [narrow]
  split_ifs <;> rfl

/-- The integer that is read is the one that is made of the two. -/
theorem reads_readPushInt_iff {bytes : List UInt8} {data : Buffer}
    {isNegative : Bool} {value : Int32}
    (read : Reads (BinaryReader.readPushBigInt alloc) bytes (data, isNegative))
    (small : bytes.length ≤ ptrdiffMax) :
    Reads (BinaryReader.readPushInt alloc) bytes value ↔
      narrow data isNegative = .ok value := by
  rw [readPushInt_eq]
  constructor
  · intro reads
    have wellFormed :
        (⟨bytes, 0, sizeMax⟩ : BinaryReader).WellFormed :=
      ⟨Nat.zero_le _, small, .inl rfl⟩
    have whole : bytes = bytes ++ [] := (List.append_nil _).symm
    have ran := reads _ [] wellFormed whole
    rw [Call.bind_of_ok (read _ [] wellFormed whole)] at ran
    exact congrArg Prod.fst ran
  · intro made
    have reads :
        Reads
          (BinaryReader.readPushBigInt alloc >>= fun read =>
            Call.lift (narrow read.1 read.2)) (bytes ++ []) value :=
      read.bind (reads_lift made)
    rwa [List.append_nil] at reads

/-- A word below `2 ^ 32` as a signed number. -/
theorem toInt_toInt32_ofNat {number : Nat} (small : number < 0x100000000) :
    (UInt32.ofNat number).toInt32.toInt =
      if number < 0x80000000 then (number : Int)
      else number - 0x100000000 := by
  have word : (UInt32.ofNat number).toNat = number :=
    UInt32.toNat_ofNat_of_lt small
  have signed :
      (UInt32.ofNat number).toInt32.toInt =
        ((UInt32.ofNat number).toNat : Int).bmod 0x100000000 :=
    BitVec.toInt_eq_toNat_bmod _
  rw [signed, word, Int.bmod_def]
  omega

/-- The sign bit of the last byte tells the upper half of the numbers. -/
theorem sign_iff {operand : List UInt8} (some : operand ≠ []) :
    0x80 ≤ operand.getLastD 0 ↔
      256 ^ operand.length ≤ 2 * LittleEndian.ofBytes operand := by
  rcases List.eq_nil_or_concat operand with none | ⟨front, last, rfl⟩
  · exact absurd none some
  · have below := LittleEndian.ofBytes_lt front
    have top : (front ++ [last]).getLastD 0 = last := by
      simp [List.getLastD_eq_getLast?]
    have value :
        LittleEndian.ofBytes (front ++ [last]) =
          LittleEndian.ofBytes front + 256 ^ front.length * last.toNat := by
      rw [LittleEndian.ofBytes_append]
      rfl
    rw [List.concat_eq_append, top, value, List.length_append,
      List.length_singleton, Nat.pow_succ, UInt8.le_iff_toNat_le]
    generalize 256 ^ front.length = unit at below ⊢
    constructor
    · intro upper
      have scaled : unit * 128 ≤ unit * last.toNat :=
        Nat.mul_le_mul_left unit upper
      omega
    · intro upper
      by_contra lower
      have scaled : unit * last.toNat ≤ unit * 127 :=
        Nat.mul_le_mul_left unit
          (Nat.le_of_lt_succ (Nat.lt_of_not_le lower))
      omega

/-- The number that a magnitude and a sign denote. -/
def denoted (data : Buffer) (isNegative : Bool) : Int :=
  if isNegative then -(LittleEndian.ofBytes data.content)
  else LittleEndian.ofBytes data.content

theorem reads_pushM1 (granted : alloc.grants 4 = true) :
    Reads (BinaryReader.readPushBigInt alloc) [Opcode.pushM1]
      (.items (LittleEndian.toBytes 4 1), true) :=
  (reads_readByte Opcode.pushM1).bind
    ((reads_malloc _ granted).bind (reads_pure _))

theorem reads_push0 :
    Reads (BinaryReader.readPushBigInt alloc) [Opcode.push0]
      (.null 0, false) :=
  (reads_readByte Opcode.push0).bind (reads_pure _)

theorem reads_pushSmall {number : Nat} (positive : 1 ≤ number)
    (small : number ≤ 16) (granted : alloc.grants 4 = true) :
    Reads (BinaryReader.readPushBigInt alloc)
      [UInt8.ofNat (0x10 + number)]
      (.items (LittleEndian.toBytes 4 number), false) := by
  have tail :
      Reads
        (BinaryReader.malloc alloc 4 "Failed to allocate integer data" >>=
          fun _ =>
            (pure (.items (LittleEndian.toBytes 4 number), false) :
              Routine BinaryReader (Buffer × Bool)))
        [] (.items (LittleEndian.toBytes 4 number), false) :=
    (reads_malloc _ granted).bind (reads_pure _)
  refine (reads_readByte (UInt8.ofNat (0x10 + number))).bind ?_
  interval_cases number <;> exact tail

/-- An operand is read as its bytes and the sign bit. -/
theorem reads_pushWide {opcode : UInt8} {operand : List UInt8}
    (form : (opcode, operand.length) ∈ wideForms)
    (serves : alloc.Serves 8) :
    Reads (BinaryReader.readPushBigInt alloc) (opcode :: operand)
      (.items operand, decide (0x80 ≤ operand.getLastD 0)) := by
  have tail (granted : alloc.grants operand.length = true) :
      Reads
        (BinaryReader.malloc alloc operand.length
            "Failed to allocate integer data" >>= fun _ =>
          BinaryReader.readBytes operand.length >>= fun data =>
            (pure (.items data, decide (0x80 ≤ data.getLastD 0)) :
              Routine BinaryReader (Buffer × Bool)))
        operand (.items operand, decide (0x80 ≤ operand.getLastD 0)) :=
    (reads_malloc _ granted).bind ((reads_readBytes operand).map _)
  refine (reads_readByte opcode).bind ?_
  simp only [wideForms, List.mem_cons, Prod.mk.injEq, List.not_mem_nil,
    or_false] at form
  rcases form with ⟨rfl, exact⟩ | ⟨rfl, exact⟩ | ⟨rfl, exact⟩ | ⟨rfl, exact⟩
  all_goals
    have read := tail (serves _ (by omega))
    rw [exact] at read
    exact read

theorem ne_nil_of_form {opcode : UInt8} {operand : List UInt8}
    (form : (opcode, operand.length) ∈ wideForms) :
    operand ≠ [] := by
  rintro rfl
  simp [wideForms] at form

/--
The magnitude and the sign of an operand denote it when it is not negative,
and when it is the least value of its width.
-/
theorem denoted_operand {operand : List UInt8} (some : operand ≠ []) :
    denoted (.items operand) (decide (0x80 ≤ operand.getLastD 0)) =
        LittleEndian.ofBytesSigned operand ↔
      0 ≤ LittleEndian.ofBytesSigned operand ∨
        2 * LittleEndian.ofBytesSigned operand =
          -(256 ^ operand.length : Nat) := by
  have below := LittleEndian.ofBytes_lt operand
  have content : (Slice.items operand).content = operand := rfl
  rw [denoted, LittleEndian.ofBytesSigned, content]
  simp only [decide_eq_true_eq, sign_iff some]
  generalize 256 ^ operand.length = modulus at below ⊢
  split_ifs with lower upper <;> omega

/-- An operand of at most four bytes is narrowed to it in the same cases. -/
theorem narrow_operand {operand : List UInt8} {value : Int32}
    (some : operand ≠ []) (short : operand.length ≤ 4)
    (denotes : LittleEndian.ofBytesSigned operand = value.toInt) :
    narrow (.items operand) (decide (0x80 ≤ operand.getLastD 0)) =
        .ok value ↔
      0 ≤ value.toInt ∨
        (operand.length ≤ 3 ∧
          2 * value.toInt = -(256 ^ operand.length : Nat)) := by
  have below := LittleEndian.ofBytes_lt operand
  have powers :
      (operand.length ≤ 3 ∧ 256 ^ operand.length ≤ 0x1000000) ∨
        (¬ operand.length ≤ 3 ∧ 256 ^ operand.length = 0x100000000) := by
    rcases Nat.lt_or_eq_of_le short with shorter | four
    · have three := Nat.le_of_lt_succ shorter
      exact .inl ⟨three, Nat.pow_le_pow_right (by decide) three⟩
    · rw [four]
      exact .inr ⟨by decide, by decide⟩
  have content : (Slice.items operand).content = operand := rfl
  have len : (Slice.items operand).len = operand.length := rfl
  rw [narrow, content, len, if_neg (by omega)]
  rw [LittleEndian.ofBytesSigned] at denotes
  simp only [decide_eq_true_eq, sign_iff some]
  generalize LittleEndian.ofBytes operand = number at below denotes ⊢
  generalize 256 ^ operand.length = modulus at below denotes powers ⊢
  have bounded : number < 0x100000000 := by omega
  have signed := toInt_toInt32_ofNat bounded
  have word : (UInt32.ofNat number).toNat = number :=
    UInt32.toNat_ofNat_of_lt bounded
  have isLeast :
      UInt32.ofNat number = 0x80000000 ↔ number = 0x80000000 := by
    rw [← UInt32.toNat_inj, word]
    rfl
  by_cases upper : modulus ≤ 2 * number
  · rw [if_neg (by omega)] at denotes
    rw [if_pos upper]
    simp only [isLeast]
    split_ifs with least
    · exact iff_of_false (by simp) (by omega)
    · have negated :
          (-(UInt32.ofNat number).toInt32).toInt =
            -(UInt32.ofNat number).toInt32.toInt := by
        rw [Int32.toInt_neg, signed]
        split_ifs <;> exact Int.bmod_eq_of_le (by omega) (by omega)
      rw [Except.ok.injEq, ← Int32.toInt_inj, negated, signed]
      split_ifs <;> omega
  · rw [if_pos (by omega)] at denotes
    rw [if_neg upper]
    refine iff_of_true ?_ (.inl (by omega))
    rw [Except.ok.injEq, ← Int32.toInt_inj, signed]
    split_ifs <;> omega

/-- What an integer emitted for a 32-bit value is read as. -/
theorem reads_pushed_iff {value : Int32} {bytes : List UInt8}
    (pushes : Pushes alloc value.toInt64 bytes) (serves : alloc.Serves 8) :
    Reads (BinaryReader.readPushInt alloc) bytes value ↔
      -1 ≤ value.toInt ∨ value.toInt = -128 ∨ value.toInt = -32768 := by
  have four : alloc.grants 4 = true := serves _ (by decide)
  have low := value.le_toInt
  have high := value.toInt_lt
  have same : value.toInt64.toInt = value.toInt := Int32.toInt_toInt64 value
  rw [pushes.eq_encode, same]
  rcases @encode_pushInt_cases value.toInt (by omega) (by omega) with
    ⟨minusOne, encoded⟩ | ⟨zero, sixteen, encoded⟩ |
    ⟨opcode, operand, encoded, form, width, denotes, outside⟩
  · have isMinusOne : value = -1 := Int32.toInt_inj.mp minusOne
    rw [encoded, reads_readPushInt_iff (reads_pushM1 four) (by decide)]
    subst isMinusOne
    decide
  · refine iff_of_true ?_ (.inl (by omega))
    rw [encoded]
    rcases Int.eq_ofNat_of_zero_le zero with ⟨number, equal⟩
    have isNumber : value = Int32.ofInt number := by
      rw [← equal, Int32.ofInt_toInt]
    have bound : number ≤ 16 := by omega
    rw [equal]
    rcases Nat.eq_zero_or_pos number with rfl | positive
    · rw [isNumber]
      exact (reads_readPushInt_iff reads_push0 (by decide)).mpr (by decide)
    · refine
        (reads_readPushInt_iff (reads_pushSmall positive bound four)
          (by rw [List.length_singleton]; decide)).mpr ?_
      rw [isNumber]
      interval_cases number <;> decide
  · have some := ne_nil_of_form form
    have short : operand.length ≤ 4 := by
      rw [width, operandWidth]
      split_ifs <;> omega
    rw [encoded,
      reads_readPushInt_iff (reads_pushWide form serves)
        (by rw [List.length_cons, ptrdiffMax]; omega),
      narrow_operand some short denotes, width, operandWidth]
    split_ifs <;> norm_num <;> omega

/--
A pushed 32-bit integer is read back, with the reader right behind it, if and
only if it is at least -1 or the least integer of one or of two bytes; and
the magnitude and the sign that are read of an operand denote it if and only
if it is not negative or the least integer of its width.
-/
theorem readPushInt_pushInteger_iff
    (alloc : Allocator)
    (serves : alloc.Serves 8) :
    (∀ (value : Int32) (bytes : List UInt8),
      Pushes alloc value.toInt64 bytes →
        (Reads (BinaryReader.readPushInt alloc) bytes value ↔
          -1 ≤ value.toInt ∨ value.toInt = -128 ∨ value.toInt = -32768)) ∧
    ∀ (opcode : UInt8) (operand : List UInt8),
      (opcode, operand.length) ∈ wideForms →
        ∃ data isNegative,
          Reads (BinaryReader.readPushBigInt alloc) (opcode :: operand)
              (data, isNegative) ∧
            (denoted data isNegative = LittleEndian.ofBytesSigned operand ↔
              0 ≤ LittleEndian.ofBytesSigned operand ∨
                2 * LittleEndian.ofBytesSigned operand =
                  -(256 ^ operand.length : Nat)) := by
  constructor
  · intro value bytes pushes
    exact reads_pushed_iff pushes serves
  · intro opcode operand form
    exact
      ⟨_, _, reads_pushWide form serves,
        denoted_operand (ne_nil_of_form form)⟩

/-- One thousand is read back, and its operand denotes it. -/
theorem readPushInt_pushInteger_iff_thousand :
    Reads (BinaryReader.readPushInt .ample) [0x01, 0xE8, 0x03]
        1000 ∧
      ∃ data isNegative,
        Reads (BinaryReader.readPushBigInt .ample)
            [0x01, 0xE8, 0x03] (data, isNegative) ∧
          denoted data isNegative = 1000 := by
  have both :=
    readPushInt_pushInteger_iff .ample
      (Allocator.ample_serves (by decide))
  constructor
  · exact
      (both.1 1000 [0x01, 0xE8, 0x03] (pushes_ample 1000)).mpr (by decide)
  · rcases both.2 0x01 [0xE8, 0x03] (by decide) with
      ⟨data, isNegative, read, exactly⟩
    exact ⟨data, isNegative, read, exactly.mpr (by decide)⟩

/-- Two below zero is pushed and read as 254 below zero. -/
theorem readPushInt_negates :
    Pushes .ample (-2) [0x00, 0xFE] ∧
      ¬ Reads (BinaryReader.readPushInt .ample) [0x00, 0xFE] (-2) := by
  constructor
  · exact pushes_ample (-2)
  · intro reads
    have ran :=
      reads ⟨[0x00, 0xFE], 0, sizeMax⟩ []
        ⟨by decide, by decide, .inl rfl⟩ rfl
    have returned := congrArg Prod.fst ran
    revert returned
    decide +kernel

end NeoC.ScriptBuilder
