import NeoC.Script.ScriptBuilder
import NeoC.Serialization.RoundTrip

/-!
# Pushed byte strings read back

`neoc_script_builder_push_data` writes an empty string as `PUSH0`, and every
other one behind its opcode and length.  `neoc_binary_reader_read_push_data`
knows the three opcodes with a length only.  So a sequence is read back
exactly when no string in it is empty.  A string whose length does not fit 32
bits is not refused: its length is cut to its low bytes.
-/

namespace NeoC.ScriptBuilder

open Foundation NeoVm Serialization

/-- Push byte strings one after another. -/
def pushAll (alloc : Allocator) (strings : List (List UInt8)) :
    Routine BinaryWriter Unit :=
  Call.forEach (fun content => pushData alloc (.items content)) strings

/-- The strings are read back in order, up to the end of the script. -/
def ReadsBack (alloc : Allocator) (strings : List (List UInt8)) : Prop :=
  ∃ script reader finished,
    build alloc (pushAll alloc strings) = .ok script ∧
      BinaryReader.create alloc script = .ok reader ∧
        (BinaryReader.readPushData alloc).times strings.length reader =
            (.ok strings, finished) ∧
          finished.isAtEnd = true

/--
Strings of at most `2 ^ 32 - 1` bytes are read back, and a longer one is
refused by every writer.
-/
def Carried (alloc : Allocator) (strings : List (List UInt8)) : Prop :=
  ((∀ content ∈ strings, content.length ≤ 0xFFFFFFFF) →
    ReadsBack alloc strings) ∧
  ∀ content ∈ strings,
    0xFFFFFFFF < content.length →
      ∀ writer : BinaryWriter,
        writer.WellFormed →
          ∃ reason,
            (pushData alloc (.items content) writer).1 = .error reason

variable {alloc : Allocator}

/-! ## What is written -/

/-- The bytes of the pushes. -/
def pushedBytes (strings : List (List UInt8)) : List UInt8 :=
  strings.flatMap fun content => (instructionOfBytes content).encode

theorem pushAll_emits (strings : List (List UInt8)) :
    BinaryWriter.Emits alloc (pushAll alloc strings) (pushedBytes strings) := by
  refine BinaryWriter.emits_forEach ?_
  intro content _
  have emits := @pushData_assembles alloc content
  rwa [Assembles, assemble_cons, show assemble [] = [] from rfl,
    List.append_nil] at emits

theorem encode_of_nonempty {content : List UInt8} (some : content ≠ []) :
    (instructionOfBytes content).encode =
      (Instruction.pushData content).encode := by
  rw [instructionOfBytes, if_neg (by simpa using some)]

theorem length_encode_le (content : List UInt8) :
    (instructionOfBytes content).encode.length ≤ content.length + 5 := by
  rw [instructionOfBytes]
  split_ifs with empty
  · exact Nat.le_add_left 1 _
  · rw [Instruction.encode]
    split_ifs <;> simp <;> omega

theorem length_pushedBytes_le (strings : List (List UInt8)) :
    (pushedBytes strings).length ≤
      (strings.map fun content => content.length + 5).sum := by
  induction strings with
  | nil => exact Nat.le_refl 0
  | cons content rest induction =>
      have first := length_encode_le content
      rw [pushedBytes, List.flatMap_cons, List.length_append, List.map_cons,
        List.sum_cons]
      exact Nat.add_le_add first induction

/-! ## What is read -/

/-- A push with a length is read as its bytes. -/
theorem reads_pushData {content : List UInt8} (some : content ≠ [])
    (small : content.length ≤ 0xFFFFFFFF)
    (granted : alloc.grants content.length = true) :
    Reads (BinaryReader.readPushData alloc)
      (instructionOfBytes content).encode content := by
  have nonzero : content.length ≠ 0 := by simpa using some
  have body :
      Reads (BinaryReader.readSized alloc content.length) content content := by
    rw [BinaryReader.readSized, if_neg nonzero]
    exact (reads_malloc _ granted).bind (reads_readBytes content)
  rw [encode_of_nonempty some, Instruction.encode]
  split_ifs with one two
  · have size :
        Reads (BinaryReader.readPushSize 0x0C)
          (LittleEndian.toBytes 1 content.length) content.length := by
      have read :=
        (reads_readByte (UInt8.ofNat content.length)).map UInt8.toNat
      have exact8 : (UInt8.ofNat content.length).toNat = content.length :=
        UInt8.toNat_ofNat_of_lt (Nat.lt_succ_of_le one)
      have bytes :
          LittleEndian.toBytes 1 content.length =
            [UInt8.ofNat content.length] := by
        rw [LittleEndian.toBytes, Nat.mod_eq_of_lt (by omega)]
        rfl
      rw [exact8] at read
      rw [bytes]
      exact read
    exact (reads_readByte 0x0C).bind (size.bind body)
  · have size :
        Reads (BinaryReader.readPushSize 0x0D)
          (LittleEndian.toBytes 2 content.length) content.length := by
      have read :=
        (reads_readUint16 (UInt16.ofNat content.length)).map UInt16.toNat
      have exact16 : (UInt16.ofNat content.length).toNat = content.length :=
        UInt16.toNat_ofNat_of_lt (Nat.lt_succ_of_le two)
      rw [exact16] at read
      exact read
    exact (reads_readByte 0x0D).bind (size.bind body)
  · have size :
        Reads (BinaryReader.readPushSize 0x0E)
          (LittleEndian.toBytes 4 content.length) content.length := by
      have read :=
        (reads_readUint32 (UInt32.ofNat content.length)).map UInt32.toNat
      have exact32 : (UInt32.ofNat content.length).toNat = content.length :=
        UInt32.toNat_ofNat_of_lt (Nat.lt_succ_of_le small)
      rw [exact32] at read
      exact read
    exact (reads_readByte 0x0E).bind (size.bind body)

/-- An empty string is not read at all. -/
theorem readPushData_push0 {reader : BinaryReader} {rest : List UInt8}
    (wellFormed : reader.WellFormed)
    (found : reader.data.drop reader.position = Opcode.push0 :: rest) :
    ∃ reason, (BinaryReader.readPushData alloc reader).1 = .error reason := by
  rw [BinaryReader.readPushData,
    Call.bind_of_ok (reads_readByte Opcode.push0 reader rest wellFormed found)]
  exact ⟨_, rfl⟩

/-- What is read in as many steps as were pushed contains no empty string. -/
theorem nonempty_of_times {strings values : List (List UInt8)}
    {reader finished : BinaryReader} {rest : List UInt8}
    (small : ∀ content ∈ strings, content.length ≤ 0xFFFFFFFF)
    (granted : ∀ content ∈ strings, alloc.grants content.length = true)
    (wellFormed : reader.WellFormed)
    (found :
      reader.data.drop reader.position = pushedBytes strings ++ rest)
    (ran :
      (BinaryReader.readPushData alloc).times strings.length reader =
        (.ok values, finished)) :
    ∀ content ∈ strings, content ≠ [] := by
  induction strings generalizing reader values finished with
  | nil => simp
  | cons content others induction =>
      rcases List.forall_mem_cons.mp small with ⟨smallFirst, smallOthers⟩
      rcases List.forall_mem_cons.mp granted with
        ⟨grantedFirst, grantedOthers⟩
      rw [pushedBytes, List.flatMap_cons, List.append_assoc] at found
      rcases Call.bind_eq_ok_iff.mp ran with ⟨value, between, first, later⟩
      by_cases empty : content = []
      · subst empty
        rcases readPushData_push0 wellFormed found with ⟨reason, failed⟩
        rw [first] at failed
        cases failed
      · have inside := position_add_le wellFormed found
        rw [reads_pushData empty smallFirst grantedFirst reader _ wellFormed
          found] at first
        injection first with _ moved
        subst moved
        have behind :
            ({ reader with
              position :=
                reader.position +
                  (instructionOfBytes content).encode.length } :
              BinaryReader).WellFormed :=
          ⟨inside, wellFormed.length_le, wellFormed.marker_le⟩
        rcases Call.bind_eq_ok_iff.mp later with ⟨tail, last, read, -⟩
        refine
          List.forall_mem_cons.mpr
            ⟨empty, induction smallOthers grantedOthers behind ?_ read⟩
        rw [← List.drop_drop, found, List.drop_left]
        rfl

/-! ## The round trip -/

/-- Short strings are read back exactly when none is empty. -/
theorem readsBack_iff {strings : List (List UInt8)}
    (small : ∀ content ∈ strings, content.length ≤ 0xFFFFFFFF)
    (serves :
      alloc.Serves
        (256 + 2 * (strings.map fun content => content.length + 5).sum)) :
    ReadsBack alloc strings ↔ ∀ content ∈ strings, content ≠ [] := by
  have length := length_pushedBytes_le strings
  have granted :
      ∀ content ∈ strings, alloc.grants content.length = true := by
    intro content member
    have within :=
      List.single_le_sum (by simp)
        _ (List.mem_map_of_mem (f := fun content => content.length + 5) member)
    exact serves _ (by omega)
  have built :
      build alloc (pushAll alloc strings) = .ok (pushedBytes strings) :=
    build_succeeds (pushAll_emits strings)
      (serves.mono (by omega))
  have opened :
      BinaryReader.create alloc (pushedBytes strings) =
        .ok ⟨pushedBytes strings, 0, sizeMax⟩ :=
    BinaryReader.create_succeeds
      (serves.mono (by rw [BinaryReader.structSize]; omega))
  have ready := (BinaryReader.create_eq_ok opened).2
  constructor
  · rintro ⟨script, reader, finished, scripted, created, ran, -⟩
    rw [built] at scripted
    injection scripted with same
    subst same
    rw [opened] at created
    injection created with same
    subst same
    exact
      nonempty_of_times small granted ready (List.append_nil _).symm ran
  · intro nonempty
    have read :=
      Reads.times fun content member =>
        reads_pushData (nonempty content member) (small content member)
          (granted content member)
    refine
      ⟨_, _, _, built, opened,
        read _ [] ready (List.append_nil _).symm, ?_⟩
    rw [BinaryReader.isAtEnd]
    exact decide_eq_true (Nat.le_of_eq (Nat.zero_add _).symm)

/-! ## Strings that are too long -/

/-- With memory a writer takes a string of any length. -/
theorem pushData_accepts (content : List UInt8)
    (serves : alloc.Serves (256 + 2 * (content.length + 5))) :
    ∃ writer written,
      writer.WellFormed ∧
        pushData alloc (.items content) writer = (.ok (), written) := by
  have emits := @pushData_assembles alloc content
  have length := length_encode_le content
  rw [Assembles, assemble_cons, show assemble [] = [] from rfl,
    List.append_nil] at emits
  rcases create_succeeds (serves.mono (by omega)) with ⟨writer, created⟩
  rcases fresh_create alloc writer created with ⟨wellFormed, grows, empty⟩
  have start : writer.position = 0 := by
    rw [← wellFormed.length_contents, empty]
    rfl
  rcases emits.succeeds writer wellFormed grows
      (serves.mono (by rw [start]; omega)) with
    ⟨written, ran⟩
  exact ⟨writer, written, wellFormed, ran⟩

/--
Pushed byte strings are read back in order, and those that are too long are
refused, if and only if none is empty and none is too long: where there is
memory, a string that is too long is pushed like any other.
-/
theorem carried_iff
    (alloc : Allocator)
    (strings : List (List UInt8))
    (serves :
      alloc.Serves
        (256 + 2 * (strings.map fun content => content.length + 5).sum)) :
    Carried alloc strings ↔
      ∀ content ∈ strings, content ≠ [] ∧ content.length ≤ 0xFFFFFFFF := by
  constructor
  · rintro ⟨short, long⟩
    have small : ∀ content ∈ strings, content.length ≤ 0xFFFFFFFF := by
      intro content member
      by_contra exceeds
      have within :=
        List.single_le_sum (by simp) _
          (List.mem_map_of_mem (f := fun content => content.length + 5)
            member)
      rcases pushData_accepts content (serves.mono (by omega)) with
        ⟨writer, written, wellFormed, ran⟩
      rcases long content member (Nat.lt_of_not_le exceeds) writer
        wellFormed with ⟨reason, refused⟩
      rw [ran] at refused
      cases refused
    intro content member
    exact
      ⟨(readsBack_iff small serves).mp (short small) content member,
        small content member⟩
  · intro proper
    refine ⟨fun small => ?_, fun content member long => ?_⟩
    · exact
        (readsBack_iff small serves).mpr
          (fun content member => (proper content member).1)
    · have short := (proper content member).2
      omega

/-- Two strings are read back. -/
theorem carried_iff_two :
    Carried .ample [[0x01, 0x02], [0x00]] :=
  (carried_iff .ample [[0x01, 0x02], [0x00]]
    (Allocator.ample_serves (by decide))).mpr (by decide)

/-- An empty string is pushed and not read. -/
theorem emptyString_lost :
    ¬ ReadsBack .ample [[]] := by
  intro readsBack
  have short :
      ∀ content ∈ ([[]] : List (List UInt8)),
        content.length ≤ 0xFFFFFFFF := by
    decide
  exact
    (readsBack_iff short (Allocator.ample_serves (by decide))).mp readsBack []
      (List.mem_singleton_self []) rfl

end NeoC.ScriptBuilder
