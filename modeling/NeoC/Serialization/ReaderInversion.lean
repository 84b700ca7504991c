import NeoC.Serialization.RoundTrip

/-!
# What a successful read has consumed

`Reads` says that a call takes given bytes for a given value.  `Consumes` is
the other direction: a call that succeeded has moved over bytes which have a
certain form for the value it returned.  The form of a sequence is built up
from the front, with what was consumed so far put before it.

A number of variable length can be written in more than one way, because the
reader does not ask for the shortest; `VarIntForm` lists the ways.
-/

namespace NeoC.Serialization

open Foundation

variable {α β : Type}

/-- A successful call has moved over bytes of this form for its value. -/
def Consumes (call : Routine BinaryReader α)
    (form : List UInt8 → α → Prop) : Prop :=
  ∀ (reader : BinaryReader) (value : α) (reader' : BinaryReader),
    reader.WellFormed →
      call reader = (.ok value, reader') →
        ∃ bytes rest,
          reader.data.drop reader.position = bytes ++ rest ∧
            form bytes value ∧
            reader' =
              { reader with position := reader.position + bytes.length }

theorem consumes_pure {form : List UInt8 → α → Prop} {value : α}
    (formed : form [] value) :
    Consumes (pure value) form := by
  intro reader value' reader' _ ran
  cases ran
  exact ⟨[], _, rfl, formed, rfl⟩

theorem consumes_halt (reason : Halt) (form : List UInt8 → α → Prop) :
    Consumes (Call.halt reason) form := by
  intro reader value reader' _ ran
  cases ran

/-- What follows a call is consumed behind what the call consumed. -/
theorem Consumes.bind {first : Routine BinaryReader α}
    {next : α → Routine BinaryReader β}
    {firstForm : List UInt8 → α → Prop} {form : List UInt8 → β → Prop}
    (head : Consumes first firstForm)
    (tail :
      ∀ value consumed,
        firstForm consumed value →
          Consumes (next value) fun bytes result =>
            form (consumed ++ bytes) result) :
    Consumes (first >>= next) form := by
  intro reader result reader' wellFormed ran
  rcases Call.bind_eq_ok_iff.mp ran with
    ⟨value, between, ranFirst, ranNext⟩
  rcases head reader value between wellFormed ranFirst with
    ⟨consumed, rest, found, formed, rfl⟩
  have inside := position_add_le wellFormed found
  have moved :
      ({ reader with position := reader.position + consumed.length } :
        BinaryReader).WellFormed :=
    ⟨inside, wellFormed.length_le, wellFormed.marker_le⟩
  rcases tail value consumed formed _ result reader' moved ranNext with
    ⟨bytes, remaining, foundNext, formedNext, rfl⟩
  refine ⟨consumed ++ bytes, remaining, ?_, formedNext, ?_⟩
  · have behind :
        rest = bytes ++ remaining := by
      rw [← foundNext, ← List.drop_drop, found, List.drop_left]
    rw [found, behind, List.append_assoc]
  · rw [List.length_append, Nat.add_assoc]

theorem Consumes.imp {call : Routine BinaryReader α}
    {form form' : List UInt8 → α → Prop} (consumes : Consumes call form)
    (weaker : ∀ bytes value, form bytes value → form' bytes value) :
    Consumes call form' := by
  intro reader value reader' wellFormed ran
  rcases consumes reader value reader' wellFormed ran with
    ⟨bytes, rest, found, formed, moved⟩
  exact ⟨bytes, rest, found, weaker bytes value formed, moved⟩

/-- Nothing is consumed by a call for memory. -/
theorem consumes_malloc (alloc : Allocator) (count : Nat) (text : String) :
    Consumes (BinaryReader.malloc alloc count text)
      fun bytes _ => bytes = [] := by
  rw [BinaryReader.malloc]
  split
  · exact consumes_pure rfl
  · exact consumes_halt _ _

/-- Items are consumed one after another. -/
theorem Consumes.times {call : Routine BinaryReader α}
    {form : List UInt8 → α → Prop} (each : Consumes call form)
    (count : Nat) :
    Consumes (call.times count) fun bytes values =>
      values.length = count ∧
        ∃ pieces, bytes = pieces.flatten ∧
          List.Forall₂ form pieces values := by
  induction count with
  | zero => exact consumes_pure ⟨rfl, [], rfl, .nil⟩
  | succ count induction =>
      refine each.bind fun value piece formed => ?_
      refine induction.bind ?_
      rintro values consumed ⟨length, pieces, rfl, formedAll⟩
      refine consumes_pure ⟨by rw [List.length_cons, length], ?_⟩
      refine ⟨piece :: pieces, ?_, .cons formed formedAll⟩
      rw [List.append_nil, List.flatten_cons]

/-! ## The operations -/

theorem consumes_take (count : Nat) :
    Consumes (BinaryReader.take count) fun bytes value =>
      bytes = value ∧ value.length = count := by
  intro reader value reader' wellFormed ran
  by_cases inside : reader.position + count ≤ reader.data.length
  · rw [BinaryReader.take_run wellFormed inside] at ran
    cases ran
    have length :
        ((reader.data.drop reader.position).take count).length =
          count := by
      rw [List.length_take, List.length_drop]
      omega
    refine ⟨_, _, (List.take_append_drop count _).symm, ⟨rfl, length⟩, ?_⟩
    rw [length]
  · have refused :
        BinaryReader.load count reader =
          (.error .illegalAccess, reader) :=
      if_neg inside
    rw [BinaryReader.take, Call.bind_of_error refused] at ran
    cases ran

theorem consumes_require_take (count : Nat) (text : String) :
    Consumes
      (BinaryReader.require count text >>= fun _ =>
        BinaryReader.take count)
      fun bytes value => bytes = value ∧ value.length = count := by
  intro reader value reader' wellFormed ran
  rcases Call.bind_eq_ok_iff.mp ran with ⟨_, between, checked, taken⟩
  have same : between = reader := by
    rw [BinaryReader.require] at checked
    split at checked
    · cases checked
    · cases checked
      rfl
  subst same
  exact consumes_take count _ value reader' wellFormed taken

theorem consumes_readByte :
    Consumes BinaryReader.readByte fun bytes value => bytes = [value] := by
  intro reader value reader' wellFormed ran
  rw [BinaryReader.readByte] at ran
  split at ran
  · cases ran
  have taken :
      Consumes
        (BinaryReader.take 1 >>= fun bytes => pure (bytes.headD 0))
        fun bytes value => bytes = [value] := by
    refine (consumes_take 1).bind ?_
    rintro value consumed ⟨rfl, length⟩
    rcases List.length_eq_one_iff.mp length with ⟨byte, rfl⟩
    exact consumes_pure rfl
  exact taken reader value reader' wellFormed ran

theorem consumes_readBytes (len : Nat) :
    Consumes (BinaryReader.readBytes len) fun bytes value =>
      bytes = value ∧ value.length = len := by
  rw [BinaryReader.readBytes]
  split
  · rename_i empty
    exact consumes_pure ⟨rfl, empty.symm⟩
  · exact consumes_require_take len _

theorem consumes_readWord (width : Nat) (text : String) :
    Consumes (BinaryReader.readWord width text) fun bytes value =>
      bytes = LittleEndian.toBytes width value ∧ value < 256 ^ width := by
  have read :
      Consumes
        ((BinaryReader.require width text >>= fun _ =>
            BinaryReader.take width) >>=
          fun bytes => pure (LittleEndian.ofBytes bytes))
        fun bytes value =>
          bytes = LittleEndian.toBytes width value ∧
            value < 256 ^ width := by
    refine (consumes_require_take width text).bind ?_
    rintro value consumed ⟨rfl, rfl⟩
    refine consumes_pure ⟨?_, LittleEndian.ofBytes_lt consumed⟩
    rw [List.append_nil, LittleEndian.toBytes_ofBytes]
  rw [Call.bind_assoc] at read
  exact read

theorem consumes_readUint16 :
    Consumes BinaryReader.readUint16 fun bytes value =>
      bytes = LittleEndian.toBytes 2 value.toNat := by
  refine (consumes_readWord 2 _).bind ?_
  rintro value consumed ⟨rfl, small⟩
  refine consumes_pure ?_
  rw [List.append_nil, UInt16.toNat_ofNat', Nat.mod_eq_of_lt (by omega)]

theorem consumes_readUint32 :
    Consumes BinaryReader.readUint32 fun bytes value =>
      bytes = LittleEndian.toBytes 4 value.toNat := by
  refine (consumes_readWord 4 _).bind ?_
  rintro value consumed ⟨rfl, small⟩
  refine consumes_pure ?_
  rw [List.append_nil, UInt32.toNat_ofNat', Nat.mod_eq_of_lt (by omega)]

theorem consumes_readUint64 :
    Consumes BinaryReader.readUint64 fun bytes value =>
      bytes = LittleEndian.toBytes 8 value.toNat := by
  refine (consumes_readWord 8 _).bind ?_
  rintro value consumed ⟨rfl, small⟩
  refine consumes_pure ?_
  rw [List.append_nil, UInt64.toNat_ofNat', Nat.mod_eq_of_lt (by omega)]

/-! ## Numbers of variable length -/

/-- The ways in which a number is accepted, the shortest first. -/
inductive VarIntForm : List UInt8 → Nat → Prop where
  | byte (value : UInt8) (small : value < 0xFD) :
      VarIntForm [value] value.toNat
  | uint16 (value : UInt16) :
      VarIntForm (0xFD :: LittleEndian.toBytes 2 value.toNat) value.toNat
  | uint32 (value : UInt32) :
      VarIntForm (0xFE :: LittleEndian.toBytes 4 value.toNat) value.toNat
  | uint64 (value : UInt64) :
      VarIntForm (0xFF :: LittleEndian.toBytes 8 value.toNat) value.toNat

theorem VarIntForm.lt {bytes : List UInt8} {value : Nat}
    (form : VarIntForm bytes value) : value < 2 ^ 64 := by
  cases form with
  | byte value small => exact value.toNat_lt.trans (by decide)
  | uint16 value => exact value.toNat_lt.trans (by decide)
  | uint32 value => exact value.toNat_lt.trans (by decide)
  | uint64 value => exact value.toNat_lt

/-- Whichever form a number has, it is read. -/
theorem VarIntForm.reads {bytes : List UInt8} {value : Nat}
    (form : VarIntForm bytes value) :
    Reads BinaryReader.readVarInt bytes (UInt64.ofNat value) := by
  cases form with
  | byte value small =>
      intro reader rest wellFormed found
      have first := reads_readByte value reader rest wellFormed found
      have same : value.toUInt64 = UInt64.ofNat value.toNat := by
        apply UInt64.toNat_inj.mp
        rw [UInt8.toNat_toUInt64, UInt64.toNat_ofNat',
          Nat.mod_eq_of_lt (VarIntForm.byte value small).lt]
      rw [BinaryReader.readVarInt, Call.bind_of_ok first, if_pos small,
        same]
      rfl
  | uint16 value =>
      have same : value.toUInt64 = UInt64.ofNat value.toNat := by
        apply UInt64.toNat_inj.mp
        rw [UInt16.toNat_toUInt64, UInt64.toNat_ofNat',
          Nat.mod_eq_of_lt (VarIntForm.uint16 value).lt]
      have word := (reads_readUint16 value).map UInt16.toUInt64
      rw [same] at word
      exact (reads_readByte 0xFD).bind word
  | uint32 value =>
      have same : value.toUInt64 = UInt64.ofNat value.toNat := by
        apply UInt64.toNat_inj.mp
        rw [UInt32.toNat_toUInt64, UInt64.toNat_ofNat',
          Nat.mod_eq_of_lt (VarIntForm.uint32 value).lt]
      have word := (reads_readUint32 value).map UInt32.toUInt64
      rw [same] at word
      exact (reads_readByte 0xFE).bind word
  | uint64 value =>
      rw [UInt64.ofNat_toNat]
      exact (reads_readByte 0xFF).bind (reads_readUint64 value)

theorem consumes_readVarInt :
    Consumes BinaryReader.readVarInt fun bytes value =>
      VarIntForm bytes value.toNat := by
  refine consumes_readByte.bind ?_
  rintro marker consumed rfl
  split
  · rename_i small
    refine consumes_pure ?_
    have form := VarIntForm.byte marker small
    rwa [UInt8.toNat_toUInt64]
  split
  · rename_i two
    subst two
    refine consumes_readUint16.bind ?_
    rintro value word rfl
    refine consumes_pure ?_
    have form := VarIntForm.uint16 value
    rwa [List.append_nil, UInt16.toNat_toUInt64]
  split
  · rename_i four
    subst four
    refine consumes_readUint32.bind ?_
    rintro value word rfl
    refine consumes_pure ?_
    have form := VarIntForm.uint32 value
    rwa [List.append_nil, UInt32.toNat_toUInt64]
  · rename_i notSmall notTwo notFour
    have eight := BinaryReader.last_marker notSmall notTwo notFour
    subst eight
    refine consumes_readUint64.imp ?_
    rintro bytes value rfl
    exact .uint64 value

/-- The form that the writer chooses is one of them. -/
theorem varIntForm_encode (value : UInt64) :
    VarIntForm (VarInt.encode value.toNat) value.toNat := by
  have number := value.toNat_lt
  unfold VarInt.encode
  split_ifs with one two four
  · have form :=
      VarIntForm.byte (UInt8.ofNat value.toNat) (by
        rw [UInt8.lt_iff_toNat_lt, UInt8.toNat_ofNat',
          Nat.mod_eq_of_lt (by omega)]
        exact one)
    rw [UInt8.toNat_ofNat', Nat.mod_eq_of_lt (by omega)] at form
    rw [LittleEndian.toBytes, LittleEndian.toBytes,
      Nat.mod_eq_of_lt (by omega)]
    exact form
  · have form := VarIntForm.uint16 (UInt16.ofNat value.toNat)
    rwa [UInt16.toNat_ofNat', Nat.mod_eq_of_lt (by omega)] at form
  · have form := VarIntForm.uint32 (UInt32.ofNat value.toNat)
    rwa [UInt32.toNat_ofNat', Nat.mod_eq_of_lt (by omega)] at form
  · exact .uint64 value

/-- No form is shorter than the one that the writer chooses. -/
theorem VarIntForm.length_encode_le {bytes : List UInt8} {value : Nat}
    (form : VarIntForm bytes value) :
    (VarInt.encode value).length ≤ bytes.length := by
  rw [VarInt.length_encode]
  cases form with
  | byte value small =>
      have low : value.toNat < 0xFD := UInt8.lt_iff_toNat_lt.mp small
      rw [if_pos low]
      rfl
  | uint16 value =>
      have bounded := value.toNat_lt
      rw [List.length_cons, LittleEndian.length_toBytes]
      split_ifs <;> omega
  | uint32 value =>
      have bounded := value.toNat_lt
      rw [List.length_cons, LittleEndian.length_toBytes]
      split_ifs <;> omega
  | uint64 value =>
      rw [List.length_cons, LittleEndian.length_toBytes]
      split_ifs <;> omega

/-! ## Byte strings of variable length -/

/-- A byte string behind a length in any of its forms is read. -/
theorem reads_varBytesForm {alloc : Allocator}
    {lengthBytes content : List UInt8}
    (form : VarIntForm lengthBytes content.length)
    (granted : alloc.grants content.length = true) :
    Reads (BinaryReader.readVarBytes alloc) (lengthBytes ++ content)
      (bufferOf content) :=
  reads_varBytesBehind form.reads granted

theorem consumes_readVarBytes (alloc : Allocator) :
    Consumes (BinaryReader.readVarBytes alloc) fun bytes value =>
      ∃ lengthBytes content,
        bytes = lengthBytes ++ content ∧
          VarIntForm lengthBytes content.length ∧
          value = bufferOf content := by
  refine consumes_readVarInt.bind ?_
  intro length lengthBytes form
  split
  · rename_i empty
    refine consumes_pure ⟨lengthBytes, [], rfl, ?_, rfl⟩
    rwa [empty] at form
  · rename_i filled
    refine (consumes_malloc alloc _ _).bind ?_
    rintro _ _ rfl
    refine (consumes_readBytes _).bind ?_
    rintro content consumed ⟨rfl, exact⟩
    refine consumes_pure ⟨lengthBytes, consumed, ?_, ?_, ?_⟩
    · rw [List.append_nil, List.nil_append]
    · rwa [exact]
    · rw [bufferOf, if_neg (by rwa [exact])]

end NeoC.Serialization
