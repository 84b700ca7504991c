import NeoC.Foundation.PrefixCode
import NeoC.Serialization.RoundTrip

/-!
# Where a failed read leaves the reader

The reads that consist of several steps begin with a byte that says how the
rest is laid out, and some of them read a length behind it.  When a later step
fails, nothing is put back: going back is left to `mark` and `reset`.

A step is `Atomic` if it leaves the reader alone when it fails.  Each of the
six reads is a first byte, a header which is atomic by itself and an atomic
rest, so a failure leaves the position before the call, behind the first byte
or behind the header.
-/

namespace NeoC.BinaryReader

open Foundation Serialization

/-! ## How far a failed read has come -/

/-- The bytes from the position on. -/
def ahead (reader : BinaryReader) : List UInt8 :=
  reader.data.drop reader.position

/-- The reader further on in its data. -/
def moved (reader : BinaryReader) (count : Nat) : BinaryReader :=
  { reader with position := reader.position + count }

/-- The reads that consist of several steps. -/
def Operation.IsCompound : Operation → Prop
  | .readVarInt => True
  | .readVarBytes => True
  | .readVarBytesMax _ => True
  | .readPushData => True
  | .readPushBigInt => True
  | .readEncodedEcPoint => True
  | _ => False

/-- The width of the length behind a `PUSHDATA` opcode. -/
def pushWidth (opcode : UInt8) : Nat :=
  if opcode = 0x0C then 1
  else if opcode = 0x0D then 2
  else if opcode = 0x0E then 4
  else 0

/-- The width of the length that is read before what it counts. -/
def Operation.lengthWidth : Operation → UInt8 → Nat
  | .readVarBytes, first => VarInt.payloadWidth first
  | .readVarBytesMax _, first => VarInt.payloadWidth first
  | .readPushData, first => pushWidth first
  | _, _ => 0

/-- The first byte, and the length behind it if it is there. -/
def headLength (width : UInt8 → Nat) : List UInt8 → Nat
  | [] => 0
  | first :: rest =>
      if width first ≤ rest.length then 1 + width first else 1

/-! ## Steps that leave the reader alone when they fail -/

variable {α β γ : Type}

/-- A call that changes nothing when it fails. -/
def Atomic (call : Routine BinaryReader α) : Prop :=
  ∀ reader reason after,
    reader.WellFormed →
      call reader = (.error reason, after) → after = reader

theorem atomic_pure (value : α) :
    Atomic (pure value : Routine BinaryReader α) := by
  intro reader reason after _ failed
  cases failed

theorem atomic_error (code : ErrorCode) (text : String) :
    Atomic (errorSet code text : Routine BinaryReader α) := by
  intro reader reason after _ failed
  cases failed
  rfl

/-- What follows cannot fail. -/
theorem Atomic.map {call : Routine BinaryReader α} (atomic : Atomic call)
    (change : α → β) :
    Atomic (call >>= fun value => pure (change value)) := by
  intro reader reason after wellFormed failed
  rcases ran : call reader with ⟨reason' | value, between⟩
  · rw [Call.bind_of_error ran] at failed
    cases failed
    exact atomic reader reason after wellFormed ran
  · rw [Call.bind_of_ok ran] at failed
    cases failed

/-- What goes before never changes the reader. -/
theorem Atomic.after_check {check : Routine BinaryReader α}
    {next : α → Routine BinaryReader β}
    (still : ∀ reader, (check reader).2 = reader)
    (atomic : ∀ value, Atomic (next value)) :
    Atomic (check >>= next) := by
  intro reader reason after wellFormed failed
  have unchanged := still reader
  rcases ran : check reader with ⟨reason' | value, between⟩
  · rw [Call.bind_of_error ran] at failed
    rw [ran] at unchanged
    cases failed
    exact unchanged
  · rw [Call.bind_of_ok ran] at failed
    rw [ran] at unchanged
    have same : between = reader := unchanged
    rw [same] at failed
    exact atomic value reader reason after wellFormed failed

theorem malloc_still (alloc : Allocator) (count : Nat) (text : String)
    (reader : BinaryReader) : (malloc alloc count text reader).2 = reader := by
  rw [malloc]
  split_ifs <;> rfl

theorem require_still (count : Nat) (text : String) (reader : BinaryReader) :
    (require count text reader).2 = reader := by
  rw [require]
  split_ifs <;> rfl

theorem load_still (count : Nat) (reader : BinaryReader) :
    (load count reader).2 = reader := by
  rw [load]
  split_ifs <;> rfl

theorem atomic_take (count : Nat) : Atomic (take count) := by
  refine Atomic.after_check (load_still count) ?_
  intro bytes reader reason after _ failed
  cases failed

theorem atomic_require_take (count : Nat) (text : String) :
    Atomic (require count text >>= fun _ => take count) :=
  Atomic.after_check (require_still count text) fun _ => atomic_take count

theorem atomic_readBytes (len : Nat) : Atomic (readBytes len) := by
  rw [readBytes]
  split_ifs
  · exact atomic_pure []
  · exact atomic_require_take len _

theorem atomic_readSized (alloc : Allocator) (size : Nat) :
    Atomic (readSized alloc size) := by
  rw [readSized]
  split_ifs
  · exact Atomic.after_check (malloc_still alloc _ _) fun _ => atomic_pure []
  · exact Atomic.after_check (malloc_still alloc _ _)
      fun _ => atomic_readBytes size

/-! ## Headers -/

/--
A call that moves over a fixed number of bytes, and leaves the reader alone
when it fails, which it does for lack of bytes or if there are none to read.
-/
structure Header (call : Routine BinaryReader α) (width : Nat) : Prop where
  succeeds :
    ∀ reader value after,
      reader.WellFormed →
        call reader = (.ok value, after) →
          width ≤ reader.ahead.length ∧ after = reader.moved width
  fails :
    ∀ reader reason after,
      reader.WellFormed →
        call reader = (.error reason, after) →
          after = reader ∧ (reader.ahead.length < width ∨ width = 0)

theorem Header.atomic {call : Routine BinaryReader α} {width : Nat}
    (header : Header call width) : Atomic call := by
  intro reader reason after wellFormed failed
  exact (header.fails reader reason after wellFormed failed).1

theorem header_pure (value : α) :
    Header (pure value : Routine BinaryReader α) 0 where
  succeeds := by
    intro reader value' after _ ran
    cases ran
    exact ⟨Nat.zero_le _, rfl⟩
  fails := by
    intro reader reason after _ failed
    cases failed

theorem header_error (code : ErrorCode) (text : String) :
    Header (errorSet code text : Routine BinaryReader α) 0 where
  succeeds := by
    intro reader value after _ ran
    cases ran
  fails := by
    intro reader reason after _ failed
    cases failed
    exact ⟨rfl, .inr rfl⟩

theorem Header.map {call : Routine BinaryReader α} {width : Nat}
    (header : Header call width) (change : α → β) :
    Header (call >>= fun value => pure (change value)) width where
  succeeds := by
    intro reader value after wellFormed ran
    rcases Call.bind_eq_ok_iff.mp ran with ⟨inner, between, first, last⟩
    cases last
    exact header.succeeds reader inner _ wellFormed first
  fails := by
    intro reader reason after wellFormed failed
    rcases ran : call reader with ⟨reason' | value, between⟩
    · rw [Call.bind_of_error ran] at failed
      cases failed
      exact header.fails reader reason after wellFormed ran
    · rw [Call.bind_of_ok ran] at failed
      cases failed

theorem length_ahead (reader : BinaryReader) :
    reader.ahead.length = reader.data.length - reader.position :=
  List.length_drop

theorem WellFormed.moved {reader : BinaryReader} {count : Nat}
    (wellFormed : reader.WellFormed) (enough : count ≤ reader.ahead.length) :
    (reader.moved count).WellFormed := by
  have within := wellFormed.position_le
  rw [length_ahead] at enough
  refine ⟨?_, wellFormed.length_le, wellFormed.marker_le⟩
  change reader.position + count ≤ reader.data.length
  omega

/-- A call that reads if there are enough bytes, and else gives up. -/
theorem header_of_run {call : Routine BinaryReader α} {width : Nat}
    {content : BinaryReader → α} {reason : Halt}
    (run :
      ∀ reader : BinaryReader,
        reader.WellFormed →
          width ≤ reader.ahead.length ∧
              call reader = (.ok (content reader), reader.moved width) ∨
            reader.ahead.length < width ∧
              call reader = (.error reason, reader)) :
    Header call width where
  succeeds := by
    intro reader value after wellFormed ran
    rcases run reader wellFormed with ⟨enough, result⟩ | ⟨-, result⟩
    · rw [result] at ran
      cases ran
      exact ⟨enough, rfl⟩
    · rw [result] at ran
      cases ran
  fails := by
    intro reader reason' after wellFormed failed
    rcases run reader wellFormed with ⟨-, result⟩ | ⟨short, result⟩
    · rw [result] at failed
      cases failed
    · rw [result] at failed
      cases failed
      exact ⟨rfl, .inl short⟩

theorem header_require_take {width : Nat} (small : width ≤ 8)
    (text : String) :
    Header (require width text >>= fun _ => take width) width := by
  refine @header_of_run _ _ _ (fun reader => reader.ahead.take width)
    (.error .endOfStream text) ?_
  intro reader wellFormed
  have within := wellFormed.position_le
  have bounded := wellFormed.length_le
  rw [length_ahead]
  by_cases inside : reader.position + width ≤ reader.data.length
  · refine .inl ⟨by omega, ?_⟩
    rw [Call.bind_of_ok (require_run_of_le text wellFormed inside),
      take_run wellFormed inside]
    rfl
  · have noWrap : reader.position + width < sizeModulus := by
      simp only [ptrdiffMax] at bounded
      simp only [sizeModulus]
      omega
    have refused :=
      require_run_of_gt text wellFormed (by omega)
        (Nat.lt_of_not_le inside) (.inl noWrap)
    exact .inr ⟨by omega, Call.bind_of_error refused⟩

theorem header_readByte : Header readByte 1 := by
  refine @header_of_run _ _ _ (fun reader => (reader.ahead.take 1).headD 0)
    (.error .endOfStream "End of stream reached") ?_
  intro reader wellFormed
  rw [length_ahead]
  by_cases ended : reader.position ≥ reader.size
  · have short : reader.data.length - reader.position < 1 := by
      rw [size] at ended
      omega
    exact .inr ⟨short, if_pos ended⟩
  · have inside : reader.position + 1 ≤ reader.data.length :=
      Nat.lt_of_not_le ended
    refine .inl ⟨by omega, ?_⟩
    rw [readByte, if_neg ended, Call.bind_of_ok (take_run wellFormed inside)]
    rfl

theorem header_readWord {width : Nat} (small : width ≤ 8) (text : String) :
    Header (readWord width text) width := by
  have header :=
    (header_require_take small text).map LittleEndian.ofBytes
  rwa [Call.bind_assoc] at header

/-- The header of a number of variable length. -/
theorem header_varInt (marker : UInt8) :
    Header
      (if marker < 0xFD then
        pure marker.toUInt64
      else if marker = 0xFD then do
        let val ← readUint16
        pure val.toUInt64
      else if marker = 0xFE then do
        let val ← readUint32
        pure val.toUInt64
      else
        readUint64)
      (VarInt.payloadWidth marker) := by
  have readUint16 := (header_readWord (show 2 ≤ 8 by decide)
    "Not enough data to read uint16").map UInt16.ofNat
  have readUint32 := (header_readWord (show 4 ≤ 8 by decide)
    "Not enough data to read uint32").map UInt32.ofNat
  have readUint64 := (header_readWord (show 8 ≤ 8 by decide)
    "Not enough data to read uint64").map UInt64.ofNat
  split_ifs with small two four
  · have below := UInt8.lt_iff_toNat_lt.mp small
    have alone := VarInt.payloadWidth_of_lt below
    rw [UInt8.ofNat_toNat] at alone
    rw [alone]
    exact header_pure _
  · rw [two]
    exact readUint16.map UInt16.toUInt64
  · rw [four]
    exact readUint32.map UInt32.toUInt64
  · rw [last_marker small two four]
    exact readUint64

theorem header_readPushSize (byte : UInt8) :
    Header (readPushSize byte) (pushWidth byte) := by
  rw [readPushSize, pushWidth]
  split_ifs
  · exact header_readByte.map UInt8.toNat
  · exact ((header_readWord (by decide) _).map UInt16.ofNat).map UInt16.toNat
  · exact ((header_readWord (by decide) _).map UInt32.ofNat).map UInt32.toNat
  · exact header_error _ _

/-! ## A first byte, a header and the rest -/

/-- A failed read has come as far as its header is complete. -/
theorem failed_behind_head {header : UInt8 → Routine BinaryReader α}
    {body : UInt8 → α → Routine BinaryReader β} {width : UInt8 → Nat}
    (headers : ∀ first, Header (header first) (width first))
    (bodies : ∀ first value, Atomic (body first value))
    {reader after : BinaryReader} {reason : Halt}
    (wellFormed : reader.WellFormed)
    (failed :
      (readByte >>= fun first => header first >>= body first) reader =
        (.error reason, after)) :
    after = reader.moved (headLength width reader.ahead) := by
  cases found : reader.ahead with
  | nil =>
      rcases ran : readByte reader with ⟨reason' | first, between⟩
      · rw [Call.bind_of_error ran] at failed
        cases failed
        exact (header_readByte.fails _ _ _ wellFormed ran).1
      · have enough := (header_readByte.succeeds _ _ _ wellFormed ran).1
        rw [found] at enough
        cases enough
  | cons first rest =>
      have ran : readByte reader = (.ok first, reader.moved 1) :=
        reads_readByte first reader rest wellFormed found
      rw [Call.bind_of_ok ran] at failed
      have between : (reader.moved 1).WellFormed :=
        wellFormed.moved (by rw [found]; exact Nat.le_add_left 1 _)
      have behind : (reader.moved 1).ahead = rest := by
        rw [ahead, moved, ← List.drop_drop, ← ahead, found]
        rfl
      rw [headLength]
      rcases head : header first (reader.moved 1) with ⟨reason' | value, last⟩
      · have stopped := (headers first).fails _ _ _ between head
        rw [behind] at stopped
        have result := failed.symm.trans (Call.bind_of_error head)
        cases result
        rw [stopped.1]
        rcases stopped.2 with short | none
        · rw [if_neg (Nat.not_le.mpr short)]
        · rw [none, if_pos (Nat.zero_le _)]
      · have passed := (headers first).succeeds _ _ _ between head
        rw [behind] at passed
        have result := (Call.bind_of_ok head).symm.trans failed
        have lastFormed : last.WellFormed := by
          rw [passed.2]
          exact between.moved (by rw [behind]; exact passed.1)
        rw [bodies first value _ _ _ lastFormed result, passed.2,
          if_pos passed.1, moved, moved, moved, Nat.add_assoc]

/-- A read whose first byte is all there is to a header. -/
theorem failed_behind_byte {rest : UInt8 → Routine BinaryReader β}
    (atomic : ∀ first, Atomic (rest first)) {reader after : BinaryReader}
    {reason : Halt} (wellFormed : reader.WellFormed)
    (failed : (readByte >>= rest) reader = (.error reason, after)) :
    after = reader.moved (headLength (fun _ => 0) reader.ahead) :=
  @failed_behind_head Unit β (fun _ => pure ()) (fun first _ => rest first)
    (fun _ => 0) (fun _ => header_pure ()) (fun first _ => atomic first)
    reader after reason wellFormed failed

/-! ## The six reads -/

section Reads

variable {alloc : Allocator} {reader after : BinaryReader} {reason : Halt}

theorem failed_readVarInt (wellFormed : reader.WellFormed)
    (failed : readVarInt reader = (.error reason, after)) :
    after = reader.moved (headLength (fun _ => 0) reader.ahead) := by
  refine failed_behind_byte ?_ wellFormed failed
  intro marker
  exact (header_varInt marker).atomic

theorem failed_readEncodedEcPoint (wellFormed : reader.WellFormed)
    (failed : readEncodedEcPoint alloc reader = (.error reason, after)) :
    after = reader.moved (headLength (fun _ => 0) reader.ahead) := by
  refine failed_behind_byte ?_ wellFormed failed
  intro byte
  split_ifs
  · exact Atomic.after_check (malloc_still alloc _ _)
      fun _ => (atomic_readBytes 32).map _
  · exact atomic_error _ _

theorem failed_readPushBigInt (wellFormed : reader.WellFormed)
    (failed : readPushBigInt alloc reader = (.error reason, after)) :
    after = reader.moved (headLength (fun _ => 0) reader.ahead) := by
  refine failed_behind_byte ?_ wellFormed failed
  intro byte
  split_ifs
  · exact atomic_pure _
  · exact Atomic.after_check (malloc_still alloc _ _) fun _ => atomic_pure _
  · exact Atomic.after_check (malloc_still alloc _ _) fun _ => atomic_pure _
  · cases pushIntCount byte with
    | none => exact atomic_error _ _
    | some count =>
        exact Atomic.after_check (malloc_still alloc _ _)
          fun _ => (atomic_readBytes count).map _

theorem failed_readPushData (wellFormed : reader.WellFormed)
    (failed : readPushData alloc reader = (.error reason, after)) :
    after = reader.moved (headLength pushWidth reader.ahead) :=
  failed_behind_head header_readPushSize
    (fun _ size => atomic_readSized alloc size) wellFormed failed

/-- A number of variable length and something atomic behind it. -/
theorem failed_behind_varInt {body : UInt64 → Routine BinaryReader β}
    (bodies : ∀ length, Atomic (body length))
    (wellFormed : reader.WellFormed)
    (failed : (readVarInt >>= body) reader = (.error reason, after)) :
    after = reader.moved (headLength VarInt.payloadWidth reader.ahead) := by
  rw [readVarInt, Call.bind_assoc] at failed
  exact failed_behind_head header_varInt (fun _ length => bodies length)
    wellFormed failed

theorem failed_readVarBytes (wellFormed : reader.WellFormed)
    (failed : readVarBytes alloc reader = (.error reason, after)) :
    after = reader.moved (headLength VarInt.payloadWidth reader.ahead) := by
  refine failed_behind_varInt ?_ wellFormed failed
  intro length
  split_ifs
  · exact atomic_pure _
  · exact Atomic.after_check (malloc_still alloc _ _)
      fun _ => (atomic_readBytes _).map _

theorem failed_readVarBytesMax {maxLength : Nat}
    (wellFormed : reader.WellFormed)
    (failed : readVarBytesMax alloc maxLength reader = (.error reason, after)) :
    after = reader.moved (headLength VarInt.payloadWidth reader.ahead) := by
  refine failed_behind_varInt ?_ wellFormed failed
  intro length
  split_ifs
  · exact atomic_error _ _
  · exact atomic_readSized alloc _

end Reads

theorem failed_of_ignore {call : Routine BinaryReader α}
    {reader after : BinaryReader} {reason : Halt}
    (failed : ignore call reader = (.error reason, after)) :
    call reader = (.error reason, after) := by
  rcases ran : call reader with ⟨reason' | value, between⟩
  · rw [ignore, Call.bind_of_error ran] at failed
    cases failed
    rfl
  · rw [ignore, Call.bind_of_ok ran] at failed
    cases failed

/-- The head is empty only where there is nothing to read. -/
theorem headLength_eq_zero_iff {width : UInt8 → Nat}
    {reader : BinaryReader} :
    headLength width reader.ahead = 0 ↔ reader.isAtEnd = true := by
  have length := reader.length_ahead
  rw [isAtEnd, decide_eq_true_eq, size]
  cases found : reader.ahead with
  | nil =>
      rw [found, List.length_nil] at length
      exact iff_of_true rfl (by omega)
  | cons first rest =>
      rw [found, List.length_cons] at length
      refine iff_of_false ?_ (by omega)
      rw [headLength]
      by_cases complete : width first ≤ rest.length
      · rw [if_pos complete]
        omega
      · rw [if_neg complete]
        exact Nat.one_ne_zero

theorem moved_eq_self_iff {reader : BinaryReader} {count : Nat} :
    reader.moved count = reader ↔ count = 0 := by
  rw [moved, BinaryReader.mk.injEq]
  simp

/--
A compound read that failed stands behind the first byte, and behind the
length too if that is complete.  It is where it was only if there was nothing
to read.  A caller who set the marker before gets the position back.
-/
theorem failed_read_moves
    (alloc : Allocator)
    (operation : Operation)
    (compound : operation.IsCompound)
    (reader : BinaryReader)
    (wellFormed : reader.WellFormed)
    (reason : Halt)
    (after : BinaryReader)
    (failed :
      perform alloc operation reader = (.error reason, after)) :
    after = reader.moved (headLength operation.lengthWidth reader.ahead) ∧
      (after = reader ↔ reader.isAtEnd = true) ∧
      (reader.marker = reader.position →
        reset after = (.ok (), reader)) := by
  have moves :
      after = reader.moved (headLength operation.lengthWidth reader.ahead) := by
    cases operation with
    | readVarInt => exact failed_readVarInt wellFormed (failed_of_ignore failed)
    | readVarBytes =>
        exact failed_readVarBytes wellFormed (failed_of_ignore failed)
    | readVarBytesMax maxLength =>
        exact failed_readVarBytesMax wellFormed (failed_of_ignore failed)
    | readPushData =>
        exact failed_readPushData wellFormed (failed_of_ignore failed)
    | readPushBigInt =>
        exact failed_readPushBigInt wellFormed (failed_of_ignore failed)
    | readEncodedEcPoint =>
        exact failed_readEncodedEcPoint wellFormed (failed_of_ignore failed)
    | _ => cases compound
  refine ⟨moves, ?_, ?_⟩
  · rw [moves, moved_eq_self_iff, headLength_eq_zero_iff]
  · intro marked
    have within := wellFormed.position_le
    have bounded := wellFormed.length_le
    have set : ¬ after.marker = sizeMax := by
      rw [moves]
      change ¬ reader.marker = sizeMax
      rw [marked]
      simp only [ptrdiffMax] at bounded
      simp only [sizeMax]
      omega
    rw [reset, if_neg set, moves]
    exact congrArg
      (fun position =>
        ((.ok () : Outcome Unit), ({ reader with position } : BinaryReader)))
      marked

/-- A number of which only the marker is there. -/
def truncated : BinaryReader where
  data := [0xFD]
  position := 0
  marker := sizeMax

theorem wellFormed_truncated : truncated.WellFormed :=
  ⟨Nat.zero_le _, by decide, .inl rfl⟩

theorem failed_read_moves_truncated :
    truncated.moved 1 =
        truncated.moved
          (headLength Operation.readVarInt.lengthWidth truncated.ahead) ∧
      (truncated.moved 1 = truncated ↔ truncated.isAtEnd = true) ∧
      (truncated.marker = truncated.position →
        reset (truncated.moved 1) = (.ok (), truncated)) :=
  failed_read_moves .ample .readVarInt trivial truncated
    wellFormed_truncated
    (.error .endOfStream "Not enough data to read uint16")
    (truncated.moved 1) rfl

/-- The marker of a truncated number is not put back. -/
theorem failed_read_keeps_marker :
    ¬ ∀ (alloc : Allocator) (operation : Operation),
      operation.IsCompound →
        ∀ (reader : BinaryReader) (reason : Halt) (after : BinaryReader),
          reader.WellFormed →
            perform alloc operation reader = (.error reason, after) →
              after.position = reader.position := by
  intro atomic
  have same :=
    atomic .ample .readVarInt trivial truncated
      (.error .endOfStream "Not enough data to read uint16")
      (truncated.moved 1) wellFormed_truncated rfl
  cases same

end NeoC.BinaryReader
