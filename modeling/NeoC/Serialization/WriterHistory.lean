import NeoC.Foundation.PrefixCode
import NeoC.Foundation.Run
import NeoC.Serialization.BinaryWriter

/-!
# Histories of a binary writer

A caller writes to a writer in any order, on a buffer that may grow or not and
with memory that may run out at any time.  Every call is a list of parts, each
of which makes room for itself and stores itself.

A part by itself is written as a whole or not at all.  The parts of a call are
not: a number of variable length consists of a marker and a payload, and a
byte string stands behind its length.  If room is found for the first part but
not for a later one, the call reports an error and the first part stays.  And
the loop that doubles the capacity goes on for ever once the capacity has been
shifted out of a `size_t`.  `Undivided` excludes both, and a run is exact
precisely when all its calls are.
-/

namespace NeoC.BinaryWriter

open Foundation

/-! ## Calls and their parts -/

/-- The `neoc_binary_writer_write_*` calls.  A length is a `size_t`. -/
inductive WriteCall where
  | byte (value : UInt8)
  | bytes (data : { data : Buffer // data.len < sizeModulus })
  | bool (value : Bool)
  | uint16 (value : UInt16)
  | uint32 (value : UInt32)
  | uint64 (value : UInt64)
  | int16 (value : Int16)
  | int32 (value : Int32)
  | int64 (value : Int64)
  | varInt (value : UInt64)
  | varBytes (data : { data : Buffer // data.len < sizeModulus })
  | varString (str : Option { text : CString // text.strlen < sizeModulus })

/-- Run a call. -/
def perform (alloc : Allocator) : WriteCall → Routine BinaryWriter Unit
  | .byte value => writeByte alloc value
  | .bytes data => writeBytes alloc data.val
  | .bool value => writeBool alloc value
  | .uint16 value => writeUint16 alloc value
  | .uint32 value => writeUint32 alloc value
  | .uint64 value => writeUint64 alloc value
  | .int16 value => writeInt16 alloc value
  | .int32 value => writeInt32 alloc value
  | .int64 value => writeInt64 alloc value
  | .varInt value => writeVarInt alloc value
  | .varBytes data => writeVarBytes alloc data.val
  | .varString str => writeVarString alloc (str.map Subtype.val)

/-- A number of variable length: one byte, or a marker and its payload. -/
def varIntParts (value : Nat) : List (List UInt8) :=
  if value < 0xFD then
    [VarInt.encode value]
  else
    [[VarInt.marker value], VarInt.payload value]

/-- No part is empty. -/
def contentParts (content : List UInt8) : List (List UInt8) :=
  if content = [] then [] else [content]

/-- The parts of a call, each of which is stored as a whole. -/
def WriteCall.parts : WriteCall → List (List UInt8)
  | .byte value => [[value]]
  | .bytes data => contentParts data.val.content
  | .bool value => [[if value then 1 else 0]]
  | .uint16 value => [LittleEndian.toBytes 2 value.toNat]
  | .uint32 value => [LittleEndian.toBytes 4 value.toNat]
  | .uint64 value => [LittleEndian.toBytes 8 value.toNat]
  | .int16 value => [LittleEndian.toBytes 2 value.toUInt16.toNat]
  | .int32 value => [LittleEndian.toBytes 4 value.toUInt32.toNat]
  | .int64 value => [LittleEndian.toBytes 8 value.toUInt64.toNat]
  | .varInt value => varIntParts value.toNat
  | .varBytes data =>
      varIntParts data.val.len ++ contentParts data.val.content
  | .varString none => varIntParts 0
  | .varString (some text) =>
      varIntParts text.val.strlen ++ contentParts text.val.characters

/-- The encoding of a call. -/
def WriteCall.encode (call : WriteCall) : List UInt8 :=
  call.parts.flatten

/-- One step of a run: a call and the allocator it meets. -/
abbrev Step := Allocator × WriteCall

/-- The writer after a call, whether it succeeded or not. -/
def next (writer : BinaryWriter) (step : Step) : BinaryWriter :=
  (perform step.1 step.2 writer).2

/-- The encodings of the calls that succeeded, one after another. -/
def succeeded : BinaryWriter → List Step → List UInt8 :=
  emitted
    (fun writer step =>
      if (perform step.1 step.2 writer).1.isOk then step.2.encode else [])
    next

/-! ## What is asked of a call, and when it holds -/

/-- What a caller relies on in a call that is to append some bytes. -/
structure Exact (call : Routine BinaryWriter Unit) (bytes : List UInt8)
    (writer : BinaryWriter) : Prop where
  position_le : (call writer).2.position ≤ (call writer).2.capacity
  succeeds :
    (call writer).1 = .ok () →
      (call writer).2.contents = writer.contents ++ bytes
  fails :
    ∀ reason,
      (call writer).1 = .error reason →
        (∃ code text, reason = .error code text) ∧
          (call writer).2.contents = writer.contents ∧
          (call writer).2.position = writer.position

/-- A doubling of the capacity, cut to a `size_t`, reaches the size. -/
def LoopEnds (capacity needed : Nat) : Prop :=
  ∃ doublings < 65,
    needed ≤ capacity * growthFactor ^ (doublings + 1) % sizeModulus

instance (capacity needed : Nat) : Decidable (LoopEnds capacity needed) :=
  inferInstanceAs (Decidable (∃ doublings, doublings < 65 ∧ _))

/-- The capacity once there is room up to a size. -/
def enlarged (alloc : Allocator) (autoGrow : Bool)
    (capacity needed : Nat) : Option Nat :=
  if needed ≤ capacity then
    some capacity
  else if autoGrow then
    (growCapacity 65 (capacity * growthFactor % sizeModulus) needed).filter
      alloc.grants
  else
    none

/-- Room is found for parts of these lengths, one after another. -/
def HasRoom (alloc : Allocator) (autoGrow : Bool) :
    (capacity position : Nat) → List Nat → Prop
  | _, _, [] => True
  | capacity, position, length :: rest =>
      ∃ capacity',
        enlarged alloc autoGrow capacity (position + length) =
            some capacity' ∧
          HasRoom alloc autoGrow capacity' (position + length) rest

/--
The loop for the first part ends, and if there is room for the first part
there is room for all.
-/
structure Fits (alloc : Allocator) (writer : BinaryWriter)
    (first : List UInt8) (parts : List (List UInt8)) : Prop where
  bounded : writer.position + first.length < sizeModulus
  ends :
    writer.capacity < writer.position + first.length →
      writer.autoGrow = true →
        LoopEnds writer.capacity (writer.position + first.length)
  whole :
    HasRoom alloc writer.autoGrow writer.capacity writer.position
        [first.length] →
      HasRoom alloc writer.autoGrow writer.capacity writer.position
        (parts.map List.length)

/-- The call cannot stop between its parts, nor in the loop for the first. -/
def Undivided (writer : BinaryWriter) (step : Step) : Prop :=
  ∀ first ∈ step.2.parts.head?, Fits step.1 writer first step.2.parts

/-! ## Calls are lists of parts -/

variable {alloc : Allocator}

/-- Make room for a part and store it. -/
def writePart (alloc : Allocator) (part : List UInt8) :
    Routine BinaryWriter Unit :=
  ensureCapacity alloc part.length >>= fun _ => store part

/-- Write parts one after another. -/
def writeParts (alloc : Allocator) (parts : List (List UInt8)) :
    Routine BinaryWriter Unit :=
  Call.forEach (writePart alloc) parts

theorem writeParts_singleton (part : List UInt8) :
    writeParts alloc [part] = writePart alloc part := by
  funext writer
  rcases ran : writePart alloc part writer with ⟨reason | ⟨⟩, written⟩
  · exact Call.bind_of_error ran
  · exact Call.bind_of_ok ran

theorem writeParts_pair (first second : List UInt8) :
    writeParts alloc [first, second] =
      writePart alloc first >>= fun _ => writePart alloc second := by
  rw [← writeParts_singleton second]
  rfl

theorem writeParts_append (front back : List (List UInt8)) :
    writeParts alloc (front ++ back) =
      writeParts alloc front >>= fun _ => writeParts alloc back := by
  induction front with
  | nil => rfl
  | cons part rest induction =>
      have unfolded (parts : List (List UInt8)) :
          writeParts alloc (part :: parts) =
            writePart alloc part >>= fun _ => writeParts alloc parts :=
        rfl
      rw [List.cons_append, unfolded, unfolded, induction, Call.bind_assoc]

theorem writeByte_eq (value : UInt8) :
    writeByte alloc value = writeParts alloc [[value]] :=
  (writeParts_singleton [value]).symm

theorem writeWord_eq (width value : Nat) :
    writeWord alloc width value =
      writePart alloc (LittleEndian.toBytes width value) := by
  rw [writeWord, writePart, LittleEndian.length_toBytes]

theorem writeVarInt_eq (value : UInt64) :
    writeVarInt alloc value = writeParts alloc (varIntParts value.toNat) := by
  have low : value < 0xFD ↔ value.toNat < 0xFD := UInt64.lt_iff_toNat_lt
  have middle : value ≤ 0xFFFF ↔ value.toNat ≤ 0xFFFF :=
    UInt64.le_iff_toNat_le
  have high : value ≤ 0xFFFFFFFF ↔ value.toNat ≤ 0xFFFFFFFF :=
    UInt64.le_iff_toNat_le
  simp only [writeVarInt, varIntParts, VarInt.encode, VarInt.marker,
    VarInt.payload, low, middle, high]
  split_ifs with one two four
  · have byte : LittleEndian.toBytes 1 value.toNat = [value.toUInt8] := by
      rw [LittleEndian.toBytes, Nat.mod_eq_of_lt (by omega),
        UInt8.ofNat_uInt64ToNat, LittleEndian.toBytes]
    rw [byte, writeParts_singleton]
    rfl
  · have same : value.toUInt16.toNat = value.toNat := by
      rw [UInt64.toNat_toUInt16]
      exact Nat.mod_eq_of_lt (Nat.lt_succ_of_le two)
    rw [writeParts_pair, writeUint16, same, writeWord_eq]
    rfl
  · have same : value.toUInt32.toNat = value.toNat := by
      rw [UInt64.toNat_toUInt32]
      exact Nat.mod_eq_of_lt (Nat.lt_succ_of_le four)
    rw [writeParts_pair, writeUint32, same, writeWord_eq]
    rfl
  · rw [writeParts_pair, writeUint64, writeWord_eq]
    rfl

theorem writeBytes_eq (content : List UInt8) :
    writeBytes alloc (.items content) =
      writeParts alloc (contentParts content) := by
  rw [writeBytes, contentParts]
  by_cases empty : content = []
  · rw [if_pos empty, empty]
    rfl
  · rw [if_neg empty, if_neg (by simpa using empty), writeParts_singleton]
    rfl

theorem writeVarBytes_eq (data : Buffer) (sized : data.len < sizeModulus) :
    writeVarBytes alloc data =
      writeParts alloc (varIntParts data.len ++ contentParts data.content) := by
  unfold writeVarBytes
  rw [writeVarInt_eq, toNat_ofNat_size sized, writeParts_append]
  cases data with
  | null count => rfl
  | items content =>
      by_cases empty : content = []
      · rw [empty]
        rfl
      · have some : content.length > 0 := List.length_pos_of_ne_nil empty
        simp only [some, if_true]
        rw [writeBytes_eq]
        rfl

/-- But for a `NULL` pointer, a call is the writing of its parts. -/
theorem perform_eq (call : WriteCall) :
    perform alloc call = writeParts alloc call.parts ∨
      call.parts = [] ∧
        perform alloc call =
          errorSet .invalidArgument "Invalid arguments" := by
  cases call with
  | byte value => exact .inl (writeByte_eq value)
  | bytes data =>
      rcases data with ⟨count | content, sized⟩
      · exact .inr ⟨rfl, rfl⟩
      · exact .inl (writeBytes_eq content)
  | bool value => exact .inl (writeByte_eq _)
  | uint16 value =>
      exact .inl ((writeWord_eq 2 _).trans (writeParts_singleton _).symm)
  | uint32 value =>
      exact .inl ((writeWord_eq 4 _).trans (writeParts_singleton _).symm)
  | uint64 value =>
      exact .inl ((writeWord_eq 8 _).trans (writeParts_singleton _).symm)
  | int16 value =>
      exact .inl ((writeWord_eq 2 _).trans (writeParts_singleton _).symm)
  | int32 value =>
      exact .inl ((writeWord_eq 4 _).trans (writeParts_singleton _).symm)
  | int64 value =>
      exact .inl ((writeWord_eq 8 _).trans (writeParts_singleton _).symm)
  | varInt value => exact .inl (writeVarInt_eq value)
  | varBytes data => exact .inl (writeVarBytes_eq data.val data.property)
  | varString str =>
      cases str with
      | none => exact .inl (writeVarInt_eq 0)
      | some text => exact .inl (writeVarBytes_eq _ text.property)

/-! ## One part -/

variable {writer written : BinaryWriter} {part : List UInt8}

/-- The loop ends exactly if some doubling reaches the size. -/
theorem growCapacity_isSome_iff {fuel capacity needed : Nat}
    (small : capacity < sizeModulus) :
    (growCapacity fuel capacity needed).isSome ↔
      ∃ doublings < fuel,
        needed ≤ capacity * growthFactor ^ doublings % sizeModulus := by
  induction fuel generalizing capacity with
  | zero => simp [growCapacity]
  | succ fuel induction =>
      have reduced : capacity * growthFactor % sizeModulus < sizeModulus :=
        Nat.mod_lt _ (by decide)
      have shifted (doublings : Nat) :
          capacity * growthFactor % sizeModulus * growthFactor ^ doublings %
              sizeModulus =
            capacity * growthFactor ^ (doublings + 1) % sizeModulus := by
        rw [Nat.mod_mul_mod, Nat.mul_assoc, ← Nat.pow_succ']
      rw [growCapacity]
      split_ifs with short
      · rw [induction reduced]
        constructor
        · rintro ⟨doublings, bound, reaches⟩
          rw [shifted] at reaches
          exact ⟨doublings + 1, Nat.succ_lt_succ bound, reaches⟩
        · rintro ⟨doublings, bound, reaches⟩
          cases doublings with
          | zero =>
              rw [Nat.pow_zero, Nat.mul_one, Nat.mod_eq_of_lt small] at reaches
              exact absurd reaches (Nat.not_le.mpr short)
          | succ doublings =>
              rw [← shifted] at reaches
              exact ⟨doublings, Nat.lt_of_succ_lt_succ bound, reaches⟩
      · refine iff_of_true rfl ⟨0, Nat.succ_pos fuel, ?_⟩
        rw [Nat.pow_zero, Nat.mul_one, Nat.mod_eq_of_lt small]
        exact Nat.le_of_not_lt short

theorem loopEnds_iff {capacity needed : Nat} :
    (growCapacity 65 (capacity * growthFactor % sizeModulus) needed).isSome ↔
      LoopEnds capacity needed := by
  rw [growCapacity_isSome_iff (Nat.mod_lt _ (by decide)), LoopEnds]
  simp only [Nat.mod_mul_mod, Nat.mul_assoc, ← Nat.pow_succ']

example : LoopEnds 16 0x8000000000000000 := ⟨58, by decide⟩

example : ¬ LoopEnds 16 0x8000000000000001 := by decide +kernel

theorem enlarged_bounds (wellFormed : writer.WellFormed)
    {needed capacity' : Nat}
    (room :
      enlarged alloc writer.autoGrow writer.capacity needed =
        some capacity') :
    needed ≤ capacity' ∧ capacity' ≤ ptrdiffMax := by
  rw [enlarged] at room
  split_ifs at room with fits grows
  · cases room
    exact ⟨fits, wellFormed.length_le⟩
  · rcases Option.filter_eq_some_iff.mp room with ⟨found, granted⟩
    exact ⟨growCapacity_ge found, alloc.grants_le _ granted⟩

/-- What making room does where the sum does not wrap. -/
theorem ensureCapacity_eq {length : Nat}
    (bounded : writer.position + length < sizeModulus) :
    (∃ grown,
        enlarged alloc writer.autoGrow writer.capacity
            (writer.position + length) = some grown.capacity ∧
          ensureCapacity alloc length writer = (.ok (), grown) ∧
          grown.position = writer.position) ∨
      enlarged alloc writer.autoGrow writer.capacity
          (writer.position + length) = none ∧
        ∃ reason,
          ensureCapacity alloc length writer = (.error reason, writer) ∧
            ((∃ code text, reason = .error code text) ↔
              (writer.capacity < writer.position + length →
                writer.autoGrow = true →
                  LoopEnds writer.capacity (writer.position + length))) := by
  unfold ensureCapacity
  simp only [sizeAdd_of_lt bounded]
  rw [enlarged]
  by_cases fits : writer.position + length ≤ writer.capacity
  · simp only [fits, if_true]
    exact .inl ⟨writer, rfl, rfl, rfl⟩
  · simp only [fits, if_false]
    cases grows : writer.autoGrow with
    | false =>
        refine .inr ⟨rfl, _, rfl, iff_of_true ⟨_, _, rfl⟩ ?_⟩
        intro _ absurdity
        cases absurdity
    | true =>
        have ends := @loopEnds_iff writer.capacity (writer.position + length)
        have beyond := Nat.lt_of_not_le fits
        cases found :
            growCapacity 65 (writer.capacity * growthFactor % sizeModulus)
              (writer.position + length) with
        | none =>
            rw [found] at ends
            refine .inr ⟨rfl, _, rfl, iff_of_false ?_ ?_⟩
            · rintro ⟨code, text, absurdity⟩
              cases absurdity
            · intro always
              cases ends.mpr (always beyond rfl)
        | some capacity' =>
            rw [found] at ends
            have stops := ends.mp rfl
            by_cases granted : alloc.grants capacity' = true
            · simp only [granted, if_true, Option.filter_some,
                Bool.true_eq_false, if_false]
              refine .inl
                ⟨{ writer with data := resize writer.data capacity' },
                  ?_, by rw [grows], rfl⟩
              rw [capacity, length_resize]
            · simp only [granted, if_false, Option.filter_some,
                Bool.true_eq_false, if_true]
              exact .inr
                ⟨rfl, _, rfl, iff_of_true ⟨_, _, rfl⟩ fun _ _ => stops⟩

theorem writePart_appends (part : List UInt8) :
    Appends (writePart alloc part) part :=
  (ensureCapacity_store_emits part rfl).appends

theorem store_of_le
    (fits : writer.position + part.length ≤ writer.capacity) :
    ∃ written,
      store part writer = (.ok (), written) ∧
        written.capacity = writer.capacity ∧
        written.position = writer.position + part.length := by
  refine ⟨_, if_pos fits, ?_, rfl⟩
  simp only [capacity, List.length_append, List.length_take,
    List.length_drop] at fits ⊢
  omega

theorem ensureCapacity_error {length : Nat} {reason : Halt}
    (failed :
      ensureCapacity alloc length writer = (.error reason, written)) :
    written = writer := by
  unfold ensureCapacity at failed
  dsimp only at failed
  split at failed
  · cases failed
  · split at failed
    · cases failed
      rfl
    · split at failed
      · cases failed
        rfl
      · split at failed
        · cases failed
        · cases failed
          rfl

/-- A part for which there is room is stored. -/
theorem writePart_of_room (wellFormed : writer.WellFormed) {capacity' : Nat}
    (room :
      enlarged alloc writer.autoGrow writer.capacity
        (writer.position + part.length) = some capacity') :
    ∃ written,
      writePart alloc part writer = (.ok (), written) ∧
        written.WellFormed ∧ written.autoGrow = writer.autoGrow ∧
        written.capacity = capacity' ∧
        written.position = writer.position + part.length := by
  rcases enlarged_bounds wellFormed room with ⟨enough, object⟩
  have bounded := lt_sizeModulus (enough.trans object)
  rcases @ensureCapacity_eq alloc writer part.length bounded with
    ⟨grown, found, made, same⟩ | ⟨none, -⟩
  · rw [room, Option.some.injEq] at found
    have fits : grown.position + part.length ≤ grown.capacity := by
      rw [same, ← found]
      exact enough
    rcases store_of_le fits with ⟨written, stored, length, position⟩
    have ran : writePart alloc part writer = (.ok (), written) :=
      (Call.bind_of_ok made).trans stored
    rcases writePart_appends part writer written wellFormed ran with
      ⟨wellFormed', grows, -⟩
    rw [← found] at length
    rw [same] at position
    exact ⟨written, ran, wellFormed', grows, length, position⟩
  · rw [none] at room
    cases room

/-- A part for which there is no room changes nothing. -/
theorem writePart_of_no_room
    (bounded : writer.position + part.length < sizeModulus)
    (full :
      enlarged alloc writer.autoGrow writer.capacity
        (writer.position + part.length) = none) :
    ∃ reason,
      writePart alloc part writer = (.error reason, writer) ∧
        ((∃ code text, reason = .error code text) ↔
          (writer.capacity < writer.position + part.length →
            writer.autoGrow = true →
              LoopEnds writer.capacity (writer.position + part.length))) := by
  rcases @ensureCapacity_eq alloc writer part.length bounded with
    ⟨grown, found, -⟩ | ⟨-, reason, refused, ends⟩
  · rw [full] at found
    cases found
  · exact ⟨reason, Call.bind_of_error refused, ends⟩

/-- A sum that wraps passes the check, and the store leaves the buffer. -/
theorem writePart_of_wrap (wellFormed : writer.WellFormed)
    (sized : part.length < sizeModulus)
    (wraps : sizeModulus ≤ writer.position + part.length) :
    writePart alloc part writer = (.error .illegalAccess, writer) := by
  have within := wellFormed.position_le
  have object := wellFormed.length_le
  have small : sizeAdd writer.position part.length ≤ writer.capacity := by
    simp only [sizeAdd, capacity, sizeModulus, ptrdiffMax] at *
    omega
  have made : ensureCapacity alloc part.length writer = (.ok (), writer) :=
    if_pos small
  have beyond : ¬ writer.position + part.length ≤ writer.capacity := by
    simp only [capacity, sizeModulus, ptrdiffMax] at *
    omega
  exact (Call.bind_of_ok made).trans (if_neg beyond)

/-- A part that is not stored does not move the position. -/
theorem writePart_of_error {reason : Halt} (wellFormed : writer.WellFormed)
    (failed : writePart alloc part writer = (.error reason, written)) :
    written.WellFormed ∧ written.position = writer.position := by
  rcases made : ensureCapacity alloc part.length writer with
    ⟨reason' | ⟨⟩, grown⟩
  · have halted := (Call.bind_of_error made).symm.trans failed
    cases halted
    rw [ensureCapacity_error made]
    exact ⟨wellFormed, rfl⟩
  · have stored : store part grown = (.error reason, written) :=
      (Call.bind_of_ok made).symm.trans failed
    rw [store] at stored
    split at stored
    · cases stored
    · cases stored
      rcases ensureCapacity_keeps wellFormed made with ⟨kept, -, same, -⟩
      exact ⟨kept, same⟩

/-! ## The parts of a call -/

theorem room_of_writePart (wellFormed : writer.WellFormed)
    (ran : writePart alloc part writer = (.ok (), written)) :
    enlarged alloc writer.autoGrow writer.capacity
        (writer.position + part.length) = some written.capacity := by
  have position := (writePart_appends part).position wellFormed ran
  have kept := ((writePart_appends part) writer written wellFormed ran).1
  have bounded : writer.position + part.length < sizeModulus := by
    rw [← position]
    exact lt_sizeModulus (kept.position_le.trans kept.length_le)
  cases room :
      enlarged alloc writer.autoGrow writer.capacity
        (writer.position + part.length) with
  | none =>
      rcases writePart_of_no_room bounded room with ⟨reason, refused, -⟩
      rw [refused] at ran
      cases ran
  | some capacity' =>
      rcases writePart_of_room wellFormed room with
        ⟨written', ran', -, -, same, -⟩
      rw [ran'] at ran
      cases ran
      rw [same]

/-- All parts are written exactly if there is room for all of them. -/
theorem writeParts_ok_iff {parts : List (List UInt8)}
    (wellFormed : writer.WellFormed) :
    (∃ written, writeParts alloc parts writer = (.ok (), written)) ↔
      HasRoom alloc writer.autoGrow writer.capacity writer.position
        (parts.map List.length) := by
  induction parts generalizing writer with
  | nil => exact iff_of_true ⟨writer, rfl⟩ trivial
  | cons part rest induction =>
      rw [List.map_cons, HasRoom]
      constructor
      · rintro ⟨written, ran⟩
        rcases Call.bind_eq_ok_iff.mp ran with ⟨⟨⟩, between, first, later⟩
        rcases (writePart_appends part) writer between wellFormed first with
          ⟨kept, grows, -⟩
        have behind := (induction kept).mp ⟨written, later⟩
        rw [grows, (writePart_appends part).position wellFormed first]
          at behind
        exact ⟨between.capacity, room_of_writePart wellFormed first, behind⟩
      · rintro ⟨capacity', room, behind⟩
        rcases writePart_of_room wellFormed room with
          ⟨between, first, kept, grows, same, position⟩
        rw [← grows, ← same, ← position] at behind
        rcases (induction kept).mpr behind with ⟨written, later⟩
        exact ⟨written, Call.bind_eq_ok_iff.mpr ⟨(), between, first, later⟩⟩

theorem writeParts_appends (parts : List (List UInt8)) :
    Appends (writeParts alloc parts) parts.flatten := by
  have each :
      Appends (writeParts alloc parts) (parts.flatMap fun part => part) :=
    appends_forEach fun part _ => writePart_appends part
  rwa [List.flatMap_id'] at each

theorem nonempty_of_mem_contentParts {content : List UInt8}
    (member : part ∈ contentParts content) : part = content ∧ part ≠ [] := by
  rw [contentParts] at member
  split_ifs at member with empty
  · cases member
  · rw [List.mem_singleton.mp member]
    exact ⟨rfl, empty⟩

theorem length_payload {value : Nat} (large : ¬ value < 0xFD) :
    0 < (VarInt.payload value).length ∧
      (VarInt.payload value).length < sizeModulus := by
  rw [VarInt.payload, LittleEndian.length_toBytes, VarInt.marker,
    if_neg large]
  split_ifs <;> decide

theorem bounded_of_mem_varIntParts {value : Nat}
    (member : part ∈ varIntParts value) :
    part ≠ [] ∧ part.length < sizeModulus := by
  rw [varIntParts] at member
  split_ifs at member with small
  · rw [List.mem_singleton.mp member]
    have length := VarInt.length_encode value
    rw [if_pos small] at length
    exact ⟨List.ne_nil_of_length_pos (by omega), by rw [length]; decide⟩
  · rcases List.mem_cons.mp member with rfl | member
    · exact ⟨List.cons_ne_nil _ _, show 1 < sizeModulus by decide⟩
    · rw [List.mem_singleton.mp member]
      rcases length_payload small with ⟨some, bounded⟩
      exact ⟨List.ne_nil_of_length_pos some, bounded⟩

theorem bounded_of_mem_singleton {width value : Nat} (some : 0 < width)
    (small : width ≤ 8)
    (member : part ∈ [LittleEndian.toBytes width value]) :
    part ≠ [] ∧ part.length < sizeModulus := by
  have length := LittleEndian.length_toBytes width value
  rw [List.mem_singleton.mp member]
  refine ⟨List.ne_nil_of_length_pos (by omega), ?_⟩
  rw [length]
  exact Nat.lt_of_le_of_lt small (by decide)

theorem bounded_of_mem_counted {content : List UInt8} {count : Nat}
    (sized : content.length < sizeModulus)
    (member : part ∈ varIntParts count ++ contentParts content) :
    part ≠ [] ∧ part.length < sizeModulus := by
  rcases List.mem_append.mp member with member | member
  · exact bounded_of_mem_varIntParts member
  · rcases nonempty_of_mem_contentParts member with ⟨rfl, some⟩
    exact ⟨some, sized⟩

theorem length_content_lt {data : Buffer} (sized : data.len < sizeModulus) :
    data.content.length < sizeModulus := by
  cases data with
  | null count => exact show 0 < sizeModulus by decide
  | items content => exact sized

/-- A part is not empty, and its length is a `size_t`. -/
theorem WriteCall.bounded_of_mem_parts {call : WriteCall}
    (member : part ∈ call.parts) :
    part ≠ [] ∧ part.length < sizeModulus := by
  have single (byte : UInt8) (member : part ∈ [[byte]]) :
      part ≠ [] ∧ part.length < sizeModulus := by
    rw [List.mem_singleton.mp member]
    exact ⟨List.cons_ne_nil _ _, show 1 < sizeModulus by decide⟩
  cases call with
  | byte value => exact single value member
  | bytes data =>
      rcases nonempty_of_mem_contentParts member with ⟨rfl, some⟩
      exact ⟨some, length_content_lt data.property⟩
  | bool value => exact single _ member
  | uint16 value =>
      exact bounded_of_mem_singleton (by decide) (by decide) member
  | uint32 value =>
      exact bounded_of_mem_singleton (by decide) (by decide) member
  | uint64 value =>
      exact bounded_of_mem_singleton (by decide) (by decide) member
  | int16 value =>
      exact bounded_of_mem_singleton (by decide) (by decide) member
  | int32 value =>
      exact bounded_of_mem_singleton (by decide) (by decide) member
  | int64 value =>
      exact bounded_of_mem_singleton (by decide) (by decide) member
  | varInt value => exact bounded_of_mem_varIntParts member
  | varBytes data =>
      exact bounded_of_mem_counted (length_content_lt data.property) member
  | varString str =>
      cases str with
      | none => exact bounded_of_mem_varIntParts member
      | some text => exact bounded_of_mem_counted text.property member

/-! ## One call -/

/-- A series of parts that stopped behind some of them has moved past these. -/
theorem writeParts_of_error {parts : List (List UInt8)} {reason : Halt}
    (wellFormed : writer.WellFormed)
    (failed : writeParts alloc parts writer = (.error reason, written)) :
    written.WellFormed ∧
      ∃ done part rest between,
        parts = done ++ part :: rest ∧
          writeParts alloc done writer = (.ok (), between) ∧
          writePart alloc part between = (.error reason, written) ∧
          written.position = writer.position + done.flatten.length := by
  rcases Call.forEach_eq_error failed with
    ⟨done, part, rest, between, rfl, ran, halts⟩
  have appends := @writeParts_appends alloc done
  rcases appends writer between wellFormed ran with ⟨kept, -, -⟩
  rcases writePart_of_error kept halts with ⟨kept', same⟩
  refine ⟨kept', done, part, rest, between, rfl, ran, halts, ?_⟩
  rw [same, appends.position wellFormed ran]

/-- The form of a writer is kept, even by a series that stops. -/
theorem wellFormed_writeParts (wellFormed : writer.WellFormed)
    (parts : List (List UInt8)) :
    (writeParts alloc parts writer).2.WellFormed := by
  rcases ran : writeParts alloc parts writer with ⟨reason | ⟨⟩, written⟩
  · exact (writeParts_of_error wellFormed ran).1
  · exact (writeParts_appends parts writer written wellFormed ran).1

theorem exact_of_fits {first : List UInt8} {rest : List (List UInt8)}
    (wellFormed : writer.WellFormed)
    (fits : Fits alloc writer first (first :: rest)) :
    Exact (writeParts alloc (first :: rest)) (first :: rest).flatten
      writer := by
  refine ⟨(wellFormed_writeParts wellFormed _).position_le, ?_, ?_⟩
  · intro ran
    exact (writeParts_appends _ writer _ wellFormed (Prod.ext ran rfl)).2.2
  · intro reason failed
    cases room :
        enlarged alloc writer.autoGrow writer.capacity
          (writer.position + first.length) with
    | some capacity' =>
        rcases (writeParts_ok_iff wellFormed).mpr
            (fits.whole ⟨capacity', room, trivial⟩) with ⟨written, ran⟩
        rw [ran] at failed
        cases failed
    | none =>
        rcases writePart_of_no_room fits.bounded room with
          ⟨reason', refused, ends⟩
        have ran :
            writeParts alloc (first :: rest) writer =
              (.error reason', writer) :=
          Call.bind_of_error refused
        rw [ran] at failed ⊢
        cases failed
        exact ⟨ends.mpr fits.ends, rfl, rfl⟩

theorem fits_of_exact {first : List UInt8} {rest : List (List UInt8)}
    (wellFormed : writer.WellFormed) (some : first ≠ [])
    (sized : first.length < sizeModulus)
    (exact :
      Exact (writeParts alloc (first :: rest)) (first :: rest).flatten
        writer) :
    Fits alloc writer first (first :: rest) := by
  have coded {reason : Halt}
      (refused : writePart alloc first writer = (.error reason, writer)) :
      ∃ code text, reason = .error code text := by
    have ran :
        writeParts alloc (first :: rest) writer = (.error reason, writer) :=
      Call.bind_of_error refused
    exact (exact.fails reason (by rw [ran])).1
  have bounded : writer.position + first.length < sizeModulus := by
    apply Nat.lt_of_not_le
    intro wraps
    rcases coded (writePart_of_wrap wellFormed sized wraps) with
      ⟨code, text, absurdity⟩
    cases absurdity
  refine ⟨bounded, ?_, ?_⟩
  · intro beyond grows
    by_contra never
    have room :
        enlarged alloc writer.autoGrow writer.capacity
          (writer.position + first.length) = none := by
      rw [enlarged, if_neg (Nat.not_le.mpr beyond), if_pos grows,
        Option.not_isSome_iff_eq_none.mp (never ∘ loopEnds_iff.mp),
        Option.filter_none]
    rcases writePart_of_no_room bounded room with ⟨reason, refused, ends⟩
    exact never (ends.mp (coded refused) beyond grows)
  · rintro ⟨capacity', room, -⟩
    rw [← writeParts_ok_iff wellFormed]
    rcases ran : writeParts alloc (first :: rest) writer with
      ⟨reason | ⟨⟩, written⟩
    · -- the first part was written, so the position has moved
      have still := (exact.fails reason (by rw [ran])).2.2
      rw [ran] at still
      have unmoved : written.position = writer.position := still
      rcases writeParts_of_error wellFormed ran with
        ⟨-, done, part, others, between, whole, before, halts, position⟩
      cases done with
      | nil =>
          rw [List.nil_append, List.cons.injEq] at whole
          cases before
          rcases writePart_of_room wellFormed room with ⟨_, wrote, -⟩
          rw [whole.1, halts] at wrote
          cases wrote
      | cons part' done =>
          rw [List.cons_append, List.cons.injEq] at whole
          rw [← whole.1, List.flatten_cons, List.length_append] at position
          have moves := List.length_pos_of_ne_nil some
          omega
    · exact ⟨written, rfl⟩

theorem wellFormed_next (wellFormed : writer.WellFormed) (step : Step) :
    (next writer step).WellFormed := by
  rw [next]
  rcases @perform_eq step.1 step.2 with parts | ⟨-, refused⟩
  · rw [parts]
    exact wellFormed_writeParts wellFormed _
  · rw [refused]
    exact wellFormed

/-- A call is exact precisely if it is not divided. -/
theorem exact_iff_undivided (wellFormed : writer.WellFormed) (step : Step) :
    Exact (perform step.1 step.2) step.2.encode writer ↔
      Undivided writer step := by
  rw [Undivided, WriteCall.encode]
  have bounded := @WriteCall.bounded_of_mem_parts
  rcases @perform_eq step.1 step.2 with parts | ⟨none, refused⟩
  · rw [parts]
    cases found : step.2.parts with
    | nil =>
        refine iff_of_true ⟨wellFormed.position_le, ?_, ?_⟩ ?_
        · intro _
          exact (List.append_nil _).symm
        · intro reason absurdity
          cases absurdity
        · intro first absurdity
          cases absurdity
    | cons first rest =>
        have member : first ∈ step.2.parts := by
          rw [found]
          exact List.mem_cons_self
        rcases bounded member with ⟨some, sized⟩
        constructor
        · intro exact
          rintro _ ⟨⟩
          exact fits_of_exact wellFormed some sized exact
        · intro undivided
          exact exact_of_fits wellFormed (undivided first rfl)
  · rw [none, refused]
    refine iff_of_true ⟨wellFormed.position_le, ?_, ?_⟩ ?_
    · intro absurdity
      cases absurdity
    · intro reason same
      cases same
      exact ⟨⟨_, _, rfl⟩, rfl, rfl⟩
    · intro first absurdity
      cases absurdity

/-! ## A whole run -/

/--
The position stays in the buffer and a failed call changes nothing, at every
step; and behind every front of the run the contents are the encodings of the
calls that succeeded.
-/
structure RunsExactly (writer : BinaryWriter) (steps : List Step) : Prop where
  calls :
    Along next
      (fun writer step => Exact (perform step.1 step.2) step.2.encode writer)
      writer steps
  contents :
    ∀ front rest,
      steps = front ++ rest →
        (finalState next writer front).contents =
          writer.contents ++ succeeded writer front

theorem contents_of_exact {steps : List Step}
    (calls :
      Along next
        (fun writer step =>
          Exact (perform step.1 step.2) step.2.encode writer)
        writer steps) :
    (finalState next writer steps).contents =
      writer.contents ++ succeeded writer steps := by
  induction steps generalizing writer with
  | nil => exact (List.append_nil _).symm
  | cons step rest induction =>
      rcases calls with ⟨exact, later⟩
      have behind := induction later
      rw [finalState, behind, succeeded, emitted, ← succeeded,
        ← List.append_assoc]
      congr 1
      rcases ran : (perform step.1 step.2 writer).1 with reason | ⟨⟩
      · rw [if_neg (by simp [Except.isOk, Except.toBool]), List.append_nil]
        exact (exact.fails reason ran).2.1
      · exact exact.succeeds ran

/--
From its creation on, a writer runs exactly precisely as long as its calls are
undivided.
-/
theorem runsExactly_iff_undivided
    (alloc : Allocator)
    (initialCapacity : Nat)
    (autoGrow : Bool)
    (writer : BinaryWriter)
    (created : create alloc initialCapacity autoGrow = .ok writer)
    (steps : List Step) :
    RunsExactly writer steps ↔ Along next Undivided writer steps := by
  have wellFormed := (create_eq_ok created).1
  have exact :=
    along_iff_of_invariant WellFormed
      (fun writer step held _ => wellFormed_next held step)
      (fun writer step held => exact_iff_undivided held step)
      wellFormed steps
  constructor
  · intro runs
    exact exact.mp runs.calls
  · intro undivided
    refine ⟨exact.mpr undivided, ?_⟩
    rintro front rest rfl
    exact contents_of_exact (along_of_append (exact.mpr undivided))

/-- A new writer of the least capacity. -/
def fresh (autoGrow : Bool) : BinaryWriter where
  data := List.replicate 16 0
  position := 0
  autoGrow

/-- Fifteen bytes, and a string behind them for which the buffer has to grow. -/
def growing : List Step :=
  [(.ample, .bytes ⟨.items (List.replicate 15 1), by decide⟩),
    (.ample, .varString (some ⟨CString.ofString "neo", by decide⟩))]
theorem runsExactly_iff_undivided_growing :
    RunsExactly (fresh true) growing := by
  refine
    (runsExactly_iff_undivided .ample 0 true (fresh true) rfl growing).mpr
      ⟨?_, ?_, trivial⟩
  · rintro first ⟨⟩
    refine ⟨by decide, ?_, ?_⟩
    · intro full; exact absurd full (by decide)
    · exact id
  · rintro first ⟨⟩
    refine ⟨by decide, ?_, ?_⟩
    · intro full
      exact absurd full (by decide)
    · intro _
      exact ⟨16, rfl, 32, rfl, trivial⟩

/-- Fifteen bytes, and a number of which only the marker fits behind them. -/
def dividing : List Step :=
  [(.ample, .bytes ⟨.items (List.replicate 15 0), by decide⟩),
    (.ample, .varInt 0xFD)]

/-- The marker stays where the payload finds no room. -/
theorem writer_keeps_marker :
    ¬ ∀ (alloc : Allocator) (initialCapacity : Nat) (autoGrow : Bool)
        (writer : BinaryWriter),
      create alloc initialCapacity autoGrow = .ok writer →
        ∀ steps : List Step, RunsExactly writer steps := by
  intro always
  have runs := always .ample 0 false (fresh false) rfl dividing
  have failed := (runs.calls.2.1.fails
    (.error .bufferOverflow "Binary writer buffer overflow") rfl).2.2
  exact absurd failed (by decide +kernel)

end NeoC.BinaryWriter
