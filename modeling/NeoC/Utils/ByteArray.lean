import NeoC.Runtime.Cells
import NeoC.Runtime.HexReverse
import NeoC.Serialization.WriterHistory

/-!
# Byte arrays

A `neoc_byte_array_t` has a capacity and a length, and the length says how
many of its bytes count.  A new array has length zero; most operations fill it
by appending, which moves the length, and two of them write through the
pointer to its data.  Copying from data sets the length afterwards; reading
hexadecimal text and padding do not.
-/

namespace NeoC

open Foundation

/-- A `neoc_byte_array_t`. -/
structure NeocByteArray where
  data : Cells UInt8
  length : Nat
  capacity : Nat
deriving DecidableEq, Repr

namespace NeocByteArray

/-! ## Creating and appending -/

/-- `sizeof(neoc_byte_array_t)`. -/
def structSize : Nat := 24

/-- `DEFAULT_BYTE_ARRAY_CAPACITY`. -/
def defaultCapacity : Nat := 64

/-- The capacity of a new array. -/
def startCapacity (initialCapacity : Nat) : Nat :=
  if initialCapacity > 0 then initialCapacity else defaultCapacity

/-- `neoc_byte_array_create`. -/
def create (alloc : Allocator) (initialCapacity : Nat) :
    Outcome NeocByteArray :=
  if alloc.neocGrants structSize = false then
    .error (.error .outOfMemory "")
  else if alloc.neocGrants (startCapacity initialCapacity) = false then
    .error (.error .outOfMemory "")
  else
    .ok
      { data := Cells.fresh (startCapacity initialCapacity)
        length := 0
        capacity := startCapacity initialCapacity }

/--
`neoc_byte_array_from_data`.  The data are the cells behind the pointer, or
`none` for `NULL`.
-/
def fromData (alloc : Allocator) (data : Option (Cells UInt8))
    (length : Nat) : Outcome NeocByteArray :=
  match data with
  | none =>
      if length > 0 then
        .error (.error .invalidArgument "")
      else
        create alloc length
  | some data => do
      let array ← create alloc length
      if length > 0 then
        let source ← data.read 0 length
        let stored ← array.data.store 0 source
        .ok { array with data := stored, length }
      else
        .ok array

/-- `neoc_byte_array_resize`. -/
def resize (alloc : Allocator) (array : NeocByteArray)
    (newCapacity : Nat) : Outcome NeocByteArray :=
  if alloc.neocGrants newCapacity = false then
    .error (.error .outOfMemory "")
  else
    .ok
      { array with
        data := array.data.realloc newCapacity
        capacity := newCapacity }

/--
`while (new_capacity < required_capacity) new_capacity *= 2;` and what
follows it.
-/
def makeRoom (alloc : Allocator) (array : NeocByteArray)
    (required : Nat) : Outcome NeocByteArray :=
  if required > array.capacity then
    match BinaryWriter.growCapacity 65 array.capacity required with
    | none => .error .divergence
    | some newCapacity => resize alloc array newCapacity
  else
    .ok array

/-- The bytes are copied, and the length moves behind them. -/
def copyBehind (array : NeocByteArray) (data : Cells UInt8)
    (length : Nat) : Outcome NeocByteArray := do
  let source ← data.read 0 length
  let stored ← array.data.store array.length source
  .ok
    { array with
      data := stored
      length := sizeAdd array.length length }

/-- `neoc_byte_array_append_bytes`: the array afterwards. -/
def appendBytes (alloc : Allocator) (array : NeocByteArray)
    (data : Option (Cells UInt8)) (length : Nat) :
    Outcome NeocByteArray :=
  match data with
  | none =>
      if length > 0 then
        .error (.error .invalidArgument "")
      else
        .ok array
  | some data =>
      if length = 0 then
        .ok array
      else do
        let room ← makeRoom alloc array (sizeAdd array.length length)
        copyBehind room data length

/-- `neoc_byte_array_append_byte`. -/
def appendByte (alloc : Allocator) (array : NeocByteArray)
    (byte : UInt8) : Outcome NeocByteArray :=
  appendBytes alloc array (some (Cells.written [byte])) 1

/-- `if (length > 0)` the bytes of another array are appended. -/
def appendArray (alloc : Allocator) (result array : NeocByteArray) :
    Outcome NeocByteArray :=
  if array.length > 0 then
    appendBytes alloc result (some array.data) array.length
  else
    .ok result

/-! ## New arrays from old ones -/

/-- A pointer to an array, which may be `NULL`. -/
def given (array : Option NeocByteArray) : Outcome NeocByteArray :=
  match array with
  | none => .error (.error .invalidArgument "")
  | some array => .ok array

/-- `neoc_byte_array_concat`. -/
def concat (alloc : Allocator) (left right : Option NeocByteArray) :
    Outcome NeocByteArray := do
  let left ← given left
  let right ← given right
  let result ← create alloc (sizeAdd left.length right.length)
  let result ← appendArray alloc result left
  appendArray alloc result right

/-- `neoc_byte_array_concat_byte`. -/
def concatByte (alloc : Allocator) (array : Option NeocByteArray)
    (byte : UInt8) : Outcome NeocByteArray := do
  let array ← given array
  let result ← create alloc (sizeAdd array.length 1)
  let result ← appendArray alloc result array
  appendByte alloc result byte

/-- `neoc_byte_array_prepend_byte`. -/
def prependByte (alloc : Allocator) (byte : UInt8)
    (array : Option NeocByteArray) : Outcome NeocByteArray := do
  let array ← given array
  let result ← create alloc (sizeAdd 1 array.length)
  let result ← appendByte alloc result byte
  appendArray alloc result array

/-- `neoc_byte_array_slice`. -/
def slice (alloc : Allocator) (array : Option NeocByteArray)
    (start stop : Nat) : Outcome NeocByteArray := do
  let array ← given array
  if start > stop ∨ stop > array.length then
    .error (.error .invalidArgument "")
  else
    let result ← create alloc (stop - start)
    if stop - start > 0 then
      appendBytes alloc result (some (array.data.drop start)) (stop - start)
    else
      .ok result

/-- `neoc_byte_array_pad`. -/
def pad (alloc : Allocator) (array : Option NeocByteArray)
    (targetLength : Nat) (padValue : UInt8) (padLeft : Bool) :
    Outcome NeocByteArray := do
  let array ← given array
  if targetLength ≤ array.length then
    fromData alloc (some array.data) array.length
  else
    let result ← create alloc targetLength
    let padCount := targetLength - array.length
    let filler := Cells.written (List.replicate padCount padValue)
    let source ← array.data.read 0 array.length
    if padLeft then
      let data ← result.data.store 0 filler
      let data ← data.store padCount source
      .ok { result with data }
    else
      let data ← result.data.store 0 source
      let data ← data.store array.length filler
      .ok { result with data }

/-! ## Hexadecimal text -/

/-- The loop of `neoc_byte_array_from_hex_string`. -/
def readPairs : (hex : List UInt8) → (i : Nat) → (data : Cells UInt8) →
    Outcome (Cells UInt8)
  | high :: low :: rest, i, data =>
      match Hex.charToValue high, Hex.charToValue low with
      | some highVal, some lowVal => do
          let data ←
            data.store i
              (Cells.written [UInt8.ofNat (highVal * 16 + lowVal)])
          readPairs rest (i + 1) data
      | _, _ => .error (.error .invalidHex "")
  | _, _, data => .ok data

/-- `neoc_byte_array_from_hex_string`. -/
def fromHexString (alloc : Allocator) (hexString : Option CString) :
    Outcome NeocByteArray :=
  match hexString with
  | none => .error (.error .invalidArgument "")
  | some hexString =>
      let cleanHex := Hex.skipMark hexString.characters
      if cleanHex.length = 0 then
        create alloc 0
      else if cleanHex.length % 2 ≠ 0 then
        .error (.error .invalidFormat "")
      else if cleanHex.all Hex.isValidChar = false then
        .error (.error .invalidHex "")
      else do
        let result ← create alloc (cleanHex.length / 2)
        let data ← readPairs cleanHex 0 result.data
        .ok { result with data }

/-- The loop of `neoc_byte_array_to_hex_string`. -/
def writePairs (data : Cells UInt8) (uppercase : Bool) :
    (turns i pos : Nat) → (text : Cells UInt8) → Outcome (Cells UInt8)
  | 0, _, _, text => .ok text
  | turns + 1, i, pos, text => do
      let cell ← data.read i 1
      let bytes ← cell.load
      -- `sprintf` ends what it writes with a NUL
      let text ←
        text.store pos
          (Cells.written (bytes.flatMap (Hex.digits uppercase) ++ [0]))
      writePairs data uppercase turns (i + 1) (pos + 2) text

/-- The size of the text, with its NUL. -/
def hexSize (length : Nat) (withPrefix : Bool) : Nat :=
  ((if withPrefix then 2 else 0) + length * 2 + 1) % sizeModulus

/-- `neoc_byte_array_to_hex_string`; `none` is `NULL`. -/
def toHexString (alloc : Allocator) (array : Option NeocByteArray)
    (uppercase withPrefix : Bool) : Outcome (Option (Cells UInt8)) :=
  match array with
  | none => .ok none
  | some array =>
      if alloc.neocGrants (hexSize array.length withPrefix) = false then
        .ok none
      else do
        let text := Cells.fresh (hexSize array.length withPrefix)
        let text ←
          if withPrefix then
            text.store 0 (Cells.written [0x30, 0x78, 0])
          else
            .ok text
        let start := if withPrefix then 2 else 0
        let text ←
          writePairs array.data uppercase array.length 0 start text
        let text ←
          text.store (start + 2 * array.length) (Cells.written [0])
        .ok (some text)

/-- The text of an array is read back. -/
def throughHex (writer reader : Allocator) (array : Option NeocByteArray)
    (uppercase withPrefix : Bool) : Outcome NeocByteArray := do
  match ← toHexString writer array uppercase withPrefix with
  | none => fromHexString reader none
  | some text =>
      let characters ← text.readString
      fromHexString reader (some (CString.ofBuffer characters))

/-! ## Arrays by their bytes -/

/-- The array with some bytes in front of cells that do not count. -/
def filled (content : List UInt8) (stale : Cells UInt8) : NeocByteArray where
  data := Cells.written content ++ stale
  length := content.length
  capacity := content.length + stale.length

/-- The bytes that count. -/
def contents (array : NeocByteArray) : List UInt8 :=
  (array.data.take array.length).reduceOption

/-- The bytes that count have been written, and there is room for them. -/
def WellFormed (array : NeocByteArray) : Prop :=
  ∃ content stale,
    array = filled content stale ∧ array.capacity ≤ ptrdiffMax

variable {alloc : Allocator} {content bytes : List UInt8}
variable {stale : Cells UInt8}

@[simp]
theorem contents_filled (content : List UInt8) (stale : Cells UInt8) :
    (filled content stale).contents = content := by
  have front :
      (Cells.written content ++ stale).take content.length =
        Cells.written content := by
    rw [List.take_left' (Cells.length_written content)]
  rw [contents, filled, front]
  change (content.map some).filterMap id = content
  rw [List.filterMap_map]
  exact List.filterMap_some

theorem filled_eq {capacity : Nat} {data : Cells UInt8}
    (dataSame : data = Cells.written content ++ stale)
    (capacitySame : capacity = content.length + stale.length) :
    ({ data, length := content.length, capacity } : NeocByteArray) =
      filled content stale := by
  rw [dataSame, capacitySame, filled]

/-- A new array of some capacity is refused for lack of memory. -/
def Refuses (alloc : Allocator) (initialCapacity : Nat) : Prop :=
  alloc.neocGrants structSize = false ∨
    alloc.neocGrants (startCapacity initialCapacity) = false

instance (alloc : Allocator) (initialCapacity : Nat) :
    Decidable (Refuses alloc initialCapacity) :=
  inferInstanceAs (Decidable (_ ∨ _))

theorem le_startCapacity (initialCapacity : Nat) :
    initialCapacity ≤ startCapacity initialCapacity := by
  rw [startCapacity]
  split
  · exact le_rfl
  · omega

/-- Every way a creation can end. -/
theorem create_cases (alloc : Allocator) (initialCapacity : Nat) :
    Refuses alloc initialCapacity ∧
        create alloc initialCapacity = .error (.error .outOfMemory "") ∨
      ¬ Refuses alloc initialCapacity ∧
        startCapacity initialCapacity ≤ ptrdiffMax ∧
        create alloc initialCapacity =
          .ok (filled [] (Cells.fresh (startCapacity initialCapacity))) := by
  rw [create, Refuses]
  split
  · rename_i refused
    exact .inl ⟨.inl refused, rfl⟩
  rename_i struct
  split
  · rename_i refused
    exact .inl ⟨.inr refused, rfl⟩
  rename_i granted
  refine .inr ⟨not_or.mpr ⟨struct, granted⟩, ?_, ?_⟩
  · rw [Bool.not_eq_false, Allocator.neocGrants, Bool.and_eq_true]
      at granted
    exact alloc.grants_le _ granted.2
  · rw [filled, Cells.length_fresh, List.length_nil, Nat.zero_add]
    rfl

/-- A pointer to bytes with something behind them. -/
theorem read_behind (bytes : List UInt8) (behind : Cells UInt8) :
    (Cells.written bytes ++ behind).read 0 bytes.length =
      .ok (Cells.written bytes) := by
  have found := Cells.read_append [] (Cells.written bytes) behind
  rwa [Cells.length_written] at found

theorem copyBehind_filled (behind : Cells UInt8)
    (room : bytes.length ≤ stale.length)
    (small : content.length + stale.length ≤ ptrdiffMax) :
    copyBehind (filled content stale) (Cells.written bytes ++ behind)
        bytes.length =
      .ok (filled (content ++ bytes) (stale.drop bytes.length)) := by
  have sum :
      sizeAdd content.length bytes.length =
        (content ++ bytes).length := by
    rw [List.length_append]
    apply sizeAdd_of_lt
    exact lt_sizeModulus (by omega)
  refine (Except.bind_of_ok (read_behind bytes behind) _).trans ?_
  refine (Except.bind_of_ok (Cells.store_behind content bytes room) _).trans ?_
  rw [show (filled content stale).length = content.length from rfl, sum]
  congr 1
  refine filled_eq rfl ?_
  rw [List.length_drop, List.length_append]
  change content.length + stale.length = _
  omega

/-- Where there is room, bytes are appended. -/
theorem appendBytes_filled (behind : Cells UInt8)
    (room : bytes.length ≤ stale.length)
    (small : content.length + stale.length ≤ ptrdiffMax) :
    appendBytes alloc (filled content stale)
        (some (Cells.written bytes ++ behind)) bytes.length =
      .ok (filled (content ++ bytes) (stale.drop bytes.length)) := by
  rw [appendBytes]
  split
  · rename_i empty
    rw [List.length_eq_zero_iff.mp empty, List.append_nil]
    rfl
  · have enough :
        makeRoom alloc (filled content stale)
            (sizeAdd (filled content stale).length bytes.length) =
          .ok (filled content stale) := by
      rw [makeRoom, if_neg]
      change ¬ sizeAdd content.length bytes.length >
        content.length + stale.length
      rw [sizeAdd_of_lt (lt_sizeModulus (by omega))]
      omega
    refine (Except.bind_of_ok enough _).trans ?_
    exact copyBehind_filled behind room small

theorem appendByte_filled (byte : UInt8) (room : 1 ≤ stale.length)
    (small : content.length + stale.length ≤ ptrdiffMax) :
    appendByte alloc (filled content stale) byte =
      .ok (filled (content ++ [byte]) (stale.drop 1)) := by
  have appended :=
    @appendBytes_filled alloc content [byte] stale [] room small
  rwa [List.append_nil] at appended

theorem appendArray_filled (behind : Cells UInt8)
    (room : bytes.length ≤ stale.length)
    (small : content.length + stale.length ≤ ptrdiffMax) :
    appendArray alloc (filled content stale) (filled bytes behind) =
      .ok (filled (content ++ bytes) (stale.drop bytes.length)) := by
  rw [appendArray]
  split
  · exact appendBytes_filled behind room small
  · rename_i none
    have empty : bytes = [] :=
      List.length_eq_zero_iff.mp (Nat.le_zero.mp (Nat.not_lt.mp none))
    rw [empty, List.append_nil]
    rfl

/-- The doubling of a capacity reaches a size. -/
def RoomEnds (capacity required : Nat) : Prop :=
  ∃ doublings < 65,
    required ≤ capacity * BinaryWriter.growthFactor ^ doublings % sizeModulus

instance (capacity required : Nat) : Decidable (RoomEnds capacity required) :=
  inferInstanceAs (Decidable (∃ doublings, doublings < 65 ∧ _))

/-- The capacity is too small, and a larger one is refused. -/
def GrowthRefused (alloc : Allocator) (capacity required : Nat) : Prop :=
  capacity < required ∧
    ∃ newCapacity,
      BinaryWriter.growCapacity 65 capacity required = some newCapacity ∧
        alloc.neocGrants newCapacity = false

/-- A granted growth keeps the content and adds cells behind it. -/
theorem resize_filled {newCapacity : Nat}
    (granted : ¬ alloc.neocGrants newCapacity = false)
    (large : content.length + stale.length ≤ newCapacity) :
    newCapacity ≤ ptrdiffMax ∧
      resize alloc (filled content stale) newCapacity =
        .ok
          (filled content
            (stale ++
              Cells.fresh
                (newCapacity - (content.length + stale.length)))) := by
  constructor
  · rw [Bool.not_eq_false, Allocator.neocGrants, Bool.and_eq_true]
      at granted
    exact alloc.grants_le _ granted.2
  rw [resize, if_neg granted]
  refine congrArg Except.ok (filled_eq ?_ ?_)
  · rw [filled, Cells.realloc, List.length_append, Cells.length_written,
      List.take_of_length_le, List.append_assoc]
    rw [List.length_append, Cells.length_written]
    omega
  · rw [List.length_append, Cells.length_fresh]
    omega

/-- Every way an appending can end. -/
theorem appendBytes_cases (alloc : Allocator) (behind : Cells UInt8)
    (small : content.length + stale.length ≤ ptrdiffMax)
    (bytesSmall : bytes.length ≤ ptrdiffMax) :
    ¬ RoomEnds (content.length + stale.length)
          (content.length + bytes.length) ∧
        appendBytes alloc (filled content stale)
            (some (Cells.written bytes ++ behind)) bytes.length =
          .error .divergence ∨
      RoomEnds (content.length + stale.length)
          (content.length + bytes.length) ∧
        ((∃ stale',
            content.length + bytes.length + stale'.length ≤ ptrdiffMax ∧
              appendBytes alloc (filled content stale)
                  (some (Cells.written bytes ++ behind)) bytes.length =
                .ok (filled (content ++ bytes) stale')) ∨
          GrowthRefused alloc (content.length + stale.length)
              (content.length + bytes.length) ∧
            appendBytes alloc (filled content stale)
                (some (Cells.written bytes ++ behind)) bytes.length =
              .error (.error .outOfMemory "")) := by
  have bounded :
      content.length + stale.length < sizeModulus :=
    lt_sizeModulus small
  by_cases room : bytes.length ≤ stale.length
  · refine .inr ⟨⟨0, by decide, ?_⟩, .inl ⟨stale.drop bytes.length, ?_, ?_⟩⟩
    · rw [Nat.pow_zero, Nat.mul_one, Nat.mod_eq_of_lt bounded]
      omega
    · rw [List.length_drop]
      omega
    · exact appendBytes_filled behind room small
  · have sum :
        sizeAdd content.length bytes.length =
          content.length + bytes.length := by
      apply sizeAdd_of_lt
      simp only [ptrdiffMax] at small bytesSmall
      simp only [sizeModulus]
      omega
    have ends :=
      @BinaryWriter.growCapacity_isSome_iff 65
        (content.length + stale.length) (content.length + bytes.length)
        bounded
    have grows :
        appendBytes alloc (filled content stale)
            (some (Cells.written bytes ++ behind)) bytes.length =
          (match
              BinaryWriter.growCapacity 65 (content.length + stale.length)
                (content.length + bytes.length)
            with
            | none => .error .divergence
            | some newCapacity =>
                resize alloc (filled content stale) newCapacity) >>=
            fun room =>
              copyBehind room (Cells.written bytes ++ behind)
                bytes.length := by
      rw [appendBytes, if_neg (by omega)]
      change
        makeRoom alloc _ (sizeAdd content.length bytes.length) >>= _ = _
      rw [sum, makeRoom, if_pos]
      · rfl
      · change content.length + stale.length < _
        omega
    cases found :
        BinaryWriter.growCapacity 65 (content.length + stale.length)
          (content.length + bytes.length) with
    | none =>
        rw [found] at ends grows
        refine .inl ⟨fun reached => ?_, grows⟩
        cases ends.mpr reached
    | some newCapacity =>
        rw [found] at ends grows
        refine .inr ⟨ends.mp rfl, ?_⟩
        have large := BinaryWriter.growCapacity_ge found
        by_cases granted : alloc.neocGrants newCapacity = false
        · refine
            .inr ⟨⟨by omega, newCapacity, found, granted⟩, grows.trans ?_⟩
          change resize alloc _ newCapacity >>= _ = _
          rw [resize, if_pos granted]
          rfl
        · rcases
              @resize_filled alloc content stale newCapacity granted
                (by omega) with
            ⟨fits, regrown⟩
          refine
            .inl
              ⟨_, ?_,
                grows.trans
                  ((Except.bind_of_ok regrown _).trans
                    (copyBehind_filled behind ?_ ?_))⟩
          · rw [List.length_drop, List.length_append, Cells.length_fresh]
            omega
          · rw [List.length_append, Cells.length_fresh]
            omega
          · rw [List.length_append, Cells.length_fresh]
            omega

/-! ## What the operations make -/

/--
A new array is refused for lack of memory, or it holds a list with room
behind.
-/
def Builds (alloc : Allocator) (size : Nat) (content : List UInt8)
    (outcome : Outcome NeocByteArray) : Prop :=
  Refuses alloc size ∧ outcome = .error (.error .outOfMemory "") ∨
    ¬ Refuses alloc size ∧
      ∃ stale : Cells UInt8,
        content.length + stale.length ≤ ptrdiffMax ∧
          outcome = .ok (filled content stale)

theorem create_builds (alloc : Allocator) (initialCapacity : Nat) :
    Builds alloc initialCapacity [] (create alloc initialCapacity) := by
  rcases create_cases alloc initialCapacity with refused | ⟨made, small, same⟩
  · exact .inl refused
  · refine .inr ⟨made, _, ?_, same⟩
    rwa [List.length_nil, Nat.zero_add, Cells.length_fresh]

/-- What is done to a new array that has enough room. -/
theorem builds_of_create {size : Nat}
    {fill : NeocByteArray → Outcome NeocByteArray}
    (fills :
      ∀ stale : Cells UInt8,
        size ≤ stale.length → stale.length ≤ ptrdiffMax →
          ∃ stale' : Cells UInt8,
            content.length + stale'.length ≤ ptrdiffMax ∧
              fill (filled [] stale) = .ok (filled content stale')) :
    Builds alloc size content (create alloc size >>= fill) := by
  rcases create_cases alloc size with ⟨refused, failed⟩ | ⟨made, small, same⟩
  · rw [failed]
    exact .inl ⟨refused, rfl⟩
  · have room := le_startCapacity size
    rcases
        fills (Cells.fresh (startCapacity size))
          (by rwa [Cells.length_fresh]) (by rwa [Cells.length_fresh]) with
      ⟨stale', bounded, done⟩
    exact .inr ⟨made, stale', bounded, (Except.bind_of_ok same _).trans done⟩

theorem fromData_builds (behind : Cells UInt8) :
    Builds alloc content.length content
      (fromData alloc (some (Cells.written content ++ behind))
        content.length) := by
  rw [fromData]
  refine builds_of_create fun stale room small => ?_
  split
  · refine ⟨stale.drop content.length, ?_, ?_⟩
    · rw [List.length_drop]
      omega
    · have stored := Cells.store_behind [] content room
      refine (Except.bind_of_ok (read_behind content behind) _).trans ?_
      refine (Except.bind_of_ok stored _).trans ?_
      congr 1
      refine filled_eq rfl ?_
      rw [List.length_drop]
      change 0 + stale.length = _
      omega
  · rename_i none
    have empty : content = [] :=
      List.length_eq_zero_iff.mp (Nat.le_zero.mp (Nat.not_lt.mp none))
    subst empty
    exact ⟨stale, by rwa [List.length_nil, Nat.zero_add], rfl⟩

/-- The cells that a list leaves free after some of it is appended. -/
theorem room_append {front rest : List UInt8}
    (room : (front ++ rest).length ≤ stale.length) :
    rest.length ≤ (stale.drop front.length).length := by
  rw [List.length_append] at room
  rw [List.length_drop]
  omega

theorem small_append {front : List UInt8}
    (room : front.length ≤ stale.length)
    (small : stale.length ≤ ptrdiffMax) :
    front.length + (stale.drop front.length).length ≤ ptrdiffMax := by
  rw [List.length_drop]
  omega

/-- Two appendings to a new array, one after the other. -/
theorem builds_of_two {size : Nat} {first second : List UInt8}
    {appendFirst appendSecond : NeocByteArray → Outcome NeocByteArray}
    (enough : size = (first ++ second).length)
    (appendsFirst :
      ∀ stale : Cells UInt8,
        first.length ≤ stale.length → stale.length ≤ ptrdiffMax →
          appendFirst (filled [] stale) =
            .ok (filled first (stale.drop first.length)))
    (appendsSecond :
      ∀ stale : Cells UInt8,
        second.length ≤ stale.length →
          first.length + stale.length ≤ ptrdiffMax →
          appendSecond (filled first stale) =
            .ok (filled (first ++ second) (stale.drop second.length))) :
    Builds alloc size (first ++ second)
      (create alloc size >>= fun result =>
        appendFirst result >>= appendSecond) := by
  refine builds_of_create fun stale room small => ?_
  rw [enough] at room
  have firstRoom : first.length ≤ stale.length := by
    rw [List.length_append] at room
    omega
  refine ⟨(stale.drop first.length).drop second.length, ?_, ?_⟩
  · have secondRoom := room_append room
    have bounded := small_append firstRoom small
    rw [List.length_append, List.length_drop]
    omega
  · refine (Except.bind_of_ok (appendsFirst stale firstRoom small) _).trans ?_
    exact
      appendsSecond _ (room_append room) (small_append firstRoom small)

/-- Two lengths that are in memory can be added. -/
theorem sizeAdd_lengths {first second : Nat} (firstSmall : first ≤ ptrdiffMax)
    (secondSmall : second ≤ ptrdiffMax) :
    sizeAdd first second = first + second := by
  apply sizeAdd_of_lt
  simp only [ptrdiffMax] at firstSmall secondSmall
  simp only [sizeModulus]
  omega

theorem concat_builds {left right : List UInt8}
    {behindLeft behindRight : Cells UInt8}
    (leftSmall : left.length ≤ ptrdiffMax)
    (rightSmall : right.length ≤ ptrdiffMax) :
    Builds alloc (left.length + right.length) (left ++ right)
      (concat alloc (some (filled left behindLeft))
        (some (filled right behindRight))) := by
  change
    Builds alloc _ _
      (create alloc (sizeAdd left.length right.length) >>= fun result =>
        appendArray alloc result (filled left behindLeft) >>= fun result =>
          appendArray alloc result (filled right behindRight))
  rw [sizeAdd_lengths leftSmall rightSmall]
  refine builds_of_two List.length_append.symm ?_ ?_
  · intro stale room small
    exact appendArray_filled behindLeft room (by simpa using small)
  · intro stale room small
    exact appendArray_filled behindRight room small

theorem concatByte_builds {behind : Cells UInt8} (byte : UInt8)
    (contentSmall : content.length ≤ ptrdiffMax) :
    Builds alloc (content.length + 1) (content ++ [byte])
      (concatByte alloc (some (filled content behind)) byte) := by
  change
    Builds alloc _ _
      (create alloc (sizeAdd content.length 1) >>= fun result =>
        appendArray alloc result (filled content behind) >>= fun result =>
          appendByte alloc result byte)
  rw [sizeAdd_lengths contentSmall (by decide)]
  refine builds_of_two (by rw [List.length_append]; rfl) ?_ ?_
  · intro stale room small
    exact appendArray_filled behind room (by simpa using small)
  · intro stale room small
    exact appendByte_filled byte room small

theorem prependByte_builds {behind : Cells UInt8} (byte : UInt8)
    (contentSmall : content.length ≤ ptrdiffMax) :
    Builds alloc (1 + content.length) (byte :: content)
      (prependByte alloc byte (some (filled content behind))) := by
  change
    Builds alloc _ ([byte] ++ content)
      (create alloc (sizeAdd 1 content.length) >>= fun result =>
        appendByte alloc result byte >>= fun result =>
          appendArray alloc result (filled content behind))
  rw [sizeAdd_lengths (by decide) contentSmall]
  refine builds_of_two (by rw [List.length_append]; rfl) ?_ ?_
  · intro stale room small
    exact appendByte_filled byte room (by simpa using small)
  · intro stale room small
    exact appendArray_filled behind room small

/-- A slice that is inside, and every other one. -/
theorem slice_builds {behind : Cells UInt8} (start stop : Nat) :
    (start > stop ∨ stop > content.length) ∧
        slice alloc (some (filled content behind)) start stop =
          .error (.error .invalidArgument "") ∨
      (start ≤ stop ∧ stop ≤ content.length) ∧
        Builds alloc (stop - start) ((content.take stop).drop start)
          (slice alloc (some (filled content behind)) start stop) := by
  have unfolded :
      slice alloc (some (filled content behind)) start stop =
        if start > stop ∨ stop > content.length then
          .error (.error .invalidArgument "")
        else
          create alloc (stop - start) >>= fun result =>
            if stop - start > 0 then
              appendBytes alloc result
                (some ((Cells.written content ++ behind).drop start))
                (stop - start)
            else
              .ok result :=
    rfl
  rw [unfolded]
  split
  · rename_i outside
    exact .inl ⟨outside, rfl⟩
  rename_i outside
  rw [not_or, Nat.not_lt, Nat.not_lt] at outside
  refine .inr ⟨outside, builds_of_create fun stale room small => ?_⟩
  rcases outside with ⟨ordered, inside⟩
  have length : ((content.take stop).drop start).length = stop - start := by
    rw [List.length_drop, List.length_take]
    omega
  split
  · refine ⟨stale.drop (stop - start), ?_, ?_⟩
    · rw [length, List.length_drop]
      omega
    · have source :
          (Cells.written content ++ behind).drop start =
            Cells.written ((content.take stop).drop start) ++
              (Cells.written (content.drop stop) ++ behind) := by
        have parted :
            content.drop start =
              (content.take stop).drop start ++ content.drop stop := by
          conv_lhs => rw [← List.take_append_drop stop content]
          rw [List.drop_append_of_le_length]
          rw [List.length_take]
          omega
        rw [List.drop_append_of_le_length
            (by rw [Cells.length_written]; omega),
          Cells.written_drop, parted, Cells.written_append,
          List.append_assoc]
      have appended :=
        @appendBytes_filled alloc [] ((content.take stop).drop start) stale
          (Cells.written (content.drop stop) ++ behind)
          (by rwa [length]) (by simpa using small)
      rw [length] at appended
      rw [source]
      exact appended
  · rename_i none
    have empty : (content.take stop).drop start = [] := by
      apply List.length_eq_zero_iff.mp
      rw [length]
      omega
    rw [empty]
    exact ⟨stale, by rwa [List.length_nil, Nat.zero_add], rfl⟩

/-! ## Padding -/

/-- Where nothing is padded, the bytes are copied. -/
theorem pad_builds {behind : Cells UInt8} {targetLength : Nat}
    (padValue : UInt8) (padLeft : Bool)
    (short : targetLength ≤ content.length) :
    Builds alloc content.length content
      (pad alloc (some (filled content behind)) targetLength padValue
        padLeft) := by
  have unfolded :
      pad alloc (some (filled content behind)) targetLength padValue
          padLeft =
        fromData alloc (some (Cells.written content ++ behind))
          content.length := by
    change (if targetLength ≤ content.length then _ else _) = _
    rw [if_pos short]
    rfl
  rw [unfolded]
  exact fromData_builds behind

/-- A new array is written through the pointer to its data. -/
theorem filled_write {data data' : Cells UInt8}
    (same : data'.length = data.length) :
    { filled [] data with data := data' } = filled [] data' := by
  rw [filled, filled, same]
  rfl

theorem stored_cells {data source : Cells UInt8} {offset : Nat}
    (fits : offset + source.length ≤ data.length) :
    ∃ data', data.store offset source = .ok data' ∧
      data'.length = data.length := by
  have stored := Cells.store_of_le fits
  exact ⟨_, stored, Cells.length_of_store stored⟩

/-- Two parts are stored, and the length stays zero. -/
theorem storeTwice_filled {first second : Cells UInt8} {offset : Nat}
    (inside : first.length ≤ stale.length)
    (apart : offset + second.length ≤ stale.length)
    (small : stale.length ≤ ptrdiffMax) :
    ∃ stale' : Cells UInt8,
      ([] : List UInt8).length + stale'.length ≤ ptrdiffMax ∧
        (do
          let data ← (filled [] stale).data.store 0 first
          let data ← data.store offset second
          .ok { filled [] stale with data }) =
          .ok (filled [] stale') := by
  have room : 0 + first.length ≤ stale.length := by
    omega
  rcases stored_cells room with ⟨once, stored, length⟩
  rw [← length] at apart
  rcases stored_cells apart with ⟨twice, storedAgain, same⟩
  refine ⟨twice, ?_, ?_⟩
  · rwa [List.length_nil, Nat.zero_add, same, length]
  · refine (Except.bind_of_ok stored _).trans ?_
    refine (Except.bind_of_ok storedAgain _).trans ?_
    congr 1
    exact filled_write (same.trans length)

/-- Where something is padded, no byte of the result counts. -/
theorem pad_builds_empty {behind : Cells UInt8} {targetLength : Nat}
    (padValue : UInt8) (padLeft : Bool)
    (long : content.length < targetLength) :
    Builds alloc targetLength []
      (pad alloc (some (filled content behind)) targetLength padValue
        padLeft) := by
  have unfolded :
      pad alloc (some (filled content behind)) targetLength padValue
          padLeft =
        (create alloc targetLength >>= fun result => do
          let padCount := targetLength - content.length
          let filler := Cells.written (List.replicate padCount padValue)
          let source ←
            (Cells.written content ++ behind).read 0 content.length
          if padLeft then
            let data ← result.data.store 0 filler
            let data ← data.store padCount source
            .ok { result with data }
          else
            let data ← result.data.store 0 source
            let data ← data.store content.length filler
            .ok { result with data }) := by
    change (if targetLength ≤ content.length then _ else _) = _
    rw [if_neg (Nat.not_le.mpr long)]
    rfl
  rw [unfolded]
  refine builds_of_create fun stale room small => ?_
  rw [show
    (Cells.written content ++ behind).read 0 content.length =
      .ok (Cells.written content) from read_behind content behind]
  cases padLeft
  · exact
      storeTwice_filled (by rw [Cells.length_written]; omega)
        (by rw [Cells.length_written, List.length_replicate]; omega) small
  · exact
      storeTwice_filled
        (by rw [Cells.length_written, List.length_replicate]; omega)
        (by rw [Cells.length_written]; omega) small

/-! ## Hexadecimal text, read and written -/

/-- Decodable pairs are stored one behind the other. -/
theorem exists_readPairs {hex bytes : List UInt8} {i : Nat}
    {data : Cells UInt8} (decoded : Hex.decodeDigits hex = some bytes)
    (room : i + bytes.length ≤ data.length) :
    ∃ data', readPairs hex i data = .ok data' ∧
      data'.length = data.length := by
  induction hex using Hex.decodeDigits.induct
    generalizing bytes i data with
  | case1 high low rest highVal lowVal lowFound highFound induction =>
      rw [Hex.decodeDigits, highFound, lowFound] at decoded
      rcases Option.map_eq_some_iff.mp decoded with ⟨others, found, rfl⟩
      rw [List.length_cons] at room
      have inside :
          i +
              (Cells.written
                [UInt8.ofNat (highVal * 16 + lowVal)]).length ≤
            data.length := by
        rw [Cells.length_written, List.length_singleton]
        omega
      rcases stored_cells inside with ⟨after, stored, length⟩
      rcases
          induction found (show i + 1 + others.length ≤ after.length by omega)
        with ⟨last, read, same⟩
      refine ⟨last, ?_, same.trans length⟩
      rw [readPairs, highFound, lowFound]
      exact (Except.bind_of_ok stored _).trans read
  | case2 high low rest unread =>
      rw [Hex.decodeDigits] at decoded
      split at decoded
      · rename_i highFound lowFound
        exact absurd lowFound (unread _ _ highFound)
      · cases decoded
  | case3 short none =>
      refine ⟨data, ?_, rfl⟩
      rcases short with _ | ⟨first, _ | ⟨second, rest⟩⟩
      · rfl
      · rfl
      · exact absurd rfl (none first second rest)

/-- The bytes that a text stands for, or none. -/
def hexBytes (hex : CString) : List UInt8 :=
  (Hex.decodeDigits (Hex.skipMark hex.characters)).getD []

theorem decodeDigits_of_decodable {hex : CString}
    (decodable : ¬ Hex.Undecodable hex) :
    Hex.decodeDigits (Hex.skipMark hex.characters) =
      some (hexBytes hex) := by
  rw [Hex.Undecodable, not_or, Decidable.not_not] at decodable
  have valid :
      ∀ c ∈ Hex.skipMark hex.characters, Hex.isValidChar c = true := by
    intro c member
    by_contra invalid
    exact decodable.2 ⟨c, member, Bool.eq_false_of_not_eq_true invalid⟩
  rcases (Hex.exists_decodeDigits decodable.1).mpr valid with
    ⟨bytes, found⟩
  rw [hexBytes, found]
  rfl

/-- A text is refused, or no byte of the result counts. -/
theorem fromHexString_builds_empty (alloc : Allocator) (hex : CString) :
    Hex.Undecodable hex ∧
        (∃ code,
          fromHexString alloc (some hex) = .error (.error code "")) ∨
      ¬ Hex.Undecodable hex ∧
        Builds alloc (hexBytes hex).length []
          (fromHexString alloc (some hex)) := by
  by_cases undecodable : Hex.Undecodable hex
  · refine .inl ⟨undecodable, ?_⟩
    rw [fromHexString]
    split
    · rename_i empty
      rcases undecodable with odd | ⟨c, member, -⟩
      · rw [empty] at odd
        exact absurd rfl odd
      · rw [List.length_eq_zero_iff.mp empty] at member
        cases member
    split
    · exact ⟨_, rfl⟩
    rename_i even
    split
    · exact ⟨_, rfl⟩
    rename_i valid
    rcases undecodable with odd | ⟨c, member, invalid⟩
    · exact absurd odd even
    · rw [Bool.not_eq_false, List.all_eq_true] at valid
      rw [valid c member] at invalid
      cases invalid
  · have decoded := decodeDigits_of_decodable undecodable
    have length := Hex.length_of_decodeDigits decoded
    refine .inr ⟨undecodable, ?_⟩
    rw [Hex.Undecodable, not_or, Decidable.not_not] at undecodable
    rw [fromHexString]
    split
    · rename_i empty
      rw [length, empty]
      exact create_builds alloc 0
    rw [if_neg (Decidable.not_not.mpr undecodable.1), if_neg, length]
    · refine builds_of_create fun stale room small => ?_
      rw [← length, ← Nat.zero_add (List.length _)] at room
      rcases exists_readPairs decoded room with ⟨data, read, same⟩
      refine ⟨data, ?_, ?_⟩
      · rwa [List.length_nil, Nat.zero_add, same]
      · refine (Except.bind_of_ok read _).trans ?_
        congr 1
        exact filled_write same
    · rw [Bool.not_eq_false, List.all_eq_true]
      intro c member
      by_contra invalid
      exact
        undecodable.2 ⟨c, member, Bool.eq_false_of_not_eq_true invalid⟩

/-- The digits of the bytes are written behind what is there. -/
theorem exists_writePairs (uppercase : Bool) (done todo : List UInt8)
    (behind : Cells UInt8) {front : List UInt8} {stale : Cells UInt8}
    (room : 2 * todo.length + 1 ≤ stale.length) :
    ∃ stale' : Cells UInt8,
      2 * todo.length + stale'.length = stale.length ∧
        writePairs (Cells.written (done ++ todo) ++ behind) uppercase
            todo.length done.length front.length
            (Cells.written front ++ stale) =
          .ok
            (Cells.written (front ++ todo.flatMap (Hex.digits uppercase)) ++
              stale') := by
  induction todo generalizing done front stale with
  | nil =>
      refine ⟨stale, Nat.zero_add _, ?_⟩
      rw [List.flatMap_nil, List.append_nil front]
      rfl
  | cons byte rest induction =>
      have length :
          (Hex.digits uppercase byte ++ [0]).length = 3 :=
        rfl
      rw [List.length_cons] at room
      have cell :
          (Cells.written (done ++ byte :: rest) ++ behind).read done.length
              1 =
            .ok (Cells.written [byte]) := by
        have found :=
          Cells.read_append (Cells.written done) (Cells.written [byte])
            (Cells.written rest ++ behind)
        rwa [Cells.length_written, Cells.length_written, ← List.append_assoc,
          ← List.append_assoc, ← Cells.written_append,
          ← Cells.written_append, List.append_assoc] at found
      have stored :=
        Cells.store_behind front (Hex.digits uppercase byte ++ [0])
          (show _ ≤ stale.length by omega)
      have shape :
          Cells.written (front ++ (Hex.digits uppercase byte ++ [0])) ++
              stale.drop (Hex.digits uppercase byte ++ [0]).length =
            Cells.written (front ++ Hex.digits uppercase byte) ++
              (Cells.written [0] ++ stale.drop 3) := by
        rw [length, ← List.append_assoc, Cells.written_append,
          List.append_assoc]
      have free :
          (Cells.written [(0 : UInt8)] ++ stale.drop 3).length =
            stale.length - 2 := by
        rw [List.length_append, Cells.length_written, List.length_drop,
          List.length_singleton]
        omega
      rcases
          @induction (done ++ [byte]) (front ++ Hex.digits uppercase byte)
            (Cells.written [0] ++ stale.drop 3) (by omega) with
        ⟨stale', total, written⟩
      refine ⟨stale', by rw [List.length_cons]; omega, ?_⟩
      rw [List.length_append, List.length_append] at written
      rw [List.length_cons, writePairs]
      refine (Except.bind_of_ok cell _).trans ?_
      refine (Except.bind_of_ok (Cells.load_written [byte]) _).trans ?_
      rw [List.flatMap_singleton]
      refine (Except.bind_of_ok stored _).trans ?_
      rw [shape, List.flatMap_cons]
      rw [List.append_assoc, List.append_assoc] at written
      exact written

/-- The mark in front of the digits. -/
def hexMark (withPrefix : Bool) : List UInt8 :=
  if withPrefix then [0x30, 0x78] else []

theorem length_hexMark (withPrefix : Bool) :
    (hexMark withPrefix).length = if withPrefix then 2 else 0 := by
  cases withPrefix <;> rfl

/-- The text of some bytes, without its NUL. -/
def hexText (content : List UInt8) (uppercase withPrefix : Bool) :
    List UInt8 :=
  hexMark withPrefix ++ content.flatMap (Hex.digits uppercase)

theorem hexText_free (content : List UInt8) (uppercase withPrefix : Bool) :
    0 ∉ hexText content uppercase withPrefix := by
  rw [hexText, List.mem_append, not_or]
  constructor
  · cases withPrefix <;> decide
  · intro member
    exact absurd (Hex.isValidChar_of_mem member) (by decide)

/-- The mark is skipped, and the digits are left. -/
theorem skipMark_hexText (content : List UInt8)
    (uppercase withPrefix : Bool) :
    Hex.skipMark (hexText content uppercase withPrefix) =
      content.flatMap (Hex.digits uppercase) := by
  cases withPrefix with
  | false => exact Hex.skipMark_digits content uppercase
  | true => exact if_pos ⟨Nat.le_add_left 2 _, rfl, .inl rfl⟩

/-- The size of the text is not reduced modulo `2^64`. -/
def HexSizeFits (length : Nat) (withPrefix : Bool) : Prop :=
  (if withPrefix then 2 else 0) + length * 2 + 1 < sizeModulus

instance (length : Nat) (withPrefix : Bool) :
    Decidable (HexSizeFits length withPrefix) :=
  inferInstanceAs (Decidable (_ < _))

/-- The mark is stored with its NUL, where there is one to store. -/
theorem exists_storeMark {text : Cells UInt8} (withPrefix : Bool)
    (room : (hexMark withPrefix).length + 1 ≤ text.length) :
    ∃ stale : Cells UInt8,
      (hexMark withPrefix).length + stale.length = text.length ∧
        (if withPrefix then
            text.store 0 (Cells.written [0x30, 0x78, 0])
          else
            .ok text) =
          .ok (Cells.written (hexMark withPrefix) ++ stale) := by
  cases withPrefix with
  | false => exact ⟨text, Nat.zero_add _, rfl⟩
  | true =>
      have three : 3 ≤ text.length :=
        room
      refine ⟨some 0 :: text.drop 3, ?_, ?_⟩
      · rw [length_hexMark, List.length_cons, List.length_drop, if_pos rfl]
        omega
      · exact Cells.store_behind [] [0x30, 0x78, 0] three

/-- Every way the writing of a text can end. -/
theorem toHexString_cases (alloc : Allocator) {behind : Cells UInt8}
    (uppercase withPrefix : Bool)
    (small : content.length ≤ ptrdiffMax) :
    alloc.neocGrants (hexSize content.length withPrefix) = false ∧
        toHexString alloc (some (filled content behind)) uppercase
            withPrefix =
          .ok none ∨
      alloc.neocGrants (hexSize content.length withPrefix) = true ∧
        (¬ HexSizeFits content.length withPrefix ∧
            toHexString alloc (some (filled content behind)) uppercase
                withPrefix =
              .error .illegalAccess ∨
          HexSizeFits content.length withPrefix ∧
            ∃ rest : Cells UInt8,
              toHexString alloc (some (filled content behind)) uppercase
                  withPrefix =
                .ok
                  (some
                    (Cells.written
                        (hexText content uppercase withPrefix ++ [0]) ++
                      rest))) := by
  cases granted :
      alloc.neocGrants (hexSize content.length withPrefix) with
  | false => exact .inl ⟨rfl, if_pos granted⟩
  | true =>
      refine .inr ⟨rfl, ?_⟩
      have unfolded :
          toHexString alloc (some (filled content behind)) uppercase
              withPrefix =
            ((if withPrefix then
                (Cells.fresh (hexSize content.length withPrefix)).store 0
                  (Cells.written [0x30, 0x78, 0])
              else
                .ok (Cells.fresh (hexSize content.length withPrefix))) >>=
              fun text => do
                let text ←
                  writePairs (Cells.written content ++ behind) uppercase
                    content.length 0 (if withPrefix then 2 else 0) text
                let text ←
                  text.store
                    ((if withPrefix then 2 else 0) + 2 * content.length)
                    (Cells.written [0])
                .ok (some text)) := by
        change (if alloc.neocGrants _ = false then _ else _) = _
        rw [if_neg]
        · cases withPrefix <;> rfl
        · rw [Bool.not_eq_false]
          exact granted
      rw [unfolded]
      by_cases fits : HexSizeFits content.length withPrefix
      · have size :
            hexSize content.length withPrefix =
              (hexMark withPrefix).length + content.length * 2 + 1 := by
          rw [length_hexMark]
          exact Nat.mod_eq_of_lt fits
        rcases
            @exists_storeMark (Cells.fresh (hexSize content.length withPrefix))
              withPrefix (by rw [Cells.length_fresh, size]; omega) with
          ⟨stale, left, marked⟩
        rw [Cells.length_fresh, size] at left
        rcases
            @exists_writePairs uppercase [] content behind
              (hexMark withPrefix) stale (by omega) with
          ⟨stale', total, written⟩
        have ended :=
          Cells.store_behind
            (hexMark withPrefix ++ content.flatMap (Hex.digits uppercase))
            [0] (show 1 ≤ stale'.length by omega)
        rw [List.length_append, Hex.length_digits] at ended
        rw [← length_hexMark]
        refine .inr ⟨fits, stale'.drop 1, ?_⟩
        refine (Except.bind_of_ok marked _).trans ?_
        refine (Except.bind_of_ok written _).trans ?_
        exact Except.bind_of_ok ended _
      · refine .inl ⟨fits, ?_⟩
        cases withPrefix with
        | false =>
            rw [HexSizeFits, if_neg (by decide)] at fits
            simp only [ptrdiffMax] at small
            simp only [sizeModulus] at fits
            omega
        | true =>
            have one : hexSize content.length true = 1 := by
              rw [HexSizeFits, if_pos rfl] at fits
              rw [hexSize, if_pos rfl]
              simp only [ptrdiffMax] at small
              simp only [sizeModulus] at fits ⊢
              omega
            rw [one]
            rfl

/-- Every way the text of an array can be read back. -/
theorem throughHex_cases (writer reader : Allocator) {behind : Cells UInt8}
    (uppercase withPrefix : Bool)
    (small : content.length ≤ ptrdiffMax) :
    writer.neocGrants (hexSize content.length withPrefix) = false ∧
        throughHex writer reader (some (filled content behind)) uppercase
            withPrefix =
          .error (.error .invalidArgument "") ∨
      writer.neocGrants (hexSize content.length withPrefix) = true ∧
        (¬ HexSizeFits content.length withPrefix ∧
            throughHex writer reader (some (filled content behind))
                uppercase withPrefix =
              .error .illegalAccess ∨
          HexSizeFits content.length withPrefix ∧
            Builds reader content.length []
              (throughHex writer reader (some (filled content behind))
                uppercase withPrefix)) := by
  rcases
      @toHexString_cases content writer behind uppercase withPrefix small with
    ⟨refused, text⟩ | ⟨granted, ⟨wraps, text⟩ | ⟨fits, rest, text⟩⟩
  · exact .inl ⟨refused, Except.bind_of_ok text _⟩
  · exact .inr ⟨granted, .inl ⟨wraps, by rw [throughHex, text]; rfl⟩⟩
  · refine .inr ⟨granted, .inr ⟨fits, ?_⟩⟩
    have free := hexText_free content uppercase withPrefix
    have read :
        throughHex writer reader (some (filled content behind)) uppercase
            withPrefix =
          fromHexString reader
            (some (CString.ofBuffer (hexText content uppercase withPrefix)))
              := by
      refine (Except.bind_of_ok text _).trans ?_
      exact Except.bind_of_ok (Cells.readString_written free rest) _
    have digits :
        Hex.skipMark
            (CString.ofBuffer
              (hexText content uppercase withPrefix)).characters =
          content.flatMap (Hex.digits uppercase) := by
      rw [CString.characters_ofBuffer free, skipMark_hexText]
    have bytes :
        hexBytes (CString.ofBuffer (hexText content uppercase withPrefix)) =
          content := by
      rw [hexBytes, digits, Hex.decodeDigits_digits]
      rfl
    rw [read]
    rcases
        fromHexString_builds_empty reader
          (CString.ofBuffer (hexText content uppercase withPrefix)) with
      ⟨undecodable, -⟩ | ⟨-, builds⟩
    · rcases undecodable with odd | ⟨c, member, invalid⟩
      · rw [digits, Hex.length_digits] at odd
        exact absurd (Nat.mul_mod_right 2 _) odd
      · rw [digits] at member
        rw [Hex.isValidChar_of_mem member] at invalid
        cases invalid
    · rwa [bytes] at builds

end NeocByteArray

end NeoC
