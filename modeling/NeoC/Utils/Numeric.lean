import NeoC.Foundation.LittleEndian
import NeoC.Runtime.Cells

/-!
# Integers as bytes

An integer lies in memory with its lowest byte first or with its highest byte
first, depending on the host.  The conversions copy bytes as they are where
the order of the text is that of the host, and mirrored where it is not.

Fewer bytes than the integer has are put where the first byte of the text
belongs.  For the lowest byte first, that is the low end, and the bytes denote
what they should.  For the highest byte first, it is the high end, so the
integer is too large by a power of 256 for every byte that is missing.
-/

namespace NeoC

open Foundation

/-- The order of the bytes of an integer in memory. -/
inductive ByteOrder where
  | little
  | big
deriving DecidableEq, Repr

/-- The unsigned integer that an object of the host holds. -/
def ByteOrder.valueOf : ByteOrder → List UInt8 → Nat
  | .little, object => LittleEndian.ofBytes object
  | .big, object => LittleEndian.ofBytes object.reverse

/-- The bytes of an unsigned integer in the memory of the host. -/
def ByteOrder.objectOf : ByteOrder → (size value : Nat) → List UInt8
  | .little, size, value => LittleEndian.toBytes size value
  | .big, size, value => (LittleEndian.toBytes size value).reverse

namespace Numeric

/-! ## The conversions -/

/-- `neoc_numeric_is_little_endian`, which looks at the first byte of a 1. -/
def isLittleEndian (host : ByteOrder) : Bool :=
  (host.objectOf 2 1).head? == some 1

/-- A loop that copies single bytes to and from places that depend on `i`. -/
def copyEach (source : Cells UInt8) (target origin : Nat → Nat) :
    (turns i : Nat) → (destination : Cells UInt8) → Outcome (Cells UInt8)
  | 0, _, destination => .ok destination
  | turns + 1, i, destination => do
      let byte ← source.read (origin i) 1
      let destination ← destination.store (target i) byte
      copyEach source target origin turns (i + 1) destination

/-- `memcpy` to the beginning of an object. -/
def copyAll (source : Cells UInt8) (count : Nat)
    (destination : Cells UInt8) : Outcome (Cells UInt8) := do
  let bytes ← source.read 0 count
  destination.store 0 bytes

/-- `neoc_numeric_copy_bytes`; `none` is `NULL`. -/
def copyBytes (host : ByteOrder) (alloc : Allocator)
    (value : Option (List UInt8)) (valueSize : Nat)
    (littleEndianTarget : Bool) : Outcome (Cells UInt8 × Nat) :=
  match value with
  | none =>
      .error
        (.error .invalidArgument "numeric copy bytes: invalid arguments")
  | some source =>
      if valueSize = 0 then
        .error
          (.error .invalidArgument "numeric copy bytes: invalid arguments")
      else if alloc.neocGrants valueSize = false then
        .error (.error .outOfMemory "numeric copy bytes: allocation failed")
      else do
        let output ←
          if isLittleEndian host = littleEndianTarget then
            copyAll (Cells.written source) valueSize (Cells.fresh valueSize)
          else
            copyEach (Cells.written source) id (fun i => valueSize - 1 - i)
              valueSize 0 (Cells.fresh valueSize)
        .ok (output, valueSize)

/-- `neoc_numeric_to_bytes_le`. -/
def toBytesLe (host : ByteOrder) (alloc : Allocator)
    (value : Option (List UInt8)) (valueSize : Nat) :
    Outcome (Cells UInt8 × Nat) :=
  copyBytes host alloc value valueSize true

/-- `neoc_numeric_to_bytes_be`. -/
def toBytesBe (host : ByteOrder) (alloc : Allocator)
    (value : Option (List UInt8)) (valueSize : Nat) :
    Outcome (Cells UInt8 × Nat) :=
  copyBytes host alloc value valueSize false

/-- `neoc_numeric_from_bytes`: the object behind `value` afterwards. -/
def fromBytes (host : ByteOrder) (bytes : Buffer)
    (value : Option (Cells UInt8)) (valueSize : Nat)
    (littleEndianSource : Bool) : Outcome (Cells UInt8) :=
  match bytes, value with
  | .items bytes, some value =>
      if bytes.length = 0 ∨ valueSize = 0 then
        .error
          (.error .invalidArgument "numeric from bytes: invalid arguments")
      else do
        let destination ←
          value.store 0 (Cells.written (List.replicate valueSize 0))
        let copyLen :=
          if bytes.length < valueSize then bytes.length else valueSize
        if littleEndianSource = isLittleEndian host then
          copyAll (Cells.written bytes) copyLen destination
        else
          copyEach (Cells.written bytes) (fun i => valueSize - 1 - i) id
            copyLen 0 destination
  | _, _ =>
      .error
        (.error .invalidArgument "numeric from bytes: invalid arguments")

/-- `neoc_numeric_from_bytes_le`. -/
def fromBytesLe (host : ByteOrder) (bytes : Buffer)
    (value : Option (Cells UInt8)) (valueSize : Nat) :
    Outcome (Cells UInt8) :=
  fromBytes host bytes value valueSize true

/-- `neoc_numeric_from_bytes_be`. -/
def fromBytesBe (host : ByteOrder) (bytes : Buffer)
    (value : Option (Cells UInt8)) (valueSize : Nat) :
    Outcome (Cells UInt8) :=
  fromBytes host bytes value valueSize false

/-- The loop of `neoc_bytes_to_uint64_le`. -/
def addLe : (bytes : List UInt8) → (i : Nat) → (result : UInt64) → UInt64
  | [], _, result => result
  | byte :: rest, i, result =>
      addLe rest (i + 1) (result ||| byte.toUInt64 <<< UInt64.ofNat (i * 8))

/-- `neoc_bytes_to_uint64_le`. -/
def bytesToUint64Le (bytes : Buffer) : Outcome UInt64 :=
  match bytes with
  | .null _ => .error (.error .nullPointer "")
  | .items bytes =>
      if bytes.length > 8 then
        .error (.error .invalidArgument "")
      else
        .ok (addLe bytes 0 0)

/-- The loop of `neoc_bytes_to_uint64_be`. -/
def addBe : (bytes : List UInt8) → (result : UInt64) → UInt64
  | [], result => result
  | byte :: rest, result => addBe rest (result <<< 8 ||| byte.toUInt64)

/-- `neoc_bytes_to_uint64_be`. -/
def bytesToUint64Be (bytes : Buffer) : Outcome UInt64 :=
  match bytes with
  | .null _ => .error (.error .nullPointer "")
  | .items bytes =>
      if bytes.length > 8 then
        .error (.error .invalidArgument "")
      else
        .ok (addBe bytes 0)

/-! ## Copying -/

theorem read_middle (front back : List UInt8) (byte : UInt8) :
    (Cells.written (front ++ byte :: back)).read front.length 1 =
      .ok (Cells.written [byte]) := by
  rw [Cells.read_of_le, Cells.written_drop, List.drop_left,
    Cells.written_take]
  · rfl
  · rw [Cells.length_written, List.length_append, List.length_cons]
    omega

/-- From the front on, a mirrored copy takes the bytes from the back. -/
theorem copyEach_from_back (rest done : List UInt8) (room : Cells UInt8)
    (same : room.length = rest.length) :
    copyEach (Cells.written (rest.reverse ++ done)) id
        (fun i => rest.length + done.length - 1 - i) rest.length done.length
        (Cells.written done.reverse ++ room) =
      .ok (Cells.written (done.reverse ++ rest)) := by
  induction rest generalizing done room with
  | nil =>
      rw [List.length_eq_zero_iff.mp same, List.append_nil, List.append_nil]
      rfl
  | cons byte rest induction =>
      rcases room with _ | ⟨cell, room⟩
      · cases same
      have taken :
          (byte :: rest).length + done.length - 1 - done.length =
            rest.reverse.length := by
        rw [List.length_cons, List.length_reverse]
        omega
      have found :=
        read_middle rest.reverse done byte
      have stored :
          (Cells.written done.reverse ++ cell :: room).store done.length
              (Cells.written [byte]) =
            .ok (Cells.written (byte :: done).reverse ++ room) := by
        have overwritten :=
          @Cells.store_append UInt8 (Cells.written done.reverse) [cell]
            (Cells.written [byte]) room rfl
        rw [Cells.length_written, List.length_reverse] at overwritten
        rw [List.reverse_cons, Cells.written_append, List.append_assoc]
        exact overwritten
      have later :=
        induction (byte :: done) room (Nat.succ.inj same)
      rw [List.reverse_cons, List.append_assoc, List.length_cons, copyEach]
      rw [List.length_cons] at taken
      rw [taken]
      refine (Except.bind_of_ok found _).trans ?_
      refine (Except.bind_of_ok stored _).trans ?_
      rw [List.length_cons, List.reverse_cons, List.append_assoc] at later
      rw [List.reverse_cons]
      rw [show rest.length + 1 + done.length = rest.length + (done.length + 1)
        by omega]
      exact later

/-- From the back on, a mirrored copy puts the bytes in reverse order. -/
theorem copyEach_to_back (rest done : List UInt8) (room old : Cells UInt8)
    (same : old.length = rest.length) :
    copyEach (Cells.written (done ++ rest))
        (fun i => room.length + old.length + done.length - 1 - i) id
        rest.length done.length
        (room ++ (old ++ Cells.written done.reverse)) =
      .ok (room ++ Cells.written (done ++ rest).reverse) := by
  induction rest generalizing done old with
  | nil =>
      rw [List.length_eq_zero_iff.mp same, List.append_nil]
      rfl
  | cons byte rest induction =>
      rcases List.eq_nil_or_concat old with rfl | ⟨old, cell, rfl⟩
      · cases same
      rw [List.length_concat, List.length_cons] at same
      have shorter : old.length = rest.length := by
        omega
      have placed :
          room.length + (old.concat cell).length + done.length - 1 -
              done.length =
            (room ++ old).length := by
        rw [List.length_concat, List.length_append]
        omega
      have stored :
          (room ++ (old.concat cell ++ Cells.written done.reverse)).store
              (room ++ old).length (Cells.written [byte]) =
            .ok
              (room ++ (old ++ Cells.written (done ++ [byte]).reverse)) := by
        have overwritten :=
          @Cells.store_append UInt8 (room ++ old) [cell]
            (Cells.written [byte]) (Cells.written done.reverse) rfl
        rw [List.append_assoc] at overwritten
        rw [List.reverse_append, List.concat_eq_append, List.append_assoc,
          overwritten, List.append_assoc]
        rfl
      have later := induction (done ++ [byte]) old shorter
      rw [List.append_assoc, List.length_append, List.length_singleton]
        at later
      rw [List.length_cons, copyEach]
      dsimp only [id]
      rw [placed]
      refine (Except.bind_of_ok (read_middle done rest byte) _).trans ?_
      refine (Except.bind_of_ok stored _).trans ?_
      rw [List.length_concat]
      rw [show room.length + (old.length + 1) + done.length =
        room.length + old.length + (done.length + 1) by omega]
      exact later

/-! ## What is stored -/

/-- Bytes as they are, or mirrored. -/
def arranged (same : Prop) [Decidable same] (bytes : List UInt8) :
    List UInt8 :=
  if same then bytes else bytes.reverse

/-- A whole integer is copied in one order or the other. -/
theorem copyBytes_eq {host : ByteOrder} {alloc : Allocator}
    {value : List UInt8} (positive : value ≠ [])
    (granted : alloc.neocGrants value.length = true)
    (littleEndianTarget : Bool) :
    copyBytes host alloc (some value) value.length littleEndianTarget =
      .ok
        (Cells.written
          (arranged (isLittleEndian host = littleEndianTarget) value),
          value.length) := by
  have long : value.length ≠ 0 :=
    fun zero => positive (List.length_eq_zero_iff.mp zero)
  rw [copyBytes, arranged]
  dsimp only
  rw [if_neg long, granted, if_neg (by decide)]
  split
  · refine Except.bind_of_ok ?_ _
    rw [copyAll, Cells.read_of_le (by simp)]
    refine (Except.ok_bind _ _).trans ?_
    rw [List.drop_zero, Cells.written_take, List.take_length]
    exact Cells.store_whole (by simp)
  · refine Except.bind_of_ok ?_ _
    have copied :=
      copyEach_from_back value.reverse [] (Cells.fresh value.length)
        (by simp)
    rwa [List.reverse_reverse, List.append_nil, List.length_reverse,
      List.length_nil, Nat.add_zero, List.reverse_nil, List.nil_append]
      at copied

/-- Bytes are put at the low addresses, or mirrored at the high ones. -/
theorem fromBytes_eq {host : ByteOrder} {bytes : List UInt8}
    {value : Cells UInt8} (positive : bytes ≠ [])
    (short : bytes.length ≤ value.length) (littleEndianSource : Bool) :
    fromBytes host (.items bytes) (some value) value.length
        littleEndianSource =
      .ok
        (Cells.written
          (arranged (littleEndianSource = isLittleEndian host)
            (bytes ++ List.replicate (value.length - bytes.length) 0))) := by
  have long : bytes.length ≠ 0 :=
    fun zero => positive (List.length_eq_zero_iff.mp zero)
  have cleared :
      value.store 0 (Cells.written (List.replicate value.length 0)) =
        .ok (Cells.written (List.replicate value.length 0)) :=
    Cells.store_whole (by simp)
  have count :
      (if bytes.length < value.length then bytes.length
        else value.length) = bytes.length := by
    split
    · rfl
    · omega
  have parted :
      List.replicate value.length (0 : UInt8) =
        List.replicate bytes.length 0 ++
          List.replicate (value.length - bytes.length) 0 := by
    rw [List.replicate_append_replicate, Nat.add_sub_cancel' short]
  rw [fromBytes, arranged]
  dsimp only
  rw [if_neg (by omega)]
  refine (Except.bind_of_ok cleared _).trans ?_
  rw [count]
  split
  · rw [copyAll, Cells.read_of_le (by simp)]
    refine (Except.ok_bind _ _).trans ?_
    rw [List.drop_zero, Cells.written_take, List.take_length, parted,
      Cells.written_append, Cells.written_append]
    exact Cells.store_zero (by simp)
  · have copied :=
      copyEach_to_back bytes []
        (Cells.written (List.replicate (value.length - bytes.length) 0))
        (Cells.written (List.replicate bytes.length 0)) (by simp)
    rw [List.nil_append, List.length_nil, Cells.length_written,
      Cells.length_written, List.length_replicate, List.length_replicate,
      Nat.add_zero, Nat.sub_add_cancel short, List.reverse_nil] at copied
    have start :
        Cells.written (List.replicate (value.length - bytes.length) 0) ++
            (Cells.written (List.replicate bytes.length 0) ++
              Cells.written []) =
          Cells.written (List.replicate value.length (0 : UInt8)) := by
      rw [← Cells.written_append, ← Cells.written_append, List.append_nil,
        List.replicate_append_replicate, Nat.sub_add_cancel short]
    rw [start] at copied
    rw [copied, ← Cells.written_append, List.reverse_append,
      List.reverse_replicate]

/-! ## What is denoted -/

theorem ofBytes_replicate_zero (count : Nat) :
    LittleEndian.ofBytes (List.replicate count 0) = 0 := by
  induction count with
  | zero => rfl
  | succ count induction =>
      rw [List.replicate_succ, LittleEndian.ofBytes, induction]
      rfl

/-- Only zeros denote zero. -/
theorem ofBytes_eq_zero_iff (bytes : List UInt8) :
    LittleEndian.ofBytes bytes = 0 ↔ ∀ byte ∈ bytes, byte = 0 := by
  induction bytes with
  | nil => simp [LittleEndian.ofBytes]
  | cons byte rest induction =>
      rw [LittleEndian.ofBytes, List.forall_mem_cons, ← induction,
        ← UInt8.toNat_inj]
      change _ ↔ byte.toNat = 0 ∧ _
      omega

/-- With the lowest byte first, missing bytes are zeros at the high end. -/
theorem valueOf_le (host : ByteOrder) (bytes : List UInt8)
    (missing : Nat) :
    host.valueOf
        (arranged (true = isLittleEndian host)
          (bytes ++ List.replicate missing 0)) =
      LittleEndian.ofBytes bytes := by
  have padded :
      LittleEndian.ofBytes (bytes ++ List.replicate missing 0) =
        LittleEndian.ofBytes bytes := by
    rw [LittleEndian.ofBytes_append, ofBytes_replicate_zero, Nat.mul_zero,
      Nat.add_zero]
  cases host with
  | little => exact padded
  | big =>
      change
        LittleEndian.ofBytes
          (bytes ++ List.replicate missing 0).reverse.reverse = _
      rw [List.reverse_reverse, padded]

/-- With the highest byte first, they are zeros at the low end. -/
theorem valueOf_be (host : ByteOrder) (bytes : List UInt8)
    (missing : Nat) :
    host.valueOf
        (arranged (false = isLittleEndian host)
          (bytes ++ List.replicate missing 0)) =
      256 ^ missing * LittleEndian.ofBytes bytes.reverse := by
  have padded :
      LittleEndian.ofBytes (bytes ++ List.replicate missing 0).reverse =
        256 ^ missing * LittleEndian.ofBytes bytes.reverse := by
    rw [List.reverse_append, List.reverse_replicate,
      LittleEndian.ofBytes_append, ofBytes_replicate_zero, Nat.zero_add,
      List.length_replicate]
  cases host with
  | little => exact padded
  | big => exact padded

/-- Joining bits below and above a boundary is adding. -/
theorem toNat_or_shift (low high : UInt64) {bits : Nat} (width : bits < 64)
    (lowSmall : low.toNat < 2 ^ bits)
    (fits : high.toNat * 2 ^ bits < 2 ^ 64) :
    (low ||| high <<< UInt64.ofNat bits).toNat =
      low.toNat + high.toNat * 2 ^ bits := by
  have amount : (UInt64.ofNat bits).toNat % 64 = bits := by
    rw [toNat_ofNat_size (by simp only [sizeModulus]; omega),
      Nat.mod_eq_of_lt width]
  rw [UInt64.toNat_or, UInt64.toNat_shiftLeft, amount, Nat.shiftLeft_eq,
    Nat.mod_eq_of_lt fits, Nat.or_comm, Nat.mul_comm,
    ← Nat.two_pow_add_eq_or_of_lt lowSmall, Nat.add_comm]

theorem ofBytes_small {bytes : List UInt8} (short : bytes.length ≤ 8) :
    LittleEndian.ofBytes bytes < sizeModulus :=
  (LittleEndian.ofBytes_lt bytes).trans_le
    (Nat.pow_le_pow_right (by decide) short : _ ≤ 256 ^ 8)

/-- The loop adds the bytes at their places. -/
theorem toNat_addLe {bytes : List UInt8} {i : Nat} {result : UInt64}
    (short : i + bytes.length ≤ 8) (small : result.toNat < 256 ^ i) :
    (addLe bytes i result).toNat =
      result.toNat + 256 ^ i * LittleEndian.ofBytes bytes := by
  induction bytes generalizing i result with
  | nil => simp [addLe, LittleEndian.ofBytes]
  | cons byte rest induction =>
      rw [List.length_cons] at short
      have power : (2 : Nat) ^ (i * 8) = 256 ^ i := by
        rw [Nat.mul_comm, Nat.pow_mul]
      have byteSmall : byte.toUInt64.toNat < 256 :=
        byte.toNat_lt
      have step :
          byte.toUInt64.toNat * 256 ^ i + 256 ^ i ≤ 256 ^ (i + 1) := by
        rw [Nat.pow_succ, ← Nat.succ_mul, Nat.mul_comm]
        exact Nat.mul_le_mul_left _ byteSmall
      have top : 256 ^ (i + 1) ≤ 2 ^ 64 :=
        Nat.pow_le_pow_right (by decide) (by omega : i + 1 ≤ 8)
      have positive : 0 < 256 ^ i :=
        Nat.pow_pos (by decide)
      have joined :=
        @toNat_or_shift result byte.toUInt64 (i * 8) (by omega)
          (power ▸ small) (by rw [power]; omega)
      rw [power] at joined
      rw [addLe, induction (by omega) (by rw [joined]; omega), joined,
        LittleEndian.ofBytes, Nat.pow_succ, UInt8.toNat_toUInt64]
      ring

/-- The loop shifts what it has and adds the next byte. -/
theorem toNat_addBe {bytes : List UInt8} {result : UInt64} {done : Nat}
    (short : done + bytes.length ≤ 8) (small : result.toNat < 256 ^ done) :
    (addBe bytes result).toNat =
      result.toNat * 256 ^ bytes.length +
        LittleEndian.ofBytes bytes.reverse := by
  induction bytes generalizing result done with
  | nil => simp [addBe, LittleEndian.ofBytes]
  | cons byte rest induction =>
      rw [List.length_cons] at short
      have byteSmall : byte.toUInt64.toNat < 2 ^ 8 :=
        byte.toNat_lt
      have step : result.toNat * 2 ^ 8 + 256 ≤ 256 ^ (done + 1) := by
        rw [Nat.pow_succ]
        omega
      have top : 256 ^ (done + 1) ≤ 2 ^ 64 :=
        Nat.pow_le_pow_right (by decide) (by omega : done + 1 ≤ 8)
      have joined :
          (result <<< 8 ||| byte.toUInt64).toNat =
            byte.toUInt64.toNat + result.toNat * 2 ^ 8 := by
        rw [UInt64.or_comm]
        exact
          @toNat_or_shift byte.toUInt64 result 8 (by decide) byteSmall
            (by omega)
      rw [addBe,
        @induction _ (done + 1) (by omega) (by rw [joined]; omega),
        joined, List.reverse_cons, LittleEndian.ofBytes_append,
        List.length_cons, List.length_reverse, UInt8.toNat_toUInt64]
      change _ = _ + (_ + _ * (byte.toNat + 256 * 0))
      ring

/-! ## The conversions as a whole -/

/-- What a caller relies on for some bytes and an integer of some size. -/
structure Converts (host : ByteOrder) (size : Nat) (bytes : List UInt8) :
    Prop where
  storesLe :
    ∀ object : Cells UInt8,
      object.length = size →
        ∃ stored,
          fromBytesLe host (.items bytes) (some object) size =
              .ok (Cells.written stored) ∧
            host.valueOf stored = LittleEndian.ofBytes bytes
  storesBe :
    ∀ object : Cells UInt8,
      object.length = size →
        ∃ stored,
          fromBytesBe host (.items bytes) (some object) size =
              .ok (Cells.written stored) ∧
            host.valueOf stored = LittleEndian.ofBytes bytes.reverse
  invertsLe :
    ∀ (alloc : Allocator) (value : List UInt8) (object : Cells UInt8),
      value.length = size → object.length = size →
        alloc.neocGrants size = true →
          ∃ text,
            toBytesLe host alloc (some value) size =
                .ok (Cells.written text, size) ∧
              fromBytesLe host (.items text) (some object) size =
                .ok (Cells.written value)
  invertsBe :
    ∀ (alloc : Allocator) (value : List UInt8) (object : Cells UInt8),
      value.length = size → object.length = size →
        alloc.neocGrants size = true →
          ∃ text,
            toBytesBe host alloc (some value) size =
                .ok (Cells.written text, size) ∧
              fromBytesBe host (.items text) (some object) size =
                .ok (Cells.written value)
  agreesLe :
    size = 8 →
      ∀ (object : Cells UInt8) (stored : List UInt8),
        object.length = size →
          fromBytesLe host (.items bytes) (some object) size =
              .ok (Cells.written stored) →
            bytesToUint64Le (.items bytes) =
              .ok (UInt64.ofNat (host.valueOf stored))
  agreesBe :
    size = 8 →
      ∀ (object : Cells UInt8) (stored : List UInt8),
        object.length = size →
          fromBytesBe host (.items bytes) (some object) size =
              .ok (Cells.written stored) →
            bytesToUint64Be (.items bytes) =
              .ok (UInt64.ofNat (host.valueOf stored))

/-- Bytes that were arranged for one order are arranged back. -/
theorem arranged_arranged (first second : Prop) [Decidable first]
    [Decidable second] (same : first ↔ second) (bytes : List UInt8) :
    arranged first (arranged second bytes) = bytes := by
  rw [arranged, arranged]
  by_cases holds : second
  · rw [if_pos holds, if_pos (same.mpr holds)]
  · rw [if_neg holds, if_neg (fun other => holds (same.mp other)),
      List.reverse_reverse]

/-- Either conversion back is the inverse of the conversion. -/
theorem fromBytes_copyBytes (host : ByteOrder) {alloc : Allocator}
    {value : List UInt8} {object : Cells UInt8} (positive : value ≠ [])
    (same : object.length = value.length)
    (granted : alloc.neocGrants value.length = true) (little : Bool) :
    ∃ text,
      copyBytes host alloc (some value) value.length little =
          .ok (Cells.written text, value.length) ∧
        fromBytes host (.items text) (some object) value.length little =
          .ok (Cells.written value) := by
  refine ⟨_, copyBytes_eq positive granted little, ?_⟩
  have length :
      (arranged (isLittleEndian host = little) value).length =
        value.length := by
    rw [arranged]
    split
    · rfl
    · exact List.length_reverse
  have some : arranged (isLittleEndian host = little) value ≠ [] := by
    intro empty
    rw [empty] at length
    exact positive (List.length_eq_zero_iff.mp length.symm)
  have stored :=
    @fromBytes_eq host _ object some (by omega) little
  rw [length, same, Nat.sub_self, List.replicate_zero, List.append_nil,
    arranged_arranged _ _ eq_comm] at stored
  exact stored

/--
The conversions do what a caller relies on, on both kinds of hosts, exactly
where there are as many bytes as the integer has, or all are zeros.
-/
theorem converts_bytes_iff (host : ByteOrder) (size : Nat) (bytes : List UInt8)
    (positive : bytes ≠ []) (short : bytes.length ≤ size) :
    Converts host size bytes ↔
      bytes.length = size ∨ ∀ byte ∈ bytes, byte = 0 := by
  have storedLe {object : Cells UInt8} (length : object.length = size) :
      fromBytesLe host (.items bytes) (some object) size = _ :=
    length ▸ fromBytes_eq positive (length.symm ▸ short) true
  have storedBe {object : Cells UInt8} (length : object.length = size) :
      fromBytesBe host (.items bytes) (some object) size = _ :=
    length ▸ fromBytes_eq positive (length.symm ▸ short) false
  have long : 0 < size := by
    have some := List.length_pos_of_ne_nil positive
    omega
  have inverts (little : Bool) (alloc : Allocator) (value : List UInt8)
      (object : Cells UInt8) (valueLength : value.length = size)
      (objectLength : object.length = size)
      (granted : alloc.neocGrants size = true) :
      ∃ text,
        copyBytes host alloc (some value) size little =
            .ok (Cells.written text, size) ∧
          fromBytes host (.items text) (some object) size little =
            .ok (Cells.written value) := by
    subst valueLength
    exact
      fromBytes_copyBytes host (List.ne_nil_of_length_pos long) objectLength
        granted little
  constructor
  · intro converts
    rcases converts.storesBe (Cells.fresh size) (by simp) with
      ⟨stored, ran, value⟩
    rw [storedBe (by simp)] at ran
    injection ran with same
    rw [← Cells.written_inj.mp same, valueOf_be] at value
    by_cases full : bytes.length = size
    · exact .inl full
    · refine .inr ?_
      have zero : LittleEndian.ofBytes bytes.reverse = 0 := by
        have factor : 1 < 256 ^ (size - bytes.length) :=
          Nat.one_lt_pow (by omega) (by decide)
        have doubled :=
          Nat.mul_le_mul_right (LittleEndian.ofBytes bytes.reverse) factor
        omega
      have all := (ofBytes_eq_zero_iff bytes.reverse).mp zero
      exact fun byte member => all byte (List.mem_reverse.mpr member)
  · intro condition
    have value :
        256 ^ (size - bytes.length) * LittleEndian.ofBytes bytes.reverse =
          LittleEndian.ofBytes bytes.reverse := by
      rcases condition with full | zeros
      · rw [full, Nat.sub_self, Nat.pow_zero, Nat.one_mul]
      · have zero : LittleEndian.ofBytes bytes.reverse = 0 :=
          (ofBytes_eq_zero_iff _).mpr fun byte member =>
            zeros byte (List.mem_reverse.mp member)
        rw [zero, Nat.mul_zero]
    refine ⟨?_, ?_, inverts true, inverts false, ?_, ?_⟩
    · intro object length
      exact ⟨_, storedLe length, valueOf_le host bytes _⟩
    · intro object length
      exact ⟨_, storedBe length, (valueOf_be host bytes _).trans value⟩
    · intro eight object stored length ran
      rw [storedLe length] at ran
      injection ran with same
      rw [← Cells.written_inj.mp same, valueOf_le, bytesToUint64Le]
      rw [if_neg (by omega)]
      congr 1
      apply UInt64.toNat_inj.mp
      rw [toNat_ofNat_size (ofBytes_small (by omega)),
        @toNat_addLe bytes 0 0 (by omega) (by decide)]
      simp
    · intro eight object stored length ran
      rw [storedBe length] at ran
      injection ran with same
      rw [← Cells.written_inj.mp same, valueOf_be, value, bytesToUint64Be]
      rw [if_neg (by omega)]
      congr 1
      apply UInt64.toNat_inj.mp
      rw [toNat_ofNat_size
        (ofBytes_small (by rw [List.length_reverse]; omega)),
        @toNat_addBe bytes 0 0 (by omega) (by decide)]
      simp

theorem converts_eight :
    Converts .big 8 [1, 2, 3, 4, 5, 6, 7, 8] :=
  (converts_bytes_iff .big 8 [1, 2, 3, 4, 5, 6, 7, 8] (by decide)
    (by decide)).mpr (.inl rfl)

/-- A single byte with the highest byte first is stored as 2 to the 56th. -/
theorem converts_too_large :
    fromBytesBe .little (.items [1]) (some (Cells.fresh 8)) 8 =
        .ok (Cells.written [0, 0, 0, 0, 0, 0, 0, 1]) ∧
      ByteOrder.little.valueOf [0, 0, 0, 0, 0, 0, 0, 1] = 2 ^ 56 ∧
      LittleEndian.ofBytes [1] = 1 ∧
      bytesToUint64Be (.items [1]) = .ok 1 ∧
      ¬ Converts .little 8 [1] := by
  refine ⟨by decide, by decide, by decide, by decide, ?_⟩
  intro converts
  rcases converts.storesBe (Cells.fresh 8) rfl with ⟨stored, ran, value⟩
  have left :
      fromBytesBe .little (.items [1]) (some (Cells.fresh 8)) 8 =
        .ok (Cells.written [0, 0, 0, 0, 0, 0, 0, 1]) := by
    decide
  rw [left] at ran
  injection ran with same
  rw [← Cells.written_inj.mp same] at value
  exact absurd value (by decide)

end Numeric

end NeoC
