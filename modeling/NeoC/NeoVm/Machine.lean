import NeoC.Foundation.LittleEndian
import Mathlib.Algebra.Order.BigOperators.Group.List
import Mathlib.Tactic.IntervalCases

/-!
# A stack machine for straight-line NeoVM scripts

Scripts that build arguments and call a service push constants, pack them into
arrays and maps, and end in a `SYSCALL`.  This module gives the meaning of
that fragment: the byte form of each instruction, its effect on the evaluation
stack, and the run of a script up to its first `SYSCALL` or its end.  A script
with any other opcode faults here.

A script that was assembled from instructions can be run instruction by
instruction (`run_assemble`), so that a code generator is judged by the
instructions it emits.
-/

namespace NeoC.NeoVm

open Foundation

/-! ## Stack items -/

/-- The items that may serve as keys of a map. -/
inductive Primitive where
  | integer (value : Int)
  | byteString (bytes : List UInt8)
deriving DecidableEq, Repr

/-- The items of the evaluation stack.  The newest binding of a map is first. -/
inductive StackItem where
  | null
  | primitive (value : Primitive)
  | array (items : List StackItem)
  | map (entries : List (Primitive × StackItem))

namespace StackItem

/-- An integer item. -/
abbrev integer (value : Int) : StackItem :=
  .primitive (.integer value)

/-- A byte string item. -/
abbrev byteString (bytes : List UInt8) : StackItem :=
  .primitive (.byteString bytes)

/-- The condition `ASSERT` tests. -/
def isTrue : StackItem → Bool
  | .null => false
  | .primitive (.integer value) => value != 0
  | .primitive (.byteString bytes) => bytes.any (· != 0)
  | .array _ => true
  | .map _ => true

mutual

/-- All primitive items inside an item, keys included. -/
def primitives : StackItem → List Primitive
  | .null => []
  | .primitive value => [value]
  | .array items => primitivesOfItems items
  | .map entries => primitivesOfEntries entries

/-- All primitive items inside the elements of an array. -/
def primitivesOfItems : List StackItem → List Primitive
  | [] => []
  | item :: rest => primitives item ++ primitivesOfItems rest

/-- All primitive items inside the bindings of a map. -/
def primitivesOfEntries : List (Primitive × StackItem) → List Primitive
  | [] => []
  | (key, value) :: rest =>
      key :: primitives value ++ primitivesOfEntries rest

end

theorem primitivesOfItems_eq (items : List StackItem) :
    primitivesOfItems items = items.flatMap primitives := by
  induction items with
  | nil => rfl
  | cons item rest induction =>
      rw [primitivesOfItems, induction, List.flatMap_cons]

theorem primitivesOfEntries_eq (entries : List (Primitive × StackItem)) :
    primitivesOfEntries entries =
      entries.flatMap fun entry => entry.1 :: primitives entry.2 := by
  induction entries with
  | nil => rfl
  | cons entry rest induction =>
      rw [primitivesOfEntries, induction, List.flatMap_cons]

@[simp]
theorem primitives_array (items : List StackItem) :
    primitives (.array items) = items.flatMap primitives := by
  rw [primitives, primitivesOfItems_eq]

@[simp]
theorem primitives_map (entries : List (Primitive × StackItem)) :
    primitives (.map entries) =
      entries.flatMap fun entry => entry.1 :: primitives entry.2 := by
  rw [primitives, primitivesOfEntries_eq]

end StackItem

/-- Bind a key in a map, dropping the binding it had. -/
def put (key : Primitive) (value : StackItem)
    (entries : List (Primitive × StackItem)) :
    List (Primitive × StackItem) :=
  (key, value) :: entries.filter fun entry => decide (entry.1 ≠ key)

theorem mem_put {key : Primitive} {value : StackItem}
    {entries : List (Primitive × StackItem)} {entry : Primitive × StackItem}
    (member : entry ∈ put key value entries) :
    entry = (key, value) ∨ entry ∈ entries := by
  rcases List.mem_cons.mp member with equal | older
  · exact .inl equal
  · exact .inr (List.mem_of_mem_filter older)

theorem put_of_fresh {key : Primitive} (value : StackItem)
    {entries : List (Primitive × StackItem)}
    (fresh : key ∉ entries.map Prod.fst) :
    put key value entries = (key, value) :: entries := by
  rw [put, List.filter_eq_self.mpr]
  intro entry member
  have different : entry.1 ≠ key := by
    rintro rfl
    exact fresh (List.mem_map_of_mem member)
  simp [different]

/-! ## The bytes inside an item -/

/-- The length of a byte string; integers count nothing. -/
def Primitive.size : Primitive → Nat
  | .integer _ => 0
  | .byteString bytes => bytes.length

/-- The total length of the byte strings in an item. -/
def StackItem.weight (item : StackItem) : Nat :=
  (item.primitives.map Primitive.size).sum

theorem weight_primitive (value : Primitive) :
    (StackItem.primitive value).weight = value.size := by
  simp [StackItem.weight, StackItem.primitives]

theorem weight_array (items : List StackItem) :
    (StackItem.array items).weight = (items.map StackItem.weight).sum := by
  rw [StackItem.weight, StackItem.primitives_array]
  induction items with
  | nil => rfl
  | cons item rest induction =>
      rw [List.flatMap_cons, List.map_append, List.sum_append, induction]
      rfl

theorem weight_map (entries : List (Primitive × StackItem)) :
    (StackItem.map entries).weight =
      (entries.map fun entry => entry.1.size + entry.2.weight).sum := by
  rw [StackItem.weight, StackItem.primitives_map]
  induction entries with
  | nil => rfl
  | cons entry rest induction =>
      rw [List.flatMap_cons, List.map_append, List.sum_append, induction]
      rfl

/-- Binding a key adds no more than the key and the value. -/
theorem weight_put_le (key : Primitive) (value : StackItem)
    (entries : List (Primitive × StackItem)) :
    (StackItem.map (put key value entries)).weight ≤
      key.size + value.weight + (StackItem.map entries).weight := by
  rw [weight_map, weight_map, put, List.map_cons, List.sum_cons]
  have fewer :
      List.Sublist (entries.filter fun entry => decide (entry.1 ≠ key))
        entries :=
    List.filter_sublist
  have lighter :=
    (fewer.map fun entry => entry.1.size + entry.2.weight).sum_le_sum
      fun _ _ => Nat.zero_le _
  dsimp only
  omega

/-! ## Instructions -/

/-- The instructions of the fragment. -/
inductive Instruction where
  | pushInt (value : Int)
  | pushData (bytes : List UInt8)
  | pushNull
  | newArray0
  | newMap
  | pack
  | packMap
  | assert
  | syscall (service : UInt32)
deriving DecidableEq, Repr

namespace Instruction

/-- The shortest byte form of an instruction. -/
def encode : Instruction → List UInt8
  | .pushInt value =>
      if value = -1 then
        [0x0F]
      else if 0 ≤ value ∧ value ≤ 16 then
        [UInt8.ofNat (0x10 + value.toNat)]
      else if -128 ≤ value ∧ value ≤ 127 then
        0x00 :: LittleEndian.toBytesSigned 1 value
      else if -32768 ≤ value ∧ value ≤ 32767 then
        0x01 :: LittleEndian.toBytesSigned 2 value
      else if -2147483648 ≤ value ∧ value ≤ 2147483647 then
        0x02 :: LittleEndian.toBytesSigned 4 value
      else
        0x03 :: LittleEndian.toBytesSigned 8 value
  | .pushData bytes =>
      if bytes.length ≤ 0xFF then
        0x0C :: (LittleEndian.toBytes 1 bytes.length ++ bytes)
      else if bytes.length ≤ 0xFFFF then
        0x0D :: (LittleEndian.toBytes 2 bytes.length ++ bytes)
      else
        0x0E :: (LittleEndian.toBytes 4 bytes.length ++ bytes)
  | .pushNull => [0x0B]
  | .newArray0 => [0xC2]
  | .newMap => [0xC8]
  | .pack => [0xC0]
  | .packMap => [0xBE]
  | .assert => [0x39]
  | .syscall service => 0x41 :: LittleEndian.toBytes 4 service.toNat

/-- The operand fits the byte form. -/
def Encodable : Instruction → Prop
  | .pushInt value =>
      -9223372036854775808 ≤ value ∧ value ≤ 9223372036854775807
  | .pushData bytes => bytes.length < 0x100000000
  | _ => True

end Instruction

/-- The bytes of a program. -/
def assemble (program : List Instruction) : List UInt8 :=
  program.flatMap Instruction.encode

/-- Split off an operand of fixed size. -/
def operand (size : Nat) (code : List UInt8) :
    Option (List UInt8 × List UInt8) :=
  if size ≤ code.length then some (code.take size, code.drop size) else none

/-- Split off a byte string that follows its own length. -/
def counted (width : Nat) (code : List UInt8) :
    Option (Instruction × List UInt8) :=
  match operand width code with
  | none => none
  | some (size, rest) =>
      match operand (LittleEndian.ofBytes size) rest with
      | none => none
      | some (bytes, rest') => some (.pushData bytes, rest')

/-- What follows an opcode in the script. -/
inductive Layout where
  | bare (instruction : Instruction)
  | small
  | integer (width : Nat)
  | string (width : Nat)
  | service

/-- The opcodes that stand for one instruction each. -/
def bareOpcodes : List (Nat × Instruction) :=
  [(0x0B, .pushNull), (0x39, .assert), (0xBE, .packMap), (0xC0, .pack),
    (0xC2, .newArray0), (0xC8, .newMap)]

/-- The opcodes of the fragment. -/
def layout (opcode : Nat) : Option Layout :=
  if opcode ≤ 0x05 then some (.integer (2 ^ opcode))
  else if opcode = 0x0C then some (.string 1)
  else if opcode = 0x0D then some (.string 2)
  else if opcode = 0x0E then some (.string 4)
  else if 0x0F ≤ opcode ∧ opcode ≤ 0x20 then some .small
  else if opcode = 0x41 then some .service
  else (bareOpcodes.lookup opcode).map Layout.bare

/-- The first instruction of a script and what follows it. -/
def decode : List UInt8 → Option (Instruction × List UInt8)
  | [] => none
  | opcode :: rest =>
      match layout opcode.toNat with
      | none => none
      | some (.bare instruction) => some (instruction, rest)
      | some .small => some (.pushInt ((opcode.toNat : Int) - 0x10), rest)
      | some (.integer width) =>
          match operand width rest with
          | none => none
          | some (bytes, rest') =>
              some (.pushInt (LittleEndian.ofBytesSigned bytes), rest')
      | some (.string width) => counted width rest
      | some .service =>
          match operand 4 rest with
          | none => none
          | some (bytes, rest') =>
              some
                (.syscall (UInt32.ofNat (LittleEndian.ofBytes bytes)), rest')

/-! ## Execution -/

/-- Pop bindings for a map, the key before its value. -/
def popEntries :
    Nat → List StackItem → List (Primitive × StackItem) →
      Option (List StackItem)
  | 0, stack, entries => some (.map entries :: stack)
  | count + 1, .primitive key :: value :: stack, entries =>
      popEntries count stack (put key value entries)
  | _ + 1, _, _ => none

/-- The effect of an instruction on the stack; `SYSCALL` ends the run. -/
def execute : Instruction → List StackItem → Option (List StackItem)
  | .pushInt value, stack => some (.integer value :: stack)
  | .pushData bytes, stack => some (.byteString bytes :: stack)
  | .pushNull, stack => some (.null :: stack)
  | .newArray0, stack => some (.array [] :: stack)
  | .newMap, stack => some (.map [] :: stack)
  | .pack, .primitive (.integer count) :: stack =>
      if 0 ≤ count ∧ count.toNat ≤ stack.length then
        some (.array (stack.take count.toNat) :: stack.drop count.toNat)
      else
        none
  | .packMap, .primitive (.integer count) :: stack =>
      if 0 ≤ count then popEntries count.toNat stack [] else none
  | .assert, item :: stack => if item.isTrue then some stack else none
  | _, _ => none

/-- Why a run ended without a fault. -/
inductive Stop where
  | finished
  | syscall (service : UInt32)
deriving DecidableEq, Repr

/-- Run a program up to its first `SYSCALL`. -/
def runProgram :
    List Instruction → List StackItem → Option (Stop × List StackItem)
  | [], stack => some (.finished, stack)
  | .syscall service :: _, stack => some (.syscall service, stack)
  | instruction :: rest, stack =>
      (execute instruction stack).bind (runProgram rest)

/-- Run a script for a number of instructions at most. -/
def runFor :
    Nat → List UInt8 → List StackItem → Option (Stop × List StackItem)
  | 0, _, _ => none
  | _ + 1, [], stack => some (.finished, stack)
  | fuel + 1, byte :: code, stack =>
      match decode (byte :: code) with
      | none => none
      | some (.syscall service, _) => some (.syscall service, stack)
      | some (instruction, rest) =>
          (execute instruction stack).bind (runFor fuel rest)

/-- Run a script up to its first `SYSCALL` or its end. -/
def run (code : List UInt8) (stack : List StackItem) :
    Option (Stop × List StackItem) :=
  runFor (code.length + 1) code stack

/-! ## Assembled programs run as their instructions -/

theorem operand_append {size : Nat} {bytes rest : List UInt8}
    (exact : bytes.length = size) :
    operand size (bytes ++ rest) = some (bytes, rest) := by
  subst exact
  simp [operand]

theorem counted_append {width : Nat} {bytes rest : List UInt8}
    (fits : bytes.length < 256 ^ width) :
    counted width
        (LittleEndian.toBytes width bytes.length ++ bytes ++ rest) =
      some (.pushData bytes, rest) := by
  rw [counted, List.append_assoc,
    operand_append (LittleEndian.length_toBytes width bytes.length)]
  dsimp only
  rw [LittleEndian.ofBytes_toBytes_of_lt fits, operand_append rfl]

theorem decode_pushInt_operand {width : Nat} {value : Int}
    (rest : List UInt8)
    (low : -(256 ^ width : Nat) ≤ 2 * value)
    (high : 2 * value < (256 ^ width : Nat)) {opcode : UInt8}
    (wide : layout opcode.toNat = some (.integer width)) :
    decode (opcode :: LittleEndian.toBytesSigned width value ++ rest) =
      some (.pushInt value, rest) := by
  rw [List.cons_append, decode, wide]
  dsimp only
  rw [operand_append (LittleEndian.length_toBytesSigned width value)]
  dsimp only
  rw [LittleEndian.ofBytesSigned_toBytesSigned low high]

theorem decode_small {value : Int} (rest : List UInt8)
    (low : 0 ≤ value) (high : value ≤ 16) :
    decode (UInt8.ofNat (0x10 + value.toNat) :: rest) =
      some (.pushInt value, rest) := by
  obtain ⟨small, rfl⟩ := Int.eq_ofNat_of_zero_le low
  have bounded : small ≤ 16 := by omega
  interval_cases small <;> rfl

theorem decode_pushInt {value : Int} (rest : List UInt8)
    (fits : (Instruction.pushInt value).Encodable) :
    decode ((Instruction.pushInt value).encode ++ rest) =
      some (.pushInt value, rest) := by
  rcases fits with ⟨low, high⟩
  rw [Instruction.encode]
  split_ifs with minusOne small one two four
  · subst minusOne
    rfl
  · exact decode_small rest small.1 small.2
  · exact
      decode_pushInt_operand rest (by omega) (by omega) rfl
  · exact
      decode_pushInt_operand rest (by omega) (by omega) rfl
  · exact
      decode_pushInt_operand rest (by omega) (by omega) rfl
  · exact
      decode_pushInt_operand rest (by omega) (by omega) rfl

theorem decode_pushData {bytes : List UInt8} (rest : List UInt8)
    (fits : (Instruction.pushData bytes).Encodable) :
    decode ((Instruction.pushData bytes).encode ++ rest) =
      some (.pushData bytes, rest) := by
  have bounded : bytes.length < 0x100000000 := fits
  rw [Instruction.encode]
  split_ifs with one two
  · exact @counted_append 1 bytes rest (by omega)
  · exact @counted_append 2 bytes rest (by omega)
  · exact @counted_append 4 bytes rest (by omega)

/-- Decoding is inverse to assembling, whatever follows. -/
theorem decode_encode {instruction : Instruction} (rest : List UInt8)
    (fits : instruction.Encodable) :
    decode (instruction.encode ++ rest) = some (instruction, rest) := by
  cases instruction with
  | pushInt value => exact decode_pushInt rest fits
  | pushData bytes => exact decode_pushData rest fits
  | pushNull => rfl
  | newArray0 => rfl
  | newMap => rfl
  | pack => rfl
  | packMap => rfl
  | assert => rfl
  | syscall service =>
      have small : service.toNat < 256 ^ 4 := service.toNat_lt
      have read :
          operand 4 (LittleEndian.toBytes 4 service.toNat ++ rest) =
            some (LittleEndian.toBytes 4 service.toNat, rest) :=
        operand_append (LittleEndian.length_toBytes 4 _)
      have service : layout (UInt8.toNat 0x41) = some .service := rfl
      rw [Instruction.encode, List.cons_append, decode, service]
      dsimp only
      rw [read]
      dsimp only
      rw [LittleEndian.ofBytes_toBytes_of_lt small, UInt32.ofNat_toNat]

theorem encode_ne_nil (instruction : Instruction) :
    instruction.encode ≠ [] := by
  cases instruction with
  | pushInt value => rw [Instruction.encode]; split_ifs <;> simp
  | pushData bytes => rw [Instruction.encode]; split_ifs <;> simp
  | _ => simp [Instruction.encode]

theorem assemble_cons (instruction : Instruction)
    (program : List Instruction) :
    assemble (instruction :: program) =
      instruction.encode ++ assemble program :=
  rfl

theorem assemble_append (first second : List Instruction) :
    assemble (first ++ second) = assemble first ++ assemble second :=
  List.flatMap_append

theorem length_le_assemble (program : List Instruction) :
    program.length ≤ (assemble program).length := by
  induction program with
  | nil => exact Nat.zero_le _
  | cons instruction program induction =>
      have positive := List.length_pos_iff.mpr (encode_ne_nil instruction)
      rw [assemble_cons, List.length_append, List.length_cons]
      omega

theorem length_encode_le_assemble {program : List Instruction}
    {instruction : Instruction} (member : instruction ∈ program) :
    instruction.encode.length ≤ (assemble program).length := by
  rw [assemble, List.length_flatMap]
  exact
    List.le_sum_of_mem
      (List.mem_map_of_mem (f := fun other => other.encode.length) member)

theorem runFor_assemble {program : List Instruction} {fuel : Nat}
    (encodable : ∀ instruction ∈ program, instruction.Encodable)
    (enough : program.length < fuel) (stack : List StackItem) :
    runFor fuel (assemble program) stack = runProgram program stack := by
  induction program generalizing fuel stack with
  | nil =>
      obtain ⟨fuel, rfl⟩ := Nat.exists_eq_succ_of_ne_zero (by omega : fuel ≠ 0)
      rfl
  | cons instruction program induction =>
      obtain ⟨fuel, rfl⟩ := Nat.exists_eq_succ_of_ne_zero (by omega : fuel ≠ 0)
      rw [List.length_cons] at enough
      have decoded :=
        decode_encode (assemble program)
          (encodable instruction (List.mem_cons_self ..))
      have rest :=
        fun stack' =>
          induction
            (fun other member =>
              encodable other (List.mem_cons_of_mem _ member))
            (by omega : program.length < fuel) stack'
      rw [assemble_cons]
      rcases bytes : instruction.encode ++ assemble program with
        _ | ⟨byte, code⟩
      · exact absurd (List.append_eq_nil_iff.mp bytes).1
          (encode_ne_nil instruction)
      · rw [bytes] at decoded
        rw [runFor, decoded]
        cases instruction with
        | syscall service => rfl
        | _ =>
            rw [runProgram]
            · dsimp only
              congr 1
              funext stack'
              exact rest stack'
            · simp

/-- An assembled program runs as its instructions say. -/
theorem run_assemble {program : List Instruction}
    (encodable : ∀ instruction ∈ program, instruction.Encodable)
    (stack : List StackItem) :
    run (assemble program) stack = runProgram program stack :=
  runFor_assemble encodable
    (Nat.lt_succ_of_le (length_le_assemble program)) stack

/-! ## Running a sequence -/

/-- The stack after a program without `SYSCALL`. -/
def executeAll :
    List Instruction → List StackItem → Option (List StackItem)
  | [], stack => some stack
  | instruction :: rest, stack =>
      (execute instruction stack).bind (executeAll rest)

theorem executeAll_append (first second : List Instruction)
    (stack : List StackItem) :
    executeAll (first ++ second) stack =
      (executeAll first stack).bind (executeAll second) := by
  induction first generalizing stack with
  | nil => rfl
  | cons instruction first induction =>
      rw [List.cons_append, executeAll, executeAll]
      cases execute instruction stack with
      | none => rfl
      | some stack' => exact induction stack'

/-- An instruction that does not end the run. -/
def Instruction.Plain : Instruction → Prop
  | .syscall _ => False
  | _ => True

theorem runProgram_append {first : List Instruction}
    (plain : ∀ instruction ∈ first, instruction.Plain)
    (second : List Instruction) (stack : List StackItem) :
    runProgram (first ++ second) stack =
      (executeAll first stack).bind (runProgram second) := by
  induction first generalizing stack with
  | nil => rfl
  | cons instruction first induction =>
      have plainHead := plain instruction (List.mem_cons_self ..)
      have step :
          runProgram (instruction :: (first ++ second)) stack =
            (execute instruction stack).bind
              (runProgram (first ++ second)) := by
        cases instruction with
        | syscall service => exact absurd plainHead id
        | _ => rfl
      rw [List.cons_append, step, executeAll]
      cases execute instruction stack with
      | none => rfl
      | some stack' =>
          exact
            induction
              (fun other member => plain other (List.mem_cons_of_mem _ member))
              stack'

/-- Packing takes as many items as the count on top says, in stack order. -/
theorem execute_pack (items stack : List StackItem) :
    execute .pack (.integer items.length :: (items ++ stack)) =
      some (.array items :: stack) := by
  rw [execute, if_pos]
  · rw [Int.toNat_natCast, List.take_left, List.drop_left]
  · rw [Int.toNat_natCast, List.length_append]
    omega

/-! ## No item holds a longer string than a script can push -/

/-- Every byte string in the item is shorter than `2 ^ 32` bytes. -/
def Pushable (item : StackItem) : Prop :=
  ∀ bytes, Primitive.byteString bytes ∈ item.primitives →
    bytes.length < 0x100000000

theorem operand_length {size : Nat} {code bytes rest : List UInt8}
    (split : operand size code = some (bytes, rest)) :
    bytes.length = size := by
  unfold operand at split
  split at split
  · injection split with equal
    rw [← (Prod.mk.inj equal).1, List.length_take]
    omega
  · cases split

theorem counted_length_lt {width : Nat} {code bytes rest : List UInt8}
    (narrow : width ≤ 4)
    (read : counted width code = some (.pushData bytes, rest)) :
    bytes.length < 0x100000000 := by
  unfold counted at read
  split at read
  · cases read
  · rename_i size middle first
    split at read
    · cases read
    · rename_i data last second
      injection read with equal
      have same : data = bytes := by
        injection (Prod.mk.inj equal).1
      subst same
      have bounded := LittleEndian.ofBytes_lt size
      rw [operand_length first] at bounded
      rw [operand_length second]
      calc
        LittleEndian.ofBytes size < 256 ^ width := bounded
        _ ≤ 256 ^ 4 := Nat.pow_le_pow_right (by decide) narrow

theorem layout_string {opcode width : Nat}
    (found : layout opcode = some (.string width)) :
    width ≤ 4 := by
  unfold layout at found
  split_ifs at found
  all_goals simp at found
  all_goals omega

theorem layout_bare {opcode : Nat} {instruction : Instruction}
    (found : layout opcode = some (.bare instruction)) :
    (opcode, instruction) ∈ bareOpcodes := by
  unfold layout at found
  split_ifs at found
  all_goals simp at found
  rcases List.lookup_eq_some_iff.mp found with ⟨before, after, split, -⟩
  rw [split]
  simp

/-- The length of a pushed string is read from at most four bytes. -/
theorem decode_length_lt {code bytes rest : List UInt8}
    (read : decode code = some (.pushData bytes, rest)) :
    bytes.length < 0x100000000 := by
  cases code with
  | nil => cases read
  | cons opcode code =>
      rw [decode] at read
      split at read
      · cases read
      · rename_i instruction found
        injection read with equal
        rw [(Prod.mk.inj equal).1] at found
        simpa [bareOpcodes] using layout_bare found
      · cases read
      · split at read <;> cases read
      · rename_i width found
        exact counted_length_lt (layout_string found) read
      · split at read <;> cases read

/-- Every item of the stack is pushable. -/
def AllPushable (stack : List StackItem) : Prop :=
  ∀ item ∈ stack, Pushable item

theorem AllPushable.cons {item : StackItem} {stack : List StackItem}
    (tail : AllPushable stack) (head : Pushable item) :
    AllPushable (item :: stack) := by
  intro other member
  rcases List.mem_cons.mp member with rfl | inTail
  · exact head
  · exact tail other inTail

theorem pushable_array {items : List StackItem}
    (pushable : AllPushable items) :
    Pushable (.array items) := by
  intro bytes member
  rw [StackItem.primitives_array, List.mem_flatMap] at member
  rcases member with ⟨item, inItems, inItem⟩
  exact pushable item inItems bytes inItem

theorem pushable_put {key : Primitive} {value : StackItem}
    {entries : List (Primitive × StackItem)}
    (keyPushable : Pushable (.primitive key))
    (valuePushable : Pushable value)
    (entriesPushable : Pushable (.map entries)) :
    Pushable (.map (put key value entries)) := by
  intro bytes member
  rw [StackItem.primitives_map, List.mem_flatMap] at member
  rcases member with ⟨entry, inEntries, inEntry⟩
  rcases mem_put inEntries with rfl | older
  · rcases List.mem_cons.mp inEntry with inKey | inValue
    · exact keyPushable bytes (by simpa [StackItem.primitives] using inKey)
    · exact valuePushable bytes inValue
  · apply entriesPushable bytes
    rw [StackItem.primitives_map, List.mem_flatMap]
    exact ⟨entry, older, inEntry⟩

theorem popEntries_pushable {count : Nat} {stack stack' : List StackItem}
    {entries : List (Primitive × StackItem)}
    (pushable : AllPushable stack) (bound : Pushable (.map entries))
    (popped : popEntries count stack entries = some stack') :
    AllPushable stack' := by
  induction count generalizing stack entries with
  | zero =>
      injection popped with equal
      subst equal
      exact pushable.cons bound
  | succ count induction =>
      match stack, popped with
      | .primitive key :: value :: rest, popped =>
          rw [popEntries] at popped
          refine induction ?_ ?_ popped
          · intro item member
            exact pushable item
              (List.mem_cons_of_mem _ (List.mem_cons_of_mem _ member))
          · exact
              pushable_put (pushable _ (by simp)) (pushable _ (by simp)) bound

theorem pushable_of_no_strings {item : StackItem}
    (none : ∀ bytes, Primitive.byteString bytes ∉ item.primitives) :
    Pushable item :=
  fun bytes member => absurd member (none bytes)

/-- Instructions rearrange the strings of the stack and push short ones. -/
theorem execute_pushable {instruction : Instruction}
    {stack stack' : List StackItem}
    (short :
      ∀ bytes, instruction = .pushData bytes → bytes.length < 0x100000000)
    (pushable : AllPushable stack)
    (ran : execute instruction stack = some stack') :
    AllPushable stack' := by
  unfold execute at ran
  split at ran
  · cases ran
    exact pushable.cons (pushable_of_no_strings (by simp [StackItem.primitives]))
  · cases ran
    apply pushable.cons
    intro bytes member
    simp only [StackItem.primitives, List.mem_singleton,
      Primitive.byteString.injEq] at member
    exact short bytes (by rw [member])
  · cases ran
    exact pushable.cons (pushable_of_no_strings (by simp [StackItem.primitives]))
  · cases ran
    exact pushable.cons (pushable_of_no_strings (by simp))
  · cases ran
    exact pushable.cons (pushable_of_no_strings (by simp))
  · rename_i count stack
    split at ran
    · cases ran
      have tail : AllPushable stack :=
        fun item member => pushable item (List.mem_cons_of_mem _ member)
      apply AllPushable.cons
      · exact fun item member => tail item (List.mem_of_mem_drop member)
      · exact pushable_array fun item member =>
          tail item (List.mem_of_mem_take member)
    · cases ran
  · split at ran
    · refine popEntries_pushable ?_ (pushable_of_no_strings (by simp)) ran
      exact fun item member => pushable item (List.mem_cons_of_mem _ member)
    · cases ran
  · split at ran
    · cases ran
      exact fun item member => pushable item (List.mem_cons_of_mem _ member)
    · cases ran
  · cases ran

/-- No run of a script leaves a longer string than a script can push. -/
theorem runFor_pushable {fuel : Nat} {code : List UInt8}
    {stack stack' : List StackItem} {stop : Stop}
    (pushable : AllPushable stack)
    (ran : runFor fuel code stack = some (stop, stack')) :
    AllPushable stack' := by
  induction fuel generalizing code stack with
  | zero => cases ran
  | succ fuel induction =>
      cases code with
      | nil =>
          cases ran
          exact pushable
      | cons byte code =>
          rw [runFor] at ran
          split at ran
          · cases ran
          · cases ran
            exact pushable
          · rename_i instruction rest decoded
            rcases Option.bind_eq_some_iff.mp ran with ⟨middle, first, later⟩
            refine induction (execute_pushable ?_ pushable first) later
            rintro bytes rfl
            exact decode_length_lt decoded

/-! ## One script after another -/

theorem operand_split {size : Nat} {code bytes rest : List UInt8}
    (split : operand size code = some (bytes, rest)) :
    code = bytes ++ rest ∧ bytes.length = size := by
  refine ⟨?_, operand_length split⟩
  unfold operand at split
  split at split
  · injection split with equal
    rw [← (Prod.mk.inj equal).1, ← (Prod.mk.inj equal).2,
      List.take_append_drop]
  · cases split

theorem counted_split {width : Nat} {code rest : List UInt8}
    {instruction : Instruction}
    (read : counted width code = some (instruction, rest)) :
    ∃ used,
      code = used ++ rest ∧
        ∀ more, counted width (used ++ more) = some (instruction, more) := by
  unfold counted at read
  split at read
  · cases read
  · rename_i size middle first
    split at read
    · cases read
    · rename_i bytes last second
      injection read with equal
      rcases Prod.mk.inj equal with ⟨rfl, rfl⟩
      rcases operand_split first with ⟨rfl, exactSize⟩
      rcases operand_split second with ⟨rfl, exactBytes⟩
      refine ⟨size ++ bytes, (List.append_assoc _ _ _).symm, ?_⟩
      intro more
      rw [counted, List.append_assoc, operand_append exactSize]
      dsimp only
      rw [operand_append exactBytes]

/-- An instruction is read from the front of the script and no further. -/
theorem decode_split {code rest : List UInt8} {instruction : Instruction}
    (read : decode code = some (instruction, rest)) :
    ∃ opcode used,
      code = opcode :: used ++ rest ∧
        ∀ more,
          decode (opcode :: used ++ more) = some (instruction, more) := by
  cases code with
  | nil => cases read
  | cons opcode code =>
      rw [decode] at read
      split at read
      · cases read
      · rename_i bare found
        cases read
        refine ⟨opcode, [], rfl, fun more => ?_⟩
        rw [List.cons_append, decode, found]
        rfl
      · rename_i found
        cases read
        refine ⟨opcode, [], rfl, fun more => ?_⟩
        rw [List.cons_append, decode, found]
        rfl
      · rename_i width found
        split at read
        · cases read
        · rename_i bytes rest' first
          cases read
          rcases operand_split first with ⟨rfl, exact⟩
          refine ⟨opcode, bytes, rfl, fun more => ?_⟩
          rw [List.cons_append, decode, found]
          dsimp only
          rw [operand_append exact]
      · rename_i width found
        rcases counted_split read with ⟨used, rfl, again⟩
        refine ⟨opcode, used, rfl, fun more => ?_⟩
        rw [List.cons_append, decode, found]
        exact again more
      · rename_i found
        split at read
        · cases read
        · rename_i bytes rest' first
          cases read
          rcases operand_split first with ⟨rfl, exact⟩
          refine ⟨opcode, bytes, rfl, fun more => ?_⟩
          rw [List.cons_append, decode, found]
          dsimp only
          rw [operand_append exact]

theorem decode_rest_lt {code rest : List UInt8} {instruction : Instruction}
    (read : decode code = some (instruction, rest)) :
    rest.length < code.length := by
  rcases decode_split read with ⟨opcode, used, rfl, -⟩
  rw [List.length_append, List.length_cons]
  omega

/-- Fuel beyond the length of the script makes no difference. -/
theorem runFor_enough {fuel fuel' : Nat} {code : List UInt8}
    (enough : code.length < fuel) (enough' : code.length < fuel')
    (stack : List StackItem) :
    runFor fuel code stack = runFor fuel' code stack := by
  induction fuel generalizing fuel' code stack with
  | zero => exact absurd enough (Nat.not_lt_zero _)
  | succ fuel induction =>
      cases fuel' with
      | zero => exact absurd enough' (Nat.not_lt_zero _)
      | succ fuel' =>
          cases code with
          | nil => rfl
          | cons byte code =>
              rw [runFor, runFor]
              rcases read : decode (byte :: code) with
                _ | ⟨instruction, rest⟩
              · rfl
              · have shorter := decode_rest_lt read
                have later (stack' : List StackItem) :
                    runFor fuel rest stack' = runFor fuel' rest stack' :=
                  induction (by omega) (by omega) stack'
                cases instruction with
                | syscall service => rfl
                | _ => exact congrArg (Option.bind _) (funext later)

/-- A script that reaches its end hands its stack to what follows. -/
theorem runFor_append {fuel fuel' : Nat} {code more : List UInt8}
    {stack stack' : List StackItem}
    (ran : runFor fuel code stack = some (.finished, stack'))
    (enough : (code ++ more).length < fuel') :
    runFor fuel' (code ++ more) stack = run more stack' := by
  induction fuel generalizing fuel' code stack with
  | zero => cases ran
  | succ fuel induction =>
      cases code with
      | nil =>
          cases ran
          exact runFor_enough enough (Nat.lt_succ_self _) stack'
      | cons byte code =>
          cases fuel' with
          | zero => exact absurd enough (Nat.not_lt_zero _)
          | succ fuel' =>
              rw [runFor] at ran
              rcases read : decode (byte :: code) with
                _ | ⟨instruction, rest⟩
              · rw [read] at ran
                cases ran
              · rw [read] at ran
                rcases decode_split read with ⟨opcode, used, split, again⟩
                have whole :
                    byte :: (code ++ more) =
                      opcode :: used ++ (rest ++ more) := by
                  rw [← List.cons_append, split, List.append_assoc]
                have shorter : (rest ++ more).length < fuel' := by
                  rw [List.cons_append, whole, List.length_append] at enough
                  rw [List.length_cons] at enough
                  omega
                rw [List.cons_append, runFor, whole, again]
                cases instruction with
                | syscall service => cases ran
                | _ =>
                    rcases Option.bind_eq_some_iff.mp ran with
                      ⟨middle, first, later⟩
                    dsimp only
                    rw [first]
                    exact induction later shorter

/-- Two scripts in a row run as one. -/
theorem run_append {code more : List UInt8}
    {stack stack' : List StackItem}
    (ran : run code stack = some (.finished, stack')) :
    run (code ++ more) stack = run more stack' :=
  runFor_append ran (Nat.lt_succ_self _)

/-! ## No script leaves more items than it has bytes -/

/-- Popping bindings lowers the stack by two items each. -/
theorem popEntries_length {count : Nat} {stack stack' : List StackItem}
    {bindings : List (Primitive × StackItem)}
    (popped : popEntries count stack bindings = some stack') :
    stack'.length + 2 * count = stack.length + 1 := by
  induction count generalizing stack bindings with
  | zero =>
      cases popped
      simp
  | succ count induction =>
      match stack, popped with
      | .primitive key :: value :: rest, popped =>
          have lower := induction popped
          simp only [List.length_cons]
          omega

theorem execute_length_le {instruction : Instruction}
    {stack stack' : List StackItem}
    (ran : execute instruction stack = some stack') :
    stack'.length ≤ stack.length + 1 := by
  unfold execute at ran
  split at ran
  · cases ran
    exact le_rfl
  · cases ran
    exact le_rfl
  · cases ran
    exact le_rfl
  · cases ran
    exact le_rfl
  · cases ran
    exact le_rfl
  · split at ran
    · cases ran
      simp only [List.length_cons, List.length_drop]
      omega
    · cases ran
  · split at ran
    · have lower := popEntries_length ran
      rw [List.length_cons]
      omega
    · cases ran
  · split at ran
    · cases ran
      simp only [List.length_cons]
      omega
    · cases ran
  · cases ran

theorem runFor_length_le {fuel : Nat} {code : List UInt8}
    {stack stack' : List StackItem} {stop : Stop}
    (ran : runFor fuel code stack = some (stop, stack')) :
    stack'.length ≤ stack.length + code.length := by
  induction fuel generalizing code stack with
  | zero => cases ran
  | succ fuel induction =>
      cases code with
      | nil =>
          cases ran
          exact le_rfl
      | cons byte code =>
          rw [runFor] at ran
          split at ran
          · cases ran
          · cases ran
            exact Nat.le_add_right _ _
          · rename_i instruction rest read
            rcases Option.bind_eq_some_iff.mp ran with ⟨middle, first, later⟩
            have shorter := decode_rest_lt read
            have one := execute_length_le first
            have others := induction later
            omega

/-! ## Nulls come from `PUSHNULL` alone -/

namespace StackItem

mutual

/-- The number of nulls inside an item. -/
def nulls : StackItem → Nat
  | .null => 1
  | .primitive _ => 0
  | .array items => nullsOfItems items
  | .map entries => nullsOfEntries entries

/-- The number of nulls inside the elements of an array. -/
def nullsOfItems : List StackItem → Nat
  | [] => 0
  | item :: rest => nulls item + nullsOfItems rest

/-- The number of nulls inside the values of a map. -/
def nullsOfEntries : List (Primitive × StackItem) → Nat
  | [] => 0
  | (_, value) :: rest => nulls value + nullsOfEntries rest

end

theorem nulls_array (items : List StackItem) :
    (array items).nulls = (items.map nulls).sum := by
  rw [nulls]
  induction items with
  | nil => rfl
  | cons item rest induction =>
      rw [nullsOfItems, induction, List.map_cons, List.sum_cons]

theorem nulls_map (entries : List (Primitive × StackItem)) :
    (map entries).nulls =
      (entries.map fun entry =>
        (primitive entry.1).nulls + entry.2.nulls).sum := by
  rw [nulls]
  induction entries with
  | nil => rfl
  | cons entry rest induction =>
      rw [nullsOfEntries, induction, List.map_cons, List.sum_cons, nulls,
        Nat.zero_add]

theorem nullsOfItems_append (first second : List StackItem) :
    nullsOfItems (first ++ second) =
      nullsOfItems first + nullsOfItems second := by
  induction first with
  | nil => simp [nullsOfItems]
  | cons item rest induction =>
      rw [List.cons_append, nullsOfItems, nullsOfItems, induction,
        Nat.add_assoc]

theorem nullsOfEntries_filter_le (keep : Primitive × StackItem → Bool)
    (entries : List (Primitive × StackItem)) :
    nullsOfEntries (entries.filter keep) ≤ nullsOfEntries entries := by
  induction entries with
  | nil => exact le_rfl
  | cons entry rest induction =>
      rw [nullsOfEntries]
      by_cases kept : keep entry = true
      · rw [List.filter_cons_of_pos kept, nullsOfEntries]
        omega
      · rw [List.filter_cons_of_neg kept]
        omega

end StackItem

open StackItem

theorem popEntries_nulls_le {count : Nat} {stack stack' : List StackItem}
    {entries : List (Primitive × StackItem)}
    (popped : popEntries count stack entries = some stack') :
    nullsOfItems stack' ≤ nullsOfItems stack + nullsOfEntries entries := by
  induction count generalizing stack entries with
  | zero =>
      injection popped with equal
      subst equal
      rw [nullsOfItems, nulls]
      omega
  | succ count induction =>
      match stack, popped with
      | .primitive key :: value :: rest, popped =>
          rw [popEntries] at popped
          have later := induction popped
          have dropped :=
            nullsOfEntries_filter_le (fun entry => decide (entry.1 ≠ key))
              entries
          rw [put, nullsOfEntries] at later
          rw [nullsOfItems, nullsOfItems, nulls]
          omega

/-- An instruction makes no null unless it is `PUSHNULL`. -/
theorem execute_nulls_le {instruction : Instruction}
    {stack stack' : List StackItem}
    (ran : execute instruction stack = some stack') :
    nullsOfItems stack' ≤
      nullsOfItems stack + if instruction = .pushNull then 1 else 0 := by
  unfold execute at ran
  split at ran
  · cases ran
    simp [nullsOfItems, nulls]
  · cases ran
    simp [nullsOfItems, nulls]
  · cases ran
    simp [nullsOfItems, nulls, Nat.add_comm]
  · cases ran
    simp [nullsOfItems, nulls]
  · cases ran
    simp [nullsOfItems, nulls, nullsOfEntries]
  · rename_i count stack
    split at ran
    · cases ran
      have whole :=
        nullsOfItems_append (stack.take count.toNat) (stack.drop count.toNat)
      rw [List.take_append_drop] at whole
      simp only [nullsOfItems, nulls]
      omega
    · cases ran
  · split at ran
    · have fewer := popEntries_nulls_le ran
      simp only [nullsOfEntries] at fewer
      simp only [nullsOfItems, nulls]
      omega
    · cases ran
  · split at ran
    · cases ran
      rw [nullsOfItems]
      omega
    · cases ran
  · cases ran

/-- A program makes no more nulls than it has `PUSHNULL`s. -/
theorem executeAll_nulls_le {program : List Instruction}
    {stack stack' : List StackItem}
    (ran : executeAll program stack = some stack') :
    nullsOfItems stack' ≤
      nullsOfItems stack + program.count .pushNull := by
  induction program generalizing stack with
  | nil =>
      cases ran
      exact Nat.le_add_right _ _
  | cons instruction rest induction =>
      rcases Option.bind_eq_some_iff.mp ran with ⟨middle, first, later⟩
      have made := execute_nulls_le first
      have madeLater := induction later
      rw [List.count_cons]
      simp only [beq_iff_eq]
      omega

end NeoC.NeoVm
