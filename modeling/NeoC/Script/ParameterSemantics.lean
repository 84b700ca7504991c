import Mathlib.Algebra.BigOperators.Ring.List
import NeoC.Script.ContractParameter

/-!
# When a pushed parameter is the value it denotes

The compiler of contract parameters is followed in two steps.  What it emits
is the program `compile`; what running that program leaves on the stack is
`evaluate`.  The comparison with `denote` then needs no script and no stack:
strings above `2 ^ 32` bytes cannot come off the stack again, parameters that
push nothing change its height, signatures lose their bytes, and arrays come
back reversed.
-/

namespace NeoC

open Foundation NeoVm

namespace ContractParameter

/-! ## The emitted program -/

mutual

/-- The program emitted for a parameter. -/
def compile : ContractParameter → List Instruction
  | .null => [.pushNull]
  | .any => []
  | .void => []
  | .boolean value => [.pushInt (if value then 1 else 0)]
  | .integer value => [.pushInt value.toInt]
  | .byteArray data => [ScriptBuilder.instructionOfBytes data.content]
  | .signature _ => [.pushInt 0]
  | .publicKey data => [ScriptBuilder.instructionOfBytes data.val]
  | .string value =>
      [ScriptBuilder.instructionOfBytes
        (value.getD (CString.ofString "")).characters]
  | .hash160 hash =>
      [ScriptBuilder.instructionOfBytes hash.toLittleEndianBytes]
  | .hash256 hash =>
      [ScriptBuilder.instructionOfBytes hash.toLittleEndianBytes]
  | .array items =>
      if items.length = 0 then [.newArray0]
      else
        compileItems items ++
          [.pushInt (Int64.ofNat items.length).toInt, .pack]
  | .map entries =>
      if entries.length = 0 then [.newMap]
      else
        compileEntries entries ++
          [.pushInt (Int64.ofNat entries.length).toInt, .packMap]
  | .interopInterface => []

/-- The programs of the elements, first to last. -/
def compileItems : List ContractParameter → List Instruction
  | [] => []
  | item :: rest => compile item ++ compileItems rest

/-- The programs of the bindings, each value before its key. -/
def compileEntries :
    List (ContractParameter × ContractParameter) → List Instruction
  | [] => []
  | (key, value) :: rest =>
      compile value ++ (compile key ++ compileEntries rest)

end

end ContractParameter

namespace ScriptBuilder

open ContractParameter

variable {alloc : Allocator}

/-- A call that succeeds has appended the bytes of the program. -/
abbrev AppendsProgram (call : Routine BinaryWriter Unit)
    (program : List Instruction) : Prop :=
  BinaryWriter.Appends call (assemble program)

theorem AppendsProgram.bind {first second : Routine BinaryWriter Unit}
    {head tail : List Instruction}
    (appendsFirst : AppendsProgram first head)
    (appendsSecond : AppendsProgram second tail) :
    AppendsProgram (first >>= fun _ => second) (head ++ tail) := by
  rw [AppendsProgram, assemble_append]
  exact BinaryWriter.Appends.bind appendsFirst appendsSecond

theorem pushByteArray_appends (data : Buffer) :
    AppendsProgram (pushByteArray alloc data)
      [instructionOfBytes data.content] := by
  cases data with
  | null length =>
      rw [pushByteArray]
      split
      · exact BinaryWriter.appends_halt _ _
      · exact BinaryWriter.Emits.appends (emit_assembles rfl)
  | items content =>
      have program : instructionOfBytes (Slice.items content).content =
          instructionOfBytes content :=
        rfl
      rw [pushByteArray, program]
      split
      · rename_i empty
        rw [instructionOfBytes, if_pos empty]
        exact BinaryWriter.Emits.appends (emit_assembles rfl)
      · exact (pushData_assembles content).appends

theorem pushSignature_appends (data : Bytes 64) :
    AppendsProgram (pushSignature alloc data) [.pushInt 0] := by
  unfold pushSignature
  dsimp only
  split
  · exact BinaryWriter.appends_halt _ _
  · split
    · exact BinaryWriter.Emits.appends (emit_assembles rfl)
    · exact BinaryWriter.appends_halt _ _

theorem pushLeaf_appends {param : ContractParameter}
    (leaf : param.IsLeaf) :
    AppendsProgram (pushParam alloc param) param.compile := by
  cases param with
  | null => exact pushNull_assembles.appends
  | any => exact BinaryWriter.appends_pure
  | void => exact BinaryWriter.appends_pure
  | boolean value => exact (pushBool_assembles value).appends
  | integer value => exact (pushInteger_assembles value).appends
  | byteArray data => exact pushByteArray_appends data
  | string value => exact (pushData_assembles _).appends
  | hash160 hash => exact (pushData_assembles _).appends
  | hash256 hash => exact (pushData_assembles _).appends
  | publicKey data => exact (pushData_assembles _).appends
  | signature data => exact pushSignature_appends data
  | array items => exact absurd leaf id
  | map entries => exact absurd leaf id
  | interopInterface => exact BinaryWriter.appends_halt _ _

theorem pushItems_appends {items : List ContractParameter}
    (each :
      ∀ item ∈ items,
        AppendsProgram (pushParam alloc item) item.compile) :
    AppendsProgram (pushItems alloc items) (compileItems items) := by
  induction items with
  | nil => exact BinaryWriter.appends_pure
  | cons item rest induction =>
      rcases List.forall_mem_cons.mp each with ⟨first, others⟩
      exact first.bind (induction others)

theorem pushEntries_appends
    {entries : List (ContractParameter × ContractParameter)}
    (each :
      ∀ entry ∈ entries,
        AppendsProgram (pushParam alloc entry.1) entry.1.compile ∧
          AppendsProgram (pushParam alloc entry.2) entry.2.compile) :
    AppendsProgram (pushEntries alloc entries)
      (compileEntries entries) := by
  induction entries with
  | nil => exact BinaryWriter.appends_pure
  | cons entry rest induction =>
      rcases List.forall_mem_cons.mp each with ⟨⟨key, value⟩, others⟩
      exact value.bind (key.bind (induction others))

/-- The count and the packing instruction that end an array or a map. -/
theorem pushCount_appends (count : Nat) {opcode : UInt8}
    {instruction : Instruction} (exact : instruction.encode = [opcode]) :
    AppendsProgram
      (pushInteger alloc (Int64.ofNat count) >>= fun _ => emit alloc opcode)
      [.pushInt (Int64.ofNat count).toInt, instruction] :=
  BinaryWriter.Emits.appends
    ((pushInteger_assembles _).bind (emit_assembles exact))

/-- What is emitted for a parameter is its program. -/
theorem pushParam_appends (param : ContractParameter) :
    AppendsProgram (pushParam alloc param) param.compile := by
  induction param using treeInduction with
  | leaf param leaf => exact pushLeaf_appends leaf
  | array items each =>
      rw [pushParam, compile]
      split
      · exact BinaryWriter.Emits.appends (emit_assembles rfl)
      · exact (pushItems_appends each).bind (pushCount_appends _ rfl)
  | map entries each =>
      rw [pushParam, compile]
      split
      · exact BinaryWriter.Emits.appends (emit_assembles rfl)
      · exact (pushEntries_appends each).bind (pushCount_appends _ rfl)

/-- A list of parameters is pushed like the array of them. -/
theorem pushParams_eq (items : List ContractParameter) :
    pushParams alloc (.items items) = pushParam alloc (.array items) := by
  rw [pushParams, pushParam]

end ScriptBuilder

namespace ContractParameter

/-! ## What running the program leaves -/

/-- A parameter for which nothing is pushed. -/
def pushesNothing : ContractParameter → Bool
  | .any => true
  | .void => true
  | .interopInterface => true
  | _ => false

/-- A signature. -/
def isSignature : ContractParameter → Bool
  | .signature _ => true
  | _ => false

/-- The bindings made by popping pairs of a key and a value. -/
def bindPairs :
    List (StackItem × StackItem) → List (Primitive × StackItem) →
      Option (List (Primitive × StackItem))
  | [], bindings => some bindings
  | (.primitive key, value) :: rest, bindings =>
      bindPairs rest (put key value bindings)
  | _ :: _, _ => none

mutual

/-- The item left by the program of a parameter. -/
def evaluate : ContractParameter → Option StackItem
  | .any => none
  | .signature _ => some (.integer 0)
  | .array items =>
      match evaluateItems items with
      | none => none
      | some values => some (.array values.reverse)
  | .map entries =>
      match evaluateEntries entries with
      | none => none
      | some pairs =>
          match bindPairs pairs.reverse [] with
          | none => none
          | some bindings => some (.map bindings)
  | leaf => denote leaf

/-- The items left by the elements, first to last. -/
def evaluateItems : List ContractParameter → Option (List StackItem)
  | [] => some []
  | item :: rest =>
      match evaluate item, evaluateItems rest with
      | some first, some others => some (first :: others)
      | _, _ => none

/-- The pairs left by the bindings, first to last. -/
def evaluateEntries :
    List (ContractParameter × ContractParameter) →
      Option (List (StackItem × StackItem))
  | [] => some []
  | (key, value) :: rest =>
      match evaluate key, evaluate value, evaluateEntries rest with
      | some first, some second, some others =>
          some ((first, second) :: others)
      | _, _, _ => none

end

theorem execute_instructionOfBytes (content : List UInt8)
    (stack : List StackItem) :
    execute (ScriptBuilder.instructionOfBytes content) stack =
      some (itemOfBytes content :: stack) := by
  rw [ScriptBuilder.instructionOfBytes, itemOfBytes]
  split <;> rfl

theorem itemOfBytes_of_length {content : List UInt8} {size : Nat}
    (exact : content.length = size) (positive : 0 < size) :
    itemOfBytes content = .byteString content := by
  rw [itemOfBytes, if_neg (by omega)]

theorem executeAll_singleton (instruction : Instruction)
    (stack : List StackItem) :
    executeAll [instruction] stack = execute instruction stack := by
  rw [executeAll]
  cases execute instruction stack with
  | none => rfl
  | some stack' => rfl

/-- A leaf that pushes something leaves its item. -/
theorem executeAll_leaf {param : ContractParameter} (leaf : param.IsLeaf)
    (pushes : param.pushesNothing = false) (stack : List StackItem) :
    executeAll param.compile stack =
      param.evaluate.map (· :: stack) := by
  cases param with
  | null => rfl
  | any => cases pushes
  | void => cases pushes
  | boolean value => rfl
  | integer value => rfl
  | byteArray data =>
      rw [compile, executeAll_singleton, execute_instructionOfBytes]
      rfl
  | string value =>
      rw [compile, executeAll_singleton, execute_instructionOfBytes]
      rfl
  | hash160 hash =>
      have exact : hash.toLittleEndianBytes.length = 20 := by
        rw [Hash160.toLittleEndianBytes, List.length_reverse, hash.property]
      rw [compile, executeAll_singleton, execute_instructionOfBytes,
        itemOfBytes_of_length exact (by decide)]
      rfl
  | hash256 hash =>
      have exact : (Hash256.toLittleEndianBytes hash).length = 32 := by
        rw [Hash256.toLittleEndianBytes, List.length_reverse, hash.property]
      rw [compile, executeAll_singleton, execute_instructionOfBytes,
        itemOfBytes_of_length exact (by decide)]
      rfl
  | publicKey data =>
      rw [compile, executeAll_singleton, execute_instructionOfBytes,
        itemOfBytes_of_length data.property (by decide)]
      rfl
  | signature data => rfl
  | array items => exact absurd leaf id
  | map entries => exact absurd leaf id
  | interopInterface => cases pushes

/-- The count on top of the stack is the number of elements. -/
theorem toInt_count {count : Nat} (bounded : count ≤ ptrdiffMax) :
    (Int64.ofNat count).toInt = count := by
  apply Int64.toInt_ofNat_of_lt
  simp only [ptrdiffMax] at bounded
  omega

theorem executeAll_items {items : List ContractParameter}
    (each :
      ∀ item ∈ items, ∀ stack,
        executeAll item.compile stack = item.evaluate.map (· :: stack))
    (stack : List StackItem) :
    executeAll (compileItems items) stack =
      (evaluateItems items).map fun values => values.reverse ++ stack := by
  induction items generalizing stack with
  | nil => rfl
  | cons item rest induction =>
      rcases List.forall_mem_cons.mp each with ⟨first, others⟩
      rw [compileItems, executeAll_append, first, evaluateItems]
      cases item.evaluate with
      | none => rfl
      | some value =>
          simp only [Option.map_some, Option.bind_some]
          rw [induction others]
          cases evaluateItems rest with
          | none => rfl
          | some values => simp

/-- The pairs as they lie on the stack, the last one on top. -/
def stackPairs (pairs : List (StackItem × StackItem)) : List StackItem :=
  pairs.flatMap fun pair => [pair.1, pair.2]

theorem executeAll_entries
    {entries : List (ContractParameter × ContractParameter)}
    (each :
      ∀ entry ∈ entries,
        (∀ stack,
          executeAll entry.1.compile stack =
            entry.1.evaluate.map (· :: stack)) ∧
        ∀ stack,
          executeAll entry.2.compile stack =
            entry.2.evaluate.map (· :: stack))
    (stack : List StackItem) :
    executeAll (compileEntries entries) stack =
      (evaluateEntries entries).map fun pairs =>
        stackPairs pairs.reverse ++ stack := by
  induction entries generalizing stack with
  | nil => rfl
  | cons entry rest induction =>
      rcases List.forall_mem_cons.mp each with ⟨⟨ofKey, ofValue⟩, others⟩
      rw [compileEntries, executeAll_append, ofValue, evaluateEntries]
      cases entry.2.evaluate with
      | none =>
          cases entry.1.evaluate <;> rfl
      | some value =>
          simp only [Option.map_some, Option.bind_some]
          rw [executeAll_append, ofKey]
          cases entry.1.evaluate with
          | none => rfl
          | some key =>
              simp only [Option.map_some, Option.bind_some]
              rw [induction others]
              cases evaluateEntries rest with
              | none => rfl
              | some pairs => simp [stackPairs]

theorem popEntries_stackPairs (pairs : List (StackItem × StackItem))
    (stack : List StackItem) (bindings : List (Primitive × StackItem)) :
    popEntries pairs.length (stackPairs pairs ++ stack) bindings =
      (bindPairs pairs bindings).map fun result => .map result :: stack := by
  induction pairs generalizing bindings with
  | nil => rfl
  | cons pair rest induction =>
      rcases pair with ⟨key, value⟩
      cases key with
      | primitive key => exact induction (put key value bindings)
      | null => rfl
      | array items => rfl
      | map entries => rfl

theorem length_evaluateItems {items : List ContractParameter}
    {values : List StackItem} (ran : evaluateItems items = some values) :
    values.length = items.length := by
  induction items generalizing values with
  | nil =>
      cases ran
      rfl
  | cons item rest induction =>
      rw [evaluateItems] at ran
      split at ran
      · rename_i first others _ ranRest
        cases ran
        rw [List.length_cons, List.length_cons, induction ranRest]
      · cases ran

theorem length_evaluateEntries
    {entries : List (ContractParameter × ContractParameter)}
    {pairs : List (StackItem × StackItem)}
    (ran : evaluateEntries entries = some pairs) :
    pairs.length = entries.length := by
  induction entries generalizing pairs with
  | nil =>
      cases ran
      rfl
  | cons entry rest induction =>
      rw [evaluateEntries] at ran
      split at ran
      · rename_i first second others _ _ ranRest
        cases ran
        rw [List.length_cons, List.length_cons, induction ranRest]
      · cases ran

/-- Running the program of a tree leaves what the tree evaluates to. -/
theorem executeAll_compile {param : ContractParameter}
    (pushes : Everywhere (fun node => node.pushesNothing = false) param)
    (inMemory : param.InMemory) (stack : List StackItem) :
    executeAll param.compile stack = param.evaluate.map (· :: stack) := by
  induction param using treeInduction generalizing stack with
  | leaf param leaf =>
      exact executeAll_leaf leaf ((everywhere_leaf leaf).mp pushes) stack
  | array items each =>
      rcases everywhere_array.mp pushes with ⟨-, pushesItems⟩
      rcases everywhere_array.mp inMemory with ⟨bounded, inMemoryItems⟩
      have ranItems :=
        executeAll_items fun item member =>
          each item member (pushesItems item member)
            (inMemoryItems item member)
      rw [compile, evaluate]
      split
      · rename_i empty
        rw [List.length_eq_zero_iff.mp empty]
        rfl
      · have count : items.length ≤ ptrdiffMax := bounded
        rw [executeAll_append, ranItems, toInt_count count]
        rcases ran : evaluateItems items with _ | values
        · rfl
        · have pack := execute_pack values.reverse stack
          rw [List.length_reverse, length_evaluateItems ran] at pack
          simp only [Option.map_some, Option.bind_some]
          rw [executeAll]
          change
            (execute .pack
              (.integer items.length :: (values.reverse ++ stack))).bind
                (executeAll []) = _
          rw [pack]
          rfl
  | map entries each =>
      rcases everywhere_map.mp pushes with ⟨-, pushesEntries⟩
      rcases everywhere_map.mp inMemory with ⟨bounded, inMemoryEntries⟩
      have ranEntries :=
        executeAll_entries fun entry member =>
          ⟨(each entry member).1 (pushesEntries entry member).1
              (inMemoryEntries entry member).1,
            (each entry member).2 (pushesEntries entry member).2
              (inMemoryEntries entry member).2⟩
      rw [compile, evaluate]
      split
      · rename_i empty
        rw [List.length_eq_zero_iff.mp empty]
        rfl
      · have count : entries.length ≤ ptrdiffMax := bounded
        rw [executeAll_append, ranEntries, toInt_count count]
        rcases ran : evaluateEntries entries with _ | pairs
        · rfl
        · have popped := popEntries_stackPairs pairs.reverse stack []
          rw [List.length_reverse, length_evaluateEntries ran] at popped
          simp only [Option.map_some, Option.bind_some]
          rw [executeAll]
          change
            (execute .packMap
              (.integer entries.length ::
                (stackPairs pairs.reverse ++ stack))).bind
                  (executeAll []) = _
          rw [execute, if_pos (Int.natCast_nonneg _), Int.toNat_natCast,
            popped]
          cases bindPairs pairs.reverse [] with
          | none => rfl
          | some bindings => rfl

/-! ## The program can be assembled and run to its end -/

/-- The bytes a parameter stores for the script. -/
def data : ContractParameter → List UInt8
  | .byteArray data => data.content
  | .string value => (value.getD (CString.ofString "")).characters
  | .hash160 hash => hash.toLittleEndianBytes
  | .hash256 hash => Hash256.toLittleEndianBytes hash
  | .publicKey data => data.val
  | _ => []

/-- Every byte string has a length that four bytes can hold. -/
def Short (param : ContractParameter) : Prop :=
  Everywhere (fun node => node.data.length < 0x100000000) param

/-- An instruction that can be assembled and does not end the run. -/
def Straight (instruction : Instruction) : Prop :=
  instruction.Encodable ∧ instruction.Plain

theorem straight_pushInt (value : Int64) :
    Straight (.pushInt value.toInt) :=
  ⟨⟨value.le_toInt, value.toInt_le⟩, trivial⟩

theorem straight_instructionOfBytes {content : List UInt8}
    (short : content.length < 0x100000000) :
    Straight (ScriptBuilder.instructionOfBytes content) := by
  rw [ScriptBuilder.instructionOfBytes]
  split
  · exact ⟨by constructor <;> decide, trivial⟩
  · exact ⟨short, trivial⟩

theorem straight_leaf {param : ContractParameter} (leaf : param.IsLeaf)
    (short : param.data.length < 0x100000000) :
    ∀ instruction ∈ param.compile, Straight instruction := by
  cases param with
  | null => simp [compile, Straight, Instruction.Encodable, Instruction.Plain]
  | any => simp [compile]
  | void => simp [compile]
  | boolean value =>
      cases value <;>
        simp [compile, Straight, Instruction.Encodable, Instruction.Plain]
  | integer value => simpa [compile] using straight_pushInt value
  | byteArray data =>
      exact
        List.forall_mem_singleton.mpr (straight_instructionOfBytes short)
  | string value =>
      exact
        List.forall_mem_singleton.mpr (straight_instructionOfBytes short)
  | hash160 hash =>
      exact
        List.forall_mem_singleton.mpr (straight_instructionOfBytes short)
  | hash256 hash =>
      exact
        List.forall_mem_singleton.mpr (straight_instructionOfBytes short)
  | publicKey data =>
      exact
        List.forall_mem_singleton.mpr (straight_instructionOfBytes short)
  | signature data =>
      simp [compile, Straight, Instruction.Encodable, Instruction.Plain]
  | array items => exact absurd leaf id
  | map entries => exact absurd leaf id
  | interopInterface => simp [compile]

theorem straight_items {items : List ContractParameter}
    (each :
      ∀ item ∈ items,
        ∀ instruction ∈ item.compile, Straight instruction) :
    ∀ instruction ∈ compileItems items, Straight instruction := by
  induction items with
  | nil => simp [compileItems]
  | cons item rest induction =>
      rcases List.forall_mem_cons.mp each with ⟨first, others⟩
      rw [compileItems, List.forall_mem_append]
      exact ⟨first, induction others⟩

theorem straight_entries
    {entries : List (ContractParameter × ContractParameter)}
    (each :
      ∀ entry ∈ entries,
        (∀ instruction ∈ entry.1.compile, Straight instruction) ∧
          ∀ instruction ∈ entry.2.compile, Straight instruction) :
    ∀ instruction ∈ compileEntries entries, Straight instruction := by
  induction entries with
  | nil => simp [compileEntries]
  | cons entry rest induction =>
      rcases List.forall_mem_cons.mp each with ⟨⟨ofKey, ofValue⟩, others⟩
      rw [compileEntries, List.forall_mem_append, List.forall_mem_append]
      exact ⟨ofValue, ofKey, induction others⟩

theorem straight_compile {param : ContractParameter}
    (short : param.Short) :
    ∀ instruction ∈ param.compile, Straight instruction := by
  induction param using treeInduction with
  | leaf param leaf =>
      exact straight_leaf leaf ((everywhere_leaf leaf).mp short)
  | array items each =>
      rcases everywhere_array.mp short with ⟨-, shortItems⟩
      have inItems :=
        straight_items fun item member =>
          each item member (shortItems item member)
      rw [compile]
      split
      · simp [Straight, Instruction.Encodable, Instruction.Plain]
      · rw [List.forall_mem_append]
        refine ⟨inItems, ?_⟩
        simp only [List.forall_mem_cons]
        exact
          ⟨straight_pushInt _, ⟨trivial, trivial⟩, List.forall_mem_nil _⟩
  | map entries each =>
      rcases everywhere_map.mp short with ⟨-, shortEntries⟩
      have inEntries :=
        straight_entries fun entry member =>
          ⟨(each entry member).1 (shortEntries entry member).1,
            (each entry member).2 (shortEntries entry member).2⟩
      rw [compile]
      split
      · simp [Straight, Instruction.Encodable, Instruction.Plain]
      · rw [List.forall_mem_append]
        refine ⟨inEntries, ?_⟩
        simp only [List.forall_mem_cons]
        exact
          ⟨straight_pushInt _, ⟨trivial, trivial⟩, List.forall_mem_nil _⟩

/-- With short strings, running the script is running the program. -/
theorem run_compile {param : ContractParameter} (short : param.Short)
    (stack : List StackItem) :
    run (assemble param.compile) stack =
      (executeAll param.compile stack).map fun stack' =>
        (.finished, stack') := by
  have straight := straight_compile short
  have appended :=
    runProgram_append
      (fun instruction member => (straight instruction member).2) [] stack
  rw [List.append_nil] at appended
  rw [run_assemble fun instruction member => (straight instruction member).1,
    appended]
  cases executeAll param.compile stack with
  | none => rfl
  | some stack' => rfl

/-! ## Parameters that push nothing change the height of the stack -/

/-- The number of parameters in a tree that push nothing. -/
def absent (param : ContractParameter) : Nat :=
  param.nodes.countP pushesNothing

theorem absent_array (items : List ContractParameter) :
    (array items).absent = (items.map absent).sum :=
  countP_nodes_array rfl

theorem absent_map
    (entries : List (ContractParameter × ContractParameter)) :
    (map entries).absent =
      (entries.map fun entry => entry.1.absent + entry.2.absent).sum :=
  countP_nodes_map rfl

theorem absent_leaf {param : ContractParameter} (leaf : param.IsLeaf) :
    param.absent = if param.pushesNothing then 1 else 0 :=
  countP_nodes_leaf leaf

theorem executeAll_leaf_height {param : ContractParameter}
    (leaf : param.IsLeaf) {stack stack' : List StackItem}
    (ran : executeAll param.compile stack = some stack') :
    stack'.length + param.absent = stack.length + 1 := by
  rw [absent_leaf leaf]
  split
  · rename_i nothing
    have empty : param.compile = [] := by
      cases param <;> first | rfl | cases nothing
    rw [empty] at ran
    cases ran
    rfl
  · rename_i pushes
    rw [executeAll_leaf leaf (by simpa using pushes)] at ran
    rcases Option.map_eq_some_iff.mp ran with ⟨item, -, rfl⟩
    rfl

theorem executeAll_items_height {items : List ContractParameter}
    (each :
      ∀ item ∈ items, ∀ {stack stack' : List StackItem},
        executeAll item.compile stack = some stack' →
          stack'.length + item.absent = stack.length + 1)
    {stack stack' : List StackItem}
    (ran : executeAll (compileItems items) stack = some stack') :
    stack'.length + (items.map absent).sum =
      stack.length + items.length := by
  induction items generalizing stack with
  | nil =>
      cases ran
      rfl
  | cons item rest induction =>
      rcases List.forall_mem_cons.mp each with ⟨first, others⟩
      rw [compileItems, executeAll_append] at ran
      rcases Option.bind_eq_some_iff.mp ran with ⟨middle, ranFirst, ranRest⟩
      have height := first ranFirst
      have heights := induction others ranRest
      simp only [List.map_cons, List.sum_cons, List.length_cons]
      omega

theorem executeAll_entries_height
    {entries : List (ContractParameter × ContractParameter)}
    (each :
      ∀ entry ∈ entries,
        (∀ {stack stack' : List StackItem},
          executeAll entry.1.compile stack = some stack' →
            stack'.length + entry.1.absent = stack.length + 1) ∧
        ∀ {stack stack' : List StackItem},
          executeAll entry.2.compile stack = some stack' →
            stack'.length + entry.2.absent = stack.length + 1)
    {stack stack' : List StackItem}
    (ran : executeAll (compileEntries entries) stack = some stack') :
    stack'.length +
        (entries.map fun entry => entry.1.absent + entry.2.absent).sum =
      stack.length + 2 * entries.length := by
  induction entries generalizing stack with
  | nil =>
      cases ran
      rfl
  | cons entry rest induction =>
      rcases List.forall_mem_cons.mp each with ⟨⟨ofKey, ofValue⟩, others⟩
      rw [compileEntries, executeAll_append] at ran
      rcases Option.bind_eq_some_iff.mp ran with
        ⟨middle, ranValue, ranKeyRest⟩
      rw [executeAll_append] at ranKeyRest
      rcases Option.bind_eq_some_iff.mp ranKeyRest with
        ⟨middle', ranKey, ranRest⟩
      have heightValue := ofValue ranValue
      have heightKey := ofKey ranKey
      have heights := induction others ranRest
      simp only [List.map_cons, List.sum_cons, List.length_cons]
      omega

/-- The height of the stack after the program of a tree. -/
theorem executeAll_height {param : ContractParameter}
    (inMemory : param.InMemory) {stack stack' : List StackItem}
    (ran : executeAll param.compile stack = some stack') :
    stack'.length + param.absent = stack.length + 1 := by
  induction param using treeInduction generalizing stack stack' with
  | leaf param leaf => exact executeAll_leaf_height leaf ran
  | array items each =>
      rcases everywhere_array.mp inMemory with ⟨bounded, inMemoryItems⟩
      have count : items.length ≤ ptrdiffMax := bounded
      rw [absent_array]
      rw [compile] at ran
      split at ran
      · rename_i empty
        rw [List.length_eq_zero_iff.mp empty]
        cases ran
        rfl
      · rw [executeAll_append, toInt_count count] at ran
        rcases Option.bind_eq_some_iff.mp ran with ⟨middle, ranItems, packed⟩
        have height :=
          executeAll_items_height
            (fun item member => each item member (inMemoryItems item member))
            ranItems
        change (execute .pack (.integer items.length :: middle)).bind
          (executeAll []) = some stack' at packed
        rw [execute, Int.toNat_natCast] at packed
        split at packed
        · rename_i enough
          cases packed
          simp only [List.length_cons, List.length_drop]
          omega
        · cases packed
  | map entries each =>
      rcases everywhere_map.mp inMemory with ⟨bounded, inMemoryEntries⟩
      have count : entries.length ≤ ptrdiffMax := bounded
      rw [absent_map]
      rw [compile] at ran
      split at ran
      · rename_i empty
        rw [List.length_eq_zero_iff.mp empty]
        cases ran
        rfl
      · rw [executeAll_append, toInt_count count] at ran
        rcases Option.bind_eq_some_iff.mp ran with
          ⟨middle, ranEntries, packed⟩
        have height :=
          executeAll_entries_height
            (fun entry member =>
              ⟨(each entry member).1 (inMemoryEntries entry member).1,
                (each entry member).2 (inMemoryEntries entry member).2⟩)
            ranEntries
        change (execute .packMap (.integer entries.length :: middle)).bind
          (executeAll []) = some stack' at packed
        rw [execute, if_pos (Int.natCast_nonneg _), Int.toNat_natCast]
          at packed
        rcases Option.bind_eq_some_iff.mp packed with ⟨final, popped, same⟩
        cases same
        have lower := popEntries_length popped
        omega

/-! ## Parameters that push nothing are missed as nulls -/

/-- A parameter for which a null is pushed. -/
def pushesNull : ContractParameter → Bool
  | .null => true
  | _ => false

/-- The number of parameters in a tree for which a null is pushed. -/
def pushedNulls (param : ContractParameter) : Nat :=
  param.nodes.countP pushesNull

theorem pushedNulls_array (items : List ContractParameter) :
    (array items).pushedNulls = (items.map pushedNulls).sum :=
  countP_nodes_array rfl

theorem pushedNulls_map
    (entries : List (ContractParameter × ContractParameter)) :
    (map entries).pushedNulls =
      (entries.map fun entry =>
        entry.1.pushedNulls + entry.2.pushedNulls).sum :=
  countP_nodes_map rfl

theorem pushedNulls_leaf {param : ContractParameter} (leaf : param.IsLeaf) :
    param.pushedNulls = if param.pushesNull then 1 else 0 :=
  countP_nodes_leaf leaf

theorem count_pushNull_bytes (content : List UInt8) :
    [ScriptBuilder.instructionOfBytes content].count .pushNull = 0 := by
  rw [ScriptBuilder.instructionOfBytes]
  split
  · rfl
  · rfl

theorem count_pushNull_leaf {param : ContractParameter}
    (leaf : param.IsLeaf) :
    param.compile.count .pushNull = if param.pushesNull then 1 else 0 := by
  cases param with
  | null => rfl
  | any => rfl
  | void => rfl
  | boolean value => rfl
  | integer value => rfl
  | byteArray data => exact count_pushNull_bytes _
  | string value => exact count_pushNull_bytes _
  | hash160 hash => exact count_pushNull_bytes _
  | hash256 hash => exact count_pushNull_bytes _
  | publicKey data => exact count_pushNull_bytes _
  | signature data => rfl
  | array items => exact absurd leaf id
  | map entries => exact absurd leaf id
  | interopInterface => rfl

theorem count_pushNull_items {items : List ContractParameter}
    (each :
      ∀ item ∈ items, item.compile.count .pushNull = item.pushedNulls) :
    (compileItems items).count .pushNull = (items.map pushedNulls).sum := by
  induction items with
  | nil => rfl
  | cons item rest induction =>
      rcases List.forall_mem_cons.mp each with ⟨first, others⟩
      rw [compileItems, List.count_append, first, induction others,
        List.map_cons, List.sum_cons]

theorem count_pushNull_entries
    {entries : List (ContractParameter × ContractParameter)}
    (each :
      ∀ entry ∈ entries,
        entry.1.compile.count .pushNull = entry.1.pushedNulls ∧
          entry.2.compile.count .pushNull = entry.2.pushedNulls) :
    (compileEntries entries).count .pushNull =
      (entries.map fun entry =>
        entry.1.pushedNulls + entry.2.pushedNulls).sum := by
  induction entries with
  | nil => rfl
  | cons entry rest induction =>
      rcases List.forall_mem_cons.mp each with ⟨⟨ofKey, ofValue⟩, others⟩
      rw [compileEntries, List.count_append, List.count_append, ofValue,
        ofKey, induction others, List.map_cons, List.sum_cons]
      omega

/-- The program of a tree pushes its nulls. -/
theorem count_pushNull_compile (param : ContractParameter) :
    param.compile.count .pushNull = param.pushedNulls := by
  induction param using treeInduction with
  | leaf param leaf =>
      rw [pushedNulls_leaf leaf, count_pushNull_leaf leaf]
  | array items each =>
      rw [pushedNulls_array, ← count_pushNull_items each, compile]
      split
      · rename_i empty
        rw [List.length_eq_zero_iff.mp empty]
        rfl
      · rw [List.count_append]
        rfl
  | map entries each =>
      rw [pushedNulls_map, ← count_pushNull_entries each, compile]
      split
      · rename_i empty
        rw [List.length_eq_zero_iff.mp empty]
        rfl
      · rw [List.count_append]
        rfl

theorem nulls_itemOfBytes (content : List UInt8) :
    (itemOfBytes content).nulls = 0 := by
  rw [itemOfBytes]
  split
  · rfl
  · rfl

/-- What pushes nothing and denotes something denotes null. -/
theorem nulls_denote_leaf {param : ContractParameter}
    (leaf : param.IsLeaf) {value : StackItem}
    (denotes : param.denote = some value) :
    value.nulls =
      (if param.pushesNull then 1 else 0) +
        if param.pushesNothing then 1 else 0 := by
  cases param with
  | null => cases denotes; rfl
  | any => cases denotes; rfl
  | void => cases denotes
  | boolean value => cases denotes; rfl
  | integer value => cases denotes; rfl
  | byteArray data => cases denotes; exact nulls_itemOfBytes _
  | string value => cases denotes; exact nulls_itemOfBytes _
  | hash160 hash => cases denotes; rfl
  | hash256 hash => cases denotes; rfl
  | publicKey data => cases denotes; rfl
  | signature data => cases denotes; rfl
  | array items => exact absurd leaf id
  | map entries => exact absurd leaf id
  | interopInterface => cases denotes

/-- A list denotes the values of its items. -/
theorem denoteItems_cons_eq_some {item : ContractParameter}
    {rest : List ContractParameter} {values : List StackItem}
    (denotes : denoteItems (item :: rest) = some values) :
    ∃ head tail,
      item.denote = some head ∧
        denoteItems rest = some tail ∧ values = head :: tail := by
  rw [denoteItems] at denotes
  split at denotes
  · rename_i head tail denotesHead denotesTail
    cases denotes
    exact ⟨head, tail, denotesHead, denotesTail, rfl⟩
  · cases denotes

/-- The keys of a map denote items that are compared by value. -/
theorem denoteEntries_cons_eq_some
    {entry : ContractParameter × ContractParameter}
    {rest : List (ContractParameter × ContractParameter)}
    {bindings : List (Primitive × StackItem)}
    (denotes : denoteEntries (entry :: rest) = some bindings) :
    ∃ key value tail,
      entry.1.denote = some (.primitive key) ∧
        entry.2.denote = some value ∧
          denoteEntries rest = some tail ∧
            bindings = (key, value) :: tail := by
  rw [denoteEntries] at denotes
  split at denotes
  · rename_i key value tail denotesKey denotesValue denotesTail
    cases denotes
    exact ⟨key, value, tail, denotesKey, denotesValue, denotesTail, rfl⟩
  · cases denotes

section Measure

variable (measure : StackItem → Nat) (amount : ContractParameter → Nat)

/-- What is measured of the items of a list adds up. -/
theorem measure_denoteItems {items : List ContractParameter}
    (each :
      ∀ item ∈ items, ∀ {value : StackItem},
        item.denote = some value → measure value = amount item)
    {values : List StackItem} (denotes : denoteItems items = some values) :
    (values.map measure).sum = (items.map amount).sum := by
  induction items generalizing values with
  | nil =>
      cases denotes
      rfl
  | cons item rest induction =>
      rcases List.forall_mem_cons.mp each with ⟨first, others⟩
      rcases denoteItems_cons_eq_some denotes with
        ⟨head, tail, denotesHead, denotesTail, rfl⟩
      rw [List.map_cons, List.sum_cons, List.map_cons, List.sum_cons,
        first denotesHead, induction others denotesTail]

theorem measure_denoteEntries
    {entries : List (ContractParameter × ContractParameter)}
    (each :
      ∀ entry ∈ entries,
        (∀ {value : StackItem},
          entry.1.denote = some value → measure value = amount entry.1) ∧
        ∀ {value : StackItem},
          entry.2.denote = some value → measure value = amount entry.2)
    {bindings : List (Primitive × StackItem)}
    (denotes : denoteEntries entries = some bindings) :
    (bindings.map fun binding =>
        measure (.primitive binding.1) + measure binding.2).sum =
      (entries.map fun entry => amount entry.1 + amount entry.2).sum := by
  induction entries generalizing bindings with
  | nil =>
      cases denotes
      rfl
  | cons entry rest induction =>
      rcases List.forall_mem_cons.mp each with ⟨⟨ofKey, ofValue⟩, others⟩
      rcases denoteEntries_cons_eq_some denotes with
        ⟨key, value, tail, denotesKey, denotesValue, denotesTail, rfl⟩
      rw [List.map_cons, List.sum_cons, List.map_cons, List.sum_cons,
        ofKey denotesKey, ofValue denotesValue,
        induction others denotesTail]

end Measure

/-- A map denotes a map, whose keys differ. -/
theorem denote_map_eq_some
    {entries : List (ContractParameter × ContractParameter)}
    {value : StackItem}
    (denotes : (ContractParameter.map entries).denote = some value) :
    ∃ bindings,
      denoteEntries entries = some bindings ∧
        (bindings.map Prod.fst).Nodup ∧ value = .map bindings := by
  rw [denote] at denotes
  split at denotes
  · cases denotes
  · rename_i bindings ofEntries
    split at denotes
    · rename_i distinct
      injection denotes with equal
      exact ⟨bindings, ofEntries, distinct, equal.symm⟩
    · cases denotes

/-- The nulls of a value: those that are pushed, and those that are not. -/
theorem nulls_denote {param : ContractParameter} {value : StackItem}
    (denotes : param.denote = some value) :
    value.nulls = param.pushedNulls + param.absent := by
  induction param using treeInduction generalizing value with
  | leaf param leaf =>
      rw [pushedNulls_leaf leaf, absent_leaf leaf]
      exact nulls_denote_leaf leaf denotes
  | array items each =>
      rw [denote] at denotes
      rcases Option.map_eq_some_iff.mp denotes with ⟨values, ofItems, rfl⟩
      rw [StackItem.nulls_array, pushedNulls_array, absent_array,
        ← List.sum_map_add]
      exact measure_denoteItems _ _ each ofItems
  | map entries each =>
      rcases denote_map_eq_some denotes with ⟨bindings, ofEntries, -, rfl⟩
      have inEntries :=
        measure_denoteEntries StackItem.nulls
          (fun param => param.pushedNulls + param.absent) each ofEntries
      rw [StackItem.nulls_map, pushedNulls_map, absent_map, inEntries,
        ← List.sum_map_add]
      simp only [Nat.add_add_add_comm]

/-! ## Signatures lose their bytes -/

/-- The number of bytes stored in a tree outside its signatures. -/
def dataTotal (param : ContractParameter) : Nat :=
  (param.nodes.map fun node => node.data.length).sum

/-- The number of signatures in a tree. -/
def signatures (param : ContractParameter) : Nat :=
  param.nodes.countP isSignature

theorem dataTotal_leaf {param : ContractParameter} (leaf : param.IsLeaf) :
    param.dataTotal = param.data.length := by
  simp [dataTotal, nodes_leaf leaf]

theorem signatures_leaf {param : ContractParameter} (leaf : param.IsLeaf) :
    param.signatures = if param.isSignature then 1 else 0 :=
  countP_nodes_leaf leaf

theorem dataTotal_array (items : List ContractParameter) :
    (array items).dataTotal = (items.map dataTotal).sum := by
  rw [dataTotal, nodes_array, List.map_cons, List.sum_cons]
  induction items with
  | nil => rfl
  | cons item rest induction =>
      rw [List.flatMap_cons, List.map_append, List.sum_append,
        List.map_cons, List.sum_cons, ← induction, dataTotal]
      simp only [data, List.length_nil]
      omega

theorem dataTotal_map
    (entries : List (ContractParameter × ContractParameter)) :
    (map entries).dataTotal =
      (entries.map fun entry =>
        entry.1.dataTotal + entry.2.dataTotal).sum := by
  rw [dataTotal, nodes_map, List.map_cons, List.sum_cons]
  induction entries with
  | nil => rfl
  | cons entry rest induction =>
      rw [List.flatMap_cons, List.map_append, List.sum_append,
        List.map_append, List.sum_append, List.map_cons, List.sum_cons,
        ← induction, dataTotal, dataTotal]
      simp only [data, List.length_nil]
      omega

theorem signatures_array (items : List ContractParameter) :
    (array items).signatures = (items.map signatures).sum :=
  countP_nodes_array rfl

theorem signatures_map
    (entries : List (ContractParameter × ContractParameter)) :
    (map entries).signatures =
      (entries.map fun entry =>
        entry.1.signatures + entry.2.signatures).sum :=
  countP_nodes_map rfl

theorem weight_itemOfBytes (content : List UInt8) :
    (itemOfBytes content).weight = content.length := by
  rw [itemOfBytes]
  split
  · rename_i empty
    rw [weight_primitive, empty]
    rfl
  · rw [weight_primitive]
    rfl

/-- A leaf denotes its bytes, and those of its signature. -/
theorem weight_denote_leaf {param : ContractParameter}
    (leaf : param.IsLeaf) {value : StackItem}
    (denotes : param.denote = some value) :
    value.weight =
      param.data.length + 64 * if param.isSignature then 1 else 0 := by
  cases param with
  | null => cases denotes; rfl
  | any => cases denotes; rfl
  | void => cases denotes
  | boolean value => cases denotes; rfl
  | integer value => cases denotes; rfl
  | byteArray data => cases denotes; exact weight_itemOfBytes _
  | string value => cases denotes; exact weight_itemOfBytes _
  | hash160 hash => cases denotes; exact weight_primitive _
  | hash256 hash => cases denotes; exact weight_primitive _
  | publicKey data => cases denotes; exact weight_primitive _
  | signature data =>
      cases denotes
      rw [weight_primitive]
      exact data.property
  | array items => exact absurd leaf id
  | map entries => exact absurd leaf id
  | interopInterface => cases denotes

/-- The value of a tree holds all its bytes. -/
theorem weight_denote {param : ContractParameter} {value : StackItem}
    (denotes : param.denote = some value) :
    value.weight = param.dataTotal + 64 * param.signatures := by
  induction param using treeInduction generalizing value with
  | leaf param leaf =>
      rw [dataTotal_leaf leaf, signatures_leaf leaf]
      exact weight_denote_leaf leaf denotes
  | array items each =>
      rw [denote] at denotes
      rcases Option.map_eq_some_iff.mp denotes with ⟨values, ofItems, rfl⟩
      rw [weight_array, dataTotal_array, signatures_array,
        ← List.sum_map_mul_left, ← List.sum_map_add]
      exact measure_denoteItems _ _ each ofItems
  | map entries each =>
      rcases denote_map_eq_some denotes with ⟨bindings, ofEntries, -, rfl⟩
      have inEntries :=
        measure_denoteEntries StackItem.weight
          (fun param => param.dataTotal + 64 * param.signatures) each
          ofEntries
      simp only [weight_primitive] at inEntries
      rw [weight_map, dataTotal_map, signatures_map, inEntries,
        ← List.sum_map_mul_left, ← List.sum_map_add]
      simp only [Nat.mul_add, Nat.add_add_add_comm]

theorem weight_bindPairs_le {pairs : List (StackItem × StackItem)}
    {bindings result : List (Primitive × StackItem)}
    (bound : bindPairs pairs bindings = some result) :
    (StackItem.map result).weight ≤
      (pairs.map fun pair => pair.1.weight + pair.2.weight).sum +
        (StackItem.map bindings).weight := by
  induction pairs generalizing bindings with
  | nil =>
      cases bound
      simp
  | cons pair rest induction =>
      rcases pair with ⟨key, value⟩
      cases key with
      | primitive key =>
          have later := induction bound
          have added := weight_put_le key value bindings
          simp only [List.map_cons, List.sum_cons, weight_primitive]
          omega
      | null => cases bound
      | array items => cases bound
      | map entries => cases bound

theorem weight_evaluate_leaf_le {param : ContractParameter}
    (leaf : param.IsLeaf) {value : StackItem}
    (leaves : param.evaluate = some value) :
    value.weight ≤ param.data.length := by
  by_cases signed : param.isSignature = true
  · cases param <;> try cases signed
    cases leaves
    exact Nat.zero_le _
  · have denotes : param.denote = some value := by
      cases param <;>
        first | exact absurd rfl signed | exact absurd leaf id | skip
      all_goals first | exact leaves | cases leaves
    rw [weight_denote_leaf leaf denotes, if_neg signed]
    omega

theorem weight_evaluateItems_le {items : List ContractParameter}
    (each :
      ∀ item ∈ items, ∀ {value : StackItem},
        item.evaluate = some value → value.weight ≤ item.dataTotal)
    {values : List StackItem} (leaves : evaluateItems items = some values) :
    (values.map StackItem.weight).sum ≤ (items.map dataTotal).sum := by
  induction items generalizing values with
  | nil =>
      cases leaves
      exact le_rfl
  | cons item rest induction =>
      rcases List.forall_mem_cons.mp each with ⟨first, others⟩
      rw [evaluateItems] at leaves
      split at leaves
      · rename_i head tail leavesHead leavesTail
        cases leaves
        have weightHead := first leavesHead
        have weightTail := induction others leavesTail
        simp only [List.map_cons, List.sum_cons]
        omega
      · cases leaves

theorem weight_evaluateEntries_le
    {entries : List (ContractParameter × ContractParameter)}
    (each :
      ∀ entry ∈ entries,
        (∀ {value : StackItem},
          entry.1.evaluate = some value →
            value.weight ≤ entry.1.dataTotal) ∧
        ∀ {value : StackItem},
          entry.2.evaluate = some value →
            value.weight ≤ entry.2.dataTotal)
    {pairs : List (StackItem × StackItem)}
    (leaves : evaluateEntries entries = some pairs) :
    (pairs.map fun pair => pair.1.weight + pair.2.weight).sum ≤
      (entries.map fun entry =>
        entry.1.dataTotal + entry.2.dataTotal).sum := by
  induction entries generalizing pairs with
  | nil =>
      cases leaves
      exact le_rfl
  | cons entry rest induction =>
      rcases List.forall_mem_cons.mp each with ⟨⟨ofKey, ofValue⟩, others⟩
      rw [evaluateEntries] at leaves
      split at leaves
      · rename_i key value tail leavesKey leavesValue leavesTail
        cases leaves
        have weightKey := ofKey leavesKey
        have weightValue := ofValue leavesValue
        have weightTail := induction others leavesTail
        simp only [List.map_cons, List.sum_cons]
        omega
      · cases leaves

/-- The item left on the stack holds no byte of a signature. -/
theorem weight_evaluate_le {param : ContractParameter} {value : StackItem}
    (leaves : param.evaluate = some value) :
    value.weight ≤ param.dataTotal := by
  induction param using treeInduction generalizing value with
  | leaf param leaf =>
      rw [dataTotal_leaf leaf]
      exact weight_evaluate_leaf_le leaf leaves
  | array items each =>
      rw [evaluate] at leaves
      split at leaves
      · cases leaves
      · rename_i values ofItems
        cases leaves
        rw [weight_array, dataTotal_array, List.map_reverse,
          List.sum_reverse]
        exact weight_evaluateItems_le each ofItems
  | map entries each =>
      rw [evaluate] at leaves
      split at leaves
      · cases leaves
      · rename_i pairs ofEntries
        split at leaves
        · cases leaves
        · rename_i bindings bound
          cases leaves
          have bounded := weight_bindPairs_le bound
          rw [List.map_reverse, List.sum_reverse] at bounded
          rw [dataTotal_map]
          exact bounded.trans (weight_evaluateEntries_le each ofEntries)

/-! ## Arrays come back reversed -/

theorem mirror_leaf {param : ContractParameter} (leaf : param.IsLeaf) :
    param.mirror = param := by
  cases param <;> first | rfl | exact absurd leaf id

/-- What denotes a primitive item is a leaf. -/
theorem isLeaf_of_primitive {param : ContractParameter} {key : Primitive}
    (denotes : param.denote = some (.primitive key)) :
    param.IsLeaf := by
  cases param with
  | array items =>
      rw [denote] at denotes
      rcases Option.map_eq_some_iff.mp denotes with ⟨values, -, equal⟩
      cases equal
  | map entries =>
      rcases denote_map_eq_some denotes with ⟨bindings, -, -, equal⟩
      cases equal
  | _ => trivial

theorem evaluate_leaf {param : ContractParameter} (leaf : param.IsLeaf)
    (pushes : param.pushesNothing = false)
    (unsigned : param.isSignature = false) :
    param.evaluate = param.denote := by
  cases param with
  | any => cases pushes
  | signature data => cases unsigned
  | array items => exact absurd leaf id
  | map entries => exact absurd leaf id
  | _ => rfl

theorem denoteItems_append (first second : List ContractParameter) :
    denoteItems (first ++ second) =
      match denoteItems first, denoteItems second with
      | some head, some tail => some (head ++ tail)
      | _, _ => none := by
  induction first with
  | nil =>
      rw [List.nil_append, denoteItems]
      cases denoteItems second with
      | none => rfl
      | some tail => rfl
  | cons item rest induction =>
      rw [List.cons_append, denoteItems, denoteItems, induction]
      cases denote item with
      | none => rfl
      | some value =>
          cases denoteItems rest with
          | none => rfl
          | some values =>
              cases denoteItems second with
              | none => rfl
              | some tail => rfl

theorem denoteItems_reverse (items : List ContractParameter) :
    denoteItems items.reverse = (denoteItems items).map List.reverse := by
  induction items with
  | nil => rfl
  | cons item rest induction =>
      rw [List.reverse_cons, denoteItems_append, induction]
      simp only [denoteItems]
      cases denote item with
      | none =>
          cases denoteItems rest with
          | none => rfl
          | some values => rfl
      | some value =>
          cases denoteItems rest with
          | none => rfl
          | some values => simp

/-- A binding as the pair of items it was popped from. -/
def pairOfBinding (binding : Primitive × StackItem) : StackItem × StackItem :=
  (.primitive binding.1, binding.2)

/-- Pairs with distinct keys are all bound. -/
theorem bindPairs_nodup (bindings older : List (Primitive × StackItem))
    (distinct : ((bindings.reverse ++ older).map Prod.fst).Nodup) :
    bindPairs (bindings.map pairOfBinding) older =
      some (bindings.reverse ++ older) := by
  induction bindings generalizing older with
  | nil => rfl
  | cons binding rest induction =>
      rw [List.reverse_cons, List.append_assoc, List.singleton_append]
        at distinct
      have fresh : binding.1 ∉ older.map Prod.fst := by
        rw [List.map_append, List.map_cons] at distinct
        have tail := (List.nodup_append.mp distinct).2.1
        exact (List.nodup_cons.mp tail).1
      rw [List.map_cons, pairOfBinding, bindPairs, put_of_fresh _ fresh,
        induction _ distinct]
      simp

/-- A tree in which every parameter pushes its own value. -/
def Honest (param : ContractParameter) : Prop :=
  Everywhere
    (fun node => node.pushesNothing = false ∧ node.isSignature = false) param

theorem evaluateItems_eq_mirror {items : List ContractParameter}
    {values : List StackItem} (denotes : denoteItems items = some values)
    (each :
      ∀ item ∈ items, ∀ value,
        item.denote = some value → item.evaluate = item.mirror.denote) :
    evaluateItems items = denoteItems (mirrorItems items) := by
  induction items generalizing values with
  | nil => rfl
  | cons item rest induction =>
      rcases List.forall_mem_cons.mp each with ⟨first, others⟩
      rcases denoteItems_cons_eq_some denotes with
        ⟨head, tail, denotesHead, denotesTail, -⟩
      rw [evaluateItems, first head denotesHead,
        induction denotesTail others]
      rfl

/-- The bindings of a map keep their keys and change their values alone. -/
theorem evaluateEntries_eq_mirror
    {entries : List (ContractParameter × ContractParameter)}
    {bindings : List (Primitive × StackItem)}
    (denotes : denoteEntries entries = some bindings)
    (honest :
      ∀ entry ∈ entries, Honest entry.1 ∧ Honest entry.2)
    (each :
      ∀ entry ∈ entries, ∀ value,
        entry.2.denote = some value →
          entry.2.evaluate = entry.2.mirror.denote) :
    (evaluateEntries entries = none ∧
        denoteEntries (mirrorEntries entries) = none) ∨
      ∃ mirrored,
        denoteEntries (mirrorEntries entries) = some mirrored ∧
          evaluateEntries entries = some (mirrored.map pairOfBinding) ∧
            mirrored.map Prod.fst = bindings.map Prod.fst := by
  induction entries generalizing bindings with
  | nil =>
      cases denotes
      exact .inr ⟨[], rfl, rfl, rfl⟩
  | cons entry rest induction =>
      rcases List.forall_mem_cons.mp each with ⟨ofValue, others⟩
      rcases List.forall_mem_cons.mp honest with ⟨⟨honestKey, -⟩, honestRest⟩
      rcases denoteEntries_cons_eq_some denotes with
        ⟨key, value, tail, denotesKey, denotesValue, denotesTail, rfl⟩
      have leaf := isLeaf_of_primitive denotesKey
      have atKey := (everywhere_leaf leaf).mp honestKey
      have keyLeft : entry.1.evaluate = some (.primitive key) := by
        rw [evaluate_leaf leaf atKey.1 atKey.2, denotesKey]
      have keyMirrored : entry.1.mirror.denote = some (.primitive key) := by
        rw [mirror_leaf leaf, denotesKey]
      rw [evaluateEntries, mirrorEntries, denoteEntries, keyLeft,
        keyMirrored, ofValue value denotesValue]
      cases entry.2.mirror.denote with
      | none => exact .inl ⟨rfl, rfl⟩
      | some item =>
          rcases induction denotesTail honestRest others with
            ⟨nothing, nothing'⟩ | ⟨mirrored, found, left, keys⟩
          · rw [nothing, nothing']
            exact .inl ⟨rfl, rfl⟩
          · rw [found, left]
            refine .inr ⟨(key, item) :: mirrored, rfl, rfl, ?_⟩
            rw [List.map_cons, List.map_cons, keys]

/-- An honest tree arrives as the value of its mirror image. -/
theorem evaluate_eq_mirror {param : ContractParameter} {value : StackItem}
    (honest : param.Honest) (denotes : param.denote = some value) :
    param.evaluate = param.mirror.denote := by
  induction param using treeInduction generalizing value with
  | leaf param leaf =>
      rcases (everywhere_leaf leaf).mp honest with ⟨pushes, unsigned⟩
      rw [evaluate_leaf leaf pushes unsigned, mirror_leaf leaf]
  | array items each =>
      rcases everywhere_array.mp honest with ⟨-, honestItems⟩
      rw [denote] at denotes
      rcases Option.map_eq_some_iff.mp denotes with ⟨values, ofItems, -⟩
      have same :=
        evaluateItems_eq_mirror ofItems fun item member _ denotesItem =>
          each item member (honestItems item member) denotesItem
      rw [evaluate, mirror, denote, denoteItems_reverse, same]
      cases denoteItems (mirrorItems items) with
      | none => rfl
      | some values => rfl
  | map entries each =>
      rcases everywhere_map.mp honest with ⟨-, honestEntries⟩
      rcases denote_map_eq_some denotes with
        ⟨bindings, ofEntries, distinct, -⟩
      have compared :=
        evaluateEntries_eq_mirror ofEntries honestEntries
          fun entry member _ denotesValue =>
            (each entry member).2 (honestEntries entry member).2
              denotesValue
      rw [evaluate, mirror, denote]
      rcases compared with
        ⟨nothing, nothing'⟩ | ⟨mirrored, found, left, keys⟩
      · rw [nothing, nothing']
      · have nodup : (mirrored.map Prod.fst).Nodup := by
          rw [keys]
          exact distinct
        have bound :=
          bindPairs_nodup mirrored.reverse [] (by simpa using nodup)
        rw [List.map_reverse, List.reverse_reverse, List.append_nil]
          at bound
        rw [found, left]
        dsimp only
        rw [bound, if_pos nodup]

/-! ## The strings of a tree are strings of its value -/

theorem mem_itemOfBytes {content : List UInt8} (nonempty : content ≠ []) :
    Primitive.byteString content ∈ (itemOfBytes content).primitives := by
  have positive : content.length ≠ 0 := by
    rwa [ne_eq, List.length_eq_zero_iff]
  rw [itemOfBytes, if_neg positive]
  exact List.mem_singleton_self _

theorem mem_primitives_leaf {param : ContractParameter}
    (leaf : param.IsLeaf) {value : StackItem}
    (denotes : param.denote = some value) (nonempty : param.data ≠ []) :
    Primitive.byteString param.data ∈ value.primitives := by
  cases param with
  | byteArray data => cases denotes; exact mem_itemOfBytes nonempty
  | string value => cases denotes; exact mem_itemOfBytes nonempty
  | hash160 hash => cases denotes; exact List.mem_singleton_self _
  | hash256 hash => cases denotes; exact List.mem_singleton_self _
  | publicKey data => cases denotes; exact List.mem_singleton_self _
  | array items => exact absurd leaf id
  | map entries => exact absurd leaf id
  | _ => exact absurd rfl nonempty

theorem mem_primitives_items {items : List ContractParameter}
    {node : ContractParameter}
    (each :
      ∀ item ∈ items, ∀ {value : StackItem},
        item.denote = some value → node ∈ item.nodes →
          Primitive.byteString node.data ∈ value.primitives)
    {values : List StackItem} (denotes : denoteItems items = some values)
    (member : node ∈ items.flatMap nodes) :
    Primitive.byteString node.data ∈
      values.flatMap StackItem.primitives := by
  induction items generalizing values with
  | nil => cases member
  | cons item rest induction =>
      rcases List.forall_mem_cons.mp each with ⟨first, others⟩
      rcases denoteItems_cons_eq_some denotes with
        ⟨head, tail, denotesHead, denotesTail, rfl⟩
      rw [List.flatMap_cons, List.mem_append] at member ⊢
      rcases member with inHead | inTail
      · exact .inl (first denotesHead inHead)
      · exact .inr (induction others denotesTail inTail)

theorem mem_primitives_entries
    {entries : List (ContractParameter × ContractParameter)}
    {node : ContractParameter}
    (each :
      ∀ entry ∈ entries,
        (∀ {value : StackItem},
          entry.1.denote = some value → node ∈ entry.1.nodes →
            Primitive.byteString node.data ∈ value.primitives) ∧
        ∀ {value : StackItem},
          entry.2.denote = some value → node ∈ entry.2.nodes →
            Primitive.byteString node.data ∈ value.primitives)
    {bindings : List (Primitive × StackItem)}
    (denotes : denoteEntries entries = some bindings)
    (member :
      node ∈ entries.flatMap fun entry => entry.1.nodes ++ entry.2.nodes) :
    Primitive.byteString node.data ∈
      (StackItem.map bindings).primitives := by
  rw [StackItem.primitives_map]
  induction entries generalizing bindings with
  | nil => cases member
  | cons entry rest induction =>
      rcases List.forall_mem_cons.mp each with ⟨⟨ofKey, ofValue⟩, others⟩
      rcases denoteEntries_cons_eq_some denotes with
        ⟨key, value, tail, denotesKey, denotesValue, denotesTail, rfl⟩
      rw [List.flatMap_cons, List.mem_append]
      rw [List.flatMap_cons, List.mem_append, List.mem_append] at member
      rcases member with (inKey | inValue) | inTail
      · left
        have found := ofKey denotesKey inKey
        rw [StackItem.primitives, List.mem_singleton] at found
        rw [found]
        exact List.mem_cons_self ..
      · left
        exact List.mem_cons_of_mem _ (ofValue denotesValue inValue)
      · exact .inr (induction others denotesTail inTail)

theorem mem_primitives {param node : ContractParameter} {value : StackItem}
    (denotes : param.denote = some value) (member : node ∈ param.nodes)
    (nonempty : node.data ≠ []) :
    Primitive.byteString node.data ∈ value.primitives := by
  induction param using treeInduction generalizing value with
  | leaf param leaf =>
      rw [nodes_leaf leaf, List.mem_singleton] at member
      subst member
      exact mem_primitives_leaf leaf denotes nonempty
  | array items each =>
      rw [nodes_array, List.mem_cons] at member
      rcases member with rfl | inItems
      · exact absurd rfl nonempty
      · rw [denote] at denotes
        rcases Option.map_eq_some_iff.mp denotes with ⟨values, ofItems, rfl⟩
        rw [StackItem.primitives_array]
        exact mem_primitives_items each ofItems inItems
  | map entries each =>
      rw [nodes_map, List.mem_cons] at member
      rcases member with rfl | inEntries
      · exact absurd rfl nonempty
      · rcases denote_map_eq_some denotes with
          ⟨bindings, ofEntries, -, rfl⟩
        exact mem_primitives_entries each ofEntries inEntries

/-! ## The condition -/

/-- The script leaves the value of the parameter on every stack. -/
def PushesValue (param : ContractParameter) (code : List UInt8) : Prop :=
  ∃ value,
    param.denote = some value ∧
      ∀ stack, run code stack = some (.finished, value :: stack)

/--
A tree that the compiler keeps: every parameter pushes its own value, every
byte string fits its length prefix, and reversing the arrays of the tree does
not change what it denotes.
-/
def Faithful (param : ContractParameter) : Prop :=
  param.Honest ∧ param.Short ∧
    ∃ value, param.denote = some value ∧ param.mirror.denote = some value

theorem Honest.pushes {param : ContractParameter} (honest : param.Honest) :
    Everywhere (fun node => node.pushesNothing = false) param :=
  fun node member => (honest node member).1

/-- A script that leaves the value was assembled from short strings. -/
theorem short_of_pushesValue {param : ContractParameter}
    (pushesValue : PushesValue param (assemble param.compile)) :
    param.Short := by
  rcases pushesValue with ⟨value, denotes, leaves⟩
  have pushable : AllPushable [value] :=
    runFor_pushable (List.forall_mem_nil _) (leaves [])
  intro node member
  by_cases nonempty : node.data = []
  · simp [nonempty]
  · exact
      pushable value (List.mem_singleton_self _) _
        (mem_primitives denotes member nonempty)

/-- A script that leaves one item more has no parameter missing. -/
theorem pushes_of_height {param : ContractParameter}
    (inMemory : param.InMemory) {value : StackItem}
    (ran : executeAll param.compile [] = some [value]) :
    Everywhere (fun node => node.pushesNothing = false) param := by
  have height := executeAll_height inMemory ran
  have nothingAbsent : param.absent = 0 := by
    simp only [List.length_singleton, List.length_nil] at height
    omega
  intro node member
  have present := List.countP_eq_zero.mp nothingAbsent node member
  simpa using present

/-- A tree whose whole value arrives holds no signature. -/
theorem unsigned_of_evaluate {param : ContractParameter} {value : StackItem}
    (denotes : param.denote = some value)
    (evaluates : param.evaluate = some value) :
    Everywhere (fun node => node.isSignature = false) param := by
  have whole := weight_denote denotes
  have received := weight_evaluate_le evaluates
  have none : param.signatures = 0 := by omega
  intro node member
  have unsigned := List.countP_eq_zero.mp none node member
  simpa using unsigned

/-- The emitted script leaves the value exactly for the trees it keeps. -/
theorem pushesValue_compile_iff {param : ContractParameter}
    (inMemory : param.InMemory) :
    PushesValue param (assemble param.compile) ↔ Faithful param := by
  constructor
  · intro pushesValue
    have short := short_of_pushesValue pushesValue
    rcases pushesValue with ⟨value, denotes, leaves⟩
    have ran : executeAll param.compile [] = some [value] := by
      have left := leaves []
      rw [run_compile short] at left
      rcases Option.map_eq_some_iff.mp left with ⟨stack, executed, same⟩
      cases same
      exact executed
    have pushes := pushes_of_height inMemory ran
    have evaluates : param.evaluate = some value := by
      rw [executeAll_compile pushes inMemory] at ran
      rcases Option.map_eq_some_iff.mp ran with ⟨item, evaluated, same⟩
      cases same
      exact evaluated
    have unsigned := unsigned_of_evaluate denotes evaluates
    have honest : param.Honest := fun node member =>
      ⟨pushes node member, unsigned node member⟩
    have mirrored : param.mirror.denote = some value := by
      rw [← evaluate_eq_mirror honest denotes, evaluates]
    exact ⟨honest, short, value, denotes, mirrored⟩
  · rintro ⟨honest, short, value, denotes, mirrored⟩
    refine ⟨value, denotes, fun stack => ?_⟩
    rw [run_compile short, executeAll_compile honest.pushes inMemory,
      evaluate_eq_mirror honest denotes, mirrored]
    rfl

end ContractParameter

namespace ScriptBuilder

open ContractParameter

/-- What the builder holds beyond what it held before. -/
def Leaves (builder pushed : BinaryWriter)
    (property : List UInt8 → Prop) : Prop :=
  ∃ code, pushed.contents = builder.contents ++ code ∧ property code

theorem leaves_iff {call : Routine BinaryWriter Unit} {bytes : List UInt8}
    {builder pushed : BinaryWriter} {property : List UInt8 → Prop}
    (appends : BinaryWriter.Appends call bytes)
    (wellFormed : builder.WellFormed)
    (ran : call builder = (.ok (), pushed)) :
    Leaves builder pushed property ↔ property bytes := by
  have contents := (appends builder pushed wellFormed ran).2.2
  constructor
  · rintro ⟨code, extended, holds⟩
    rw [contents, List.append_cancel_left_eq] at extended
    rwa [extended]
  · intro holds
    exact ⟨bytes, contents, holds⟩

theorem pushParams_appends {alloc : Allocator}
    (params : Slice ContractParameter) :
    AppendsProgram (pushParams alloc params)
      (array params.content).compile := by
  cases params with
  | null count =>
      rw [pushParams]
      split
      · exact BinaryWriter.appends_halt _ _
      · exact BinaryWriter.Emits.appends (emit_assembles rfl)
  | items items =>
      rw [pushParams_eq]
      exact pushParam_appends (array items)

/--
A pushed parameter, and a pushed list of parameters, leaves exactly its value
on the stack if and only if the compiler keeps the tree.
-/
theorem pushParam_leaves_value_iff
    {alloc : Allocator}
    {builder pushed : BinaryWriter}
    (wellFormed : builder.WellFormed) :
    (∀ param : ContractParameter,
        param.InMemory → pushParam alloc param builder = (.ok (), pushed) →
          (Leaves builder pushed (PushesValue param) ↔ Faithful param)) ∧
      ∀ params : Slice ContractParameter,
        (array params.content).InMemory →
          pushParams alloc params builder = (.ok (), pushed) →
            (Leaves builder pushed (PushesValue (array params.content)) ↔
              Faithful (array params.content)) := by
  constructor
  · intro param inMemory ran
    rw [leaves_iff (pushParam_appends param) wellFormed ran]
    exact pushesValue_compile_iff inMemory
  · intro params inMemory ran
    rw [leaves_iff (pushParams_appends params) wellFormed ran]
    exact pushesValue_compile_iff inMemory

theorem wellFormed_fresh :
    BinaryWriter.WellFormed
      { data := List.replicate 16 0, position := 0, autoGrow := true } := by
  constructor <;> decide

/-- A palindrome of numbers. -/
def palindrome : List ContractParameter :=
  [.integer 1, .integer 2, .integer 1]

/-- A number that is bound to the palindrome. -/
def boundPalindrome : ContractParameter :=
  .map [(.integer 5, .array palindrome)]

/-- The map, and the palindrome as a list, leave their values. -/
theorem pushParam_leaves_value_of_palindrome :
    Leaves { data := List.replicate 16 0, position := 0, autoGrow := true }
        { data :=
            0x11 :: 0x12 :: 0x11 :: 0x13 :: 0xC0 :: 0x15 :: 0x11 :: 0xBE ::
              List.replicate 8 0
          position := 8
          autoGrow := true }
        (PushesValue boundPalindrome) ∧
      Leaves { data := List.replicate 16 0, position := 0, autoGrow := true }
        { data :=
            0x11 :: 0x12 :: 0x11 :: 0x13 :: 0xC0 :: List.replicate 11 0
          position := 5
          autoGrow := true }
        (PushesValue (.array palindrome)) := by
  have faithful : Faithful boundPalindrome := by
    refine ⟨?_, ?_, _, rfl, rfl⟩
    · unfold Honest Everywhere
      decide
    · unfold Short Everywhere
      decide
  have faithfulList : Faithful (.array palindrome) := by
    refine ⟨?_, ?_, _, rfl, rfl⟩
    · unfold Honest Everywhere
      decide
    · unfold Short Everywhere
      decide
  have inMemory : boundPalindrome.InMemory := by
    unfold InMemory Everywhere
    decide
  have inMemoryList : (array palindrome).InMemory := by
    unfold InMemory Everywhere
    decide
  constructor
  · exact
      ((@pushParam_leaves_value_iff .ample _ _ wellFormed_fresh).1
        boundPalindrome inMemory rfl).mpr faithful
  · exact
      ((@pushParam_leaves_value_iff .ample _ _ wellFormed_fresh).2
        (.items palindrome) inMemoryList rfl).mpr faithfulList

/-- The array of one and two arrives as the array of two and one. -/
theorem pushParam_reverses_array :
    ¬∀ (alloc : Allocator) (builder pushed : BinaryWriter)
        (param : ContractParameter),
      builder.WellFormed → param.InMemory →
        pushParam alloc param builder = (.ok (), pushed) →
          Leaves builder pushed (PushesValue param) := by
  intro always
  have inMemory :
      (ContractParameter.array [.integer 1, .integer 2]).InMemory := by
    have small (value : Int64) :
        (ContractParameter.integer value).InMemory :=
      (everywhere_leaf (show IsLeaf (.integer value) from trivial)).mpr
        (Nat.zero_le _)
    refine everywhere_array.mpr ⟨by decide, ?_⟩
    exact
      List.forall_mem_cons.mpr
        ⟨small 1, List.forall_mem_singleton.mpr (small 2)⟩
  have leaves :=
    always .ample
      { data := List.replicate 16 0, position := 0, autoGrow := true }
      { data := 0x11 :: 0x12 :: 0x12 :: 0xC0 :: List.replicate 12 0,
        position := 4, autoGrow := true }
      (.array [.integer 1, .integer 2]) wellFormed_fresh inMemory rfl
  rcases leaves with ⟨code, extended, value, denotes, run⟩
  have emitted : code = [0x11, 0x12, 0x12, 0xC0] := extended.symm
  have ran := run []
  rw [emitted] at ran
  cases denotes
  cases ran

end ScriptBuilder

end NeoC
