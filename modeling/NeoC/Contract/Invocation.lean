import NeoC.Script.ContractCall

/-!
# Contract invocations

`neoc_contract_build_invocation_script` pushes the parameters of an
invocation, last one first, and then lets `neoc_script_builder_contract_call`
count and pack them.  Between the two it pushes the operation once more.
That string is on top when `PACK` counts, so it becomes the first argument,
every parameter moves up by one and the last one stays below the call.

A parameter that pushes nothing can make up for the height of the stack, but
not for its own value: the null it stands for is pushed by nobody.
-/

namespace NeoC

open Foundation NeoVm

/-! ## Invocations -/

/-- A `neoc_contract_invocation_t`. -/
structure ContractInvocation where
  scriptHash : Hash160
  operation : CString
  params : List ContractParameter
  /-- Every array of pointers is an object. -/
  inMemory : (ContractParameter.array params).InMemory

namespace ContractParameter

/-- `sizeof(neoc_contract_parameter_t)`. -/
def structSize : Nat := 80

/-- `neoc_contract_param_create_hash160`. -/
def createHash160 (alloc : Allocator) (hash : Hash160) :
    Outcome ContractParameter :=
  if alloc.grants structSize then
    .ok (.hash160 hash)
  else
    .error (.error .outOfMemory "Failed to allocate parameter")

/-- `neoc_contract_param_create_integer`. -/
def createInteger (alloc : Allocator) (value : Int64) :
    Outcome ContractParameter :=
  if alloc.grants structSize then
    .ok (.integer value)
  else
    .error (.error .outOfMemory "Failed to allocate parameter")

end ContractParameter

namespace ContractInvocation

/-- `sizeof(neoc_contract_invocation_t)`. -/
def structSize : Nat := 48

/--
`neoc_contract_invocation_create`.  The operation is copied before the
pointer to its copy is looked at.
-/
def create (alloc : Allocator) (scriptHash : Hash160) (operation : CString)
    (params : Slice ContractParameter)
    (inMemory : (ContractParameter.array params.content).InMemory) :
    Outcome ContractInvocation :=
  if alloc.neocGrants structSize = false then
    .error (.error .outOfMemory "Failed to allocate invocation")
  else if alloc.neocGrants (operation.strlen + 1) = false then
    .error .illegalAccess
  else if params.content.length > 0 ∧
      alloc.neocGrants (params.content.length * 8) = false then
    .error (.error .outOfMemory "Failed to allocate parameters")
  else
    .ok { scriptHash, operation, params := params.content, inMemory }

/-- `neoc_contract_build_invocation_script`. -/
def buildInvocationScript (host : Host) (alloc : Allocator)
    (invocation : ContractInvocation) : Routine BinaryWriter Unit := do
  ScriptBuilder.pushReversed alloc invocation.params
  ScriptBuilder.pushString alloc invocation.operation
  ScriptBuilder.contractCall host alloc invocation.scriptHash
    invocation.operation invocation.params.length ScriptBuilder.callFlagsAll

open ContractParameter

/-- The parameters of a transfer; without data there are three of them. -/
def transferParams (source target : Hash160) (amount : Int64)
    (data : Option ContractParameter) : List ContractParameter :=
  [.hash160 source, .hash160 target, .integer amount] ++ data.toList

theorem inMemory_transferParams {source target : Hash160} {amount : Int64}
    {data : Option ContractParameter}
    (inMemory : ∀ param ∈ data, param.InMemory) :
    (array (transferParams source target amount data)).InMemory := by
  have leaf (param : ContractParameter) (isLeaf : param.IsLeaf)
      (alone : param.count = 0) : param.InMemory :=
    (everywhere_leaf isLeaf).mpr (by rw [alone]; exact Nat.zero_le _)
  refine everywhere_array.mpr ⟨?_, ?_⟩
  · have few : data.toList.length ≤ 1 := Option.length_toList_le
    simp only [count, transferParams, List.length_append, List.length_cons,
      List.length_nil, ptrdiffMax]
    omega
  · intro param member
    rcases List.mem_append.mp member with fixed | given
    · simp only [List.mem_cons, List.not_mem_nil, or_false] at fixed
      rcases fixed with rfl | rfl | rfl
      · exact leaf _ trivial rfl
      · exact leaf _ trivial rfl
      · exact leaf _ trivial rfl
    · exact inMemory param (Option.mem_toList.mp given)

/-- `neoc_nep17_transfer_create`; `none` is a `NULL` pointer. -/
def nep17TransferCreate (alloc : Allocator)
    (tokenHash source target : Hash160) (amount : Int64)
    (data : Option ContractParameter)
    (inMemory : ∀ param ∈ data, param.InMemory) :
    Outcome ContractInvocation := do
  let _ ← createHash160 alloc source
  let _ ← createHash160 alloc target
  let _ ← createInteger alloc amount
  create alloc tokenHash (CString.ofString "transfer")
    (.items (transferParams source target amount data))
    (inMemory_transferParams inMemory)

/-! ## The emitted program -/

/-- The parameters that the loop over an `int` reaches. -/
def reached (params : List ContractParameter) : List ContractParameter :=
  params.take (Int32.ofNat params.length).toInt.toNat

/-- What stands before the method, the hash and the call. -/
def operandProgram (invocation : ContractInvocation) : List Instruction :=
  compileItems (reached invocation.params).reverse ++
    ([ScriptBuilder.instructionOfBytes invocation.operation.characters] ++
      (ScriptBuilder.packProgram invocation.params.length ++
        [.pushInt (Int64.ofNat ScriptBuilder.callFlagsAll.toNat).toInt]))

variable {host : Host} {alloc : Allocator}

theorem buildInvocationScript_appends (invocation : ContractInvocation) :
    ScriptBuilder.AppendsProgram
      (buildInvocationScript host alloc invocation)
      (operandProgram invocation ++
        ScriptBuilder.callTail host invocation.operation
          invocation.scriptHash.toBytes) := by
  rw [operandProgram]
  simp only [List.append_assoc]
  exact
    (ScriptBuilder.pushReversed_appends invocation.params).bind
      (ScriptBuilder.AppendsProgram.bind
        (ScriptBuilder.pushData_assembles
          invocation.operation.characters).appends
        (ScriptBuilder.contractCall_assembles invocation.scriptHash
          invocation.operation invocation.params.length
          ScriptBuilder.callFlagsAll).appends)

/-- The bytes that a fresh builder holds after the call. -/
theorem contents_of_built {invocation : ContractInvocation}
    {builder built : BinaryWriter}
    (created : ScriptBuilder.create alloc = .ok builder)
    (succeeded :
      buildInvocationScript host alloc invocation builder =
        (.ok (), built)) :
    built.contents =
      assemble
        (operandProgram invocation ++
          ScriptBuilder.callTail host invocation.operation
            invocation.scriptHash.toBytes) := by
  have fresh := ScriptBuilder.fresh_create alloc builder created
  have contents :=
    (buildInvocationScript_appends invocation builder built fresh.1
      succeeded).2.2
  rw [contents, fresh.2.2]
  rfl

/-! ## What the call finds on the stack -/

/--
Run on an empty stack, the bytes stop at their call with four operands and
nothing below: a hash, the operation, the call flags and the arguments.
-/
def LeavesOperands (host : Host) (hashBytes : List UInt8)
    (operation : CString) (flags : Int) (args : List StackItem)
    (script : List UInt8) : Prop :=
  run script [] =
    some
      (.syscall (host.interopGetHash .systemContractCall),
        [.byteString hashBytes, itemOfBytes operation.characters,
          .integer flags, .array args])

/-- Packing takes as many items as it counts and leaves one. -/
theorem executeAll_packProgram_height {count : Nat}
    (bounded : count ≤ ptrdiffMax) {stack stack' : List StackItem}
    (ran :
      executeAll (ScriptBuilder.packProgram count) stack = some stack') :
    stack'.length + count = stack.length + 1 := by
  rw [ScriptBuilder.packProgram] at ran
  split at ran
  · rename_i empty
    cases ran
    rw [empty]
    rfl
  · rw [toInt_count bounded] at ran
    change (execute .pack (.integer count :: stack)).bind (executeAll []) =
      some stack' at ran
    rw [execute, Int.toNat_natCast] at ran
    split at ran
    · rename_i enough
      cases ran
      simp only [List.length_cons, List.length_drop]
      omega
    · cases ran

/-- The operation that is pushed once more makes the stack one too high. -/
theorem operandProgram_height {invocation : ContractInvocation}
    {stack : List StackItem}
    (ran : executeAll (operandProgram invocation) [] = some stack) :
    stack.length + ((reached invocation.params).map absent).sum +
        invocation.params.length =
      (reached invocation.params).length + 3 := by
  rcases everywhere_array.mp invocation.inMemory with ⟨whole, each⟩
  have bounded : invocation.params.length ≤ ptrdiffMax := whole
  rw [operandProgram, executeAll_append] at ran
  rcases Option.bind_eq_some_iff.mp ran with ⟨pushed, ranItems, rest⟩
  have height :
      pushed.length + ((reached invocation.params).reverse.map absent).sum =
        0 + (reached invocation.params).reverse.length := by
    apply executeAll_items_height _ ranItems
    intro item member
    exact
      executeAll_height
        (each item (List.mem_of_mem_take (List.mem_reverse.mp member)))
  rw [executeAll_append, executeAll_singleton, execute_instructionOfBytes,
    Option.bind_some, executeAll_append] at rest
  rcases Option.bind_eq_some_iff.mp rest with ⟨packed, ranPack, ranFlags⟩
  have lower := executeAll_packProgram_height bounded ranPack
  cases ranFlags
  rw [List.map_reverse, List.sum_reverse] at height
  simp only [List.length_cons, List.length_reverse] at height lower ⊢
  omega

/-- An `int` loop does not stop one parameter short. -/
theorem length_reached_ne (params : List ContractParameter) :
    (reached params).length + 1 ≠ params.length := by
  rw [reached, List.length_take, Int32.toInt_ofNat', Int.bmod_def]
  simp only [Int32.size]
  split
  · omega
  · omega

/-- Parameters that all push something never leave exactly two items. -/
theorem not_two_of_present {invocation : ContractInvocation}
    (present : ∀ param ∈ invocation.params, param.absent = 0)
    {first second : StackItem} :
    executeAll (operandProgram invocation) [] ≠ some [first, second] := by
  intro ran
  have height := operandProgram_height ran
  have none : ((reached invocation.params).map absent).sum = 0 := by
    apply List.sum_eq_zero
    intro missing member
    rcases List.mem_map.mp member with ⟨param, inside, rfl⟩
    exact present param (List.mem_of_mem_take inside)
  have short := length_reached_ne invocation.params
  simp only [List.length_cons, List.length_nil] at height
  omega

/-- The arguments of the call have no more nulls than were pushed. -/
theorem nulls_le_of_operands {invocation : ContractInvocation} {flags : Int}
    {args : List StackItem}
    (ran :
      executeAll (operandProgram invocation) [] =
        some [.integer flags, .array args]) :
    (StackItem.array args).nulls ≤
      (invocation.params.map pushedNulls).sum := by
  have made := executeAll_nulls_le ran
  have pushed :
      (operandProgram invocation).count .pushNull =
        ((reached invocation.params).map pushedNulls).sum := by
    have items :=
      @count_pushNull_items (reached invocation.params).reverse
        fun item _ => count_pushNull_compile item
    rw [List.map_reverse, List.sum_reverse] at items
    rw [operandProgram, List.count_append, List.count_append,
      List.count_append, items, count_pushNull_bytes,
      ScriptBuilder.packProgram]
    split
    · rfl
    · rfl
  have fewer :
      ((reached invocation.params).map pushedNulls).sum ≤
        (invocation.params.map pushedNulls).sum :=
    ((List.take_sublist _ invocation.params).map pushedNulls).sum_le_sum
      fun _ _ => Nat.zero_le _
  rw [pushed] at made
  rw [StackItem.nulls]
  simp only [StackItem.nullsOfItems, StackItem.nulls] at made
  omega

/-- The operands are never the parameters, whatever the list of them is. -/
theorem not_operands_of_denotes {invocation : ContractInvocation}
    {flags : Int} {args : List StackItem}
    (denotes : denoteItems invocation.params = some args) :
    executeAll (operandProgram invocation) [] ≠
      some [.integer flags, .array args] := by
  intro ran
  have pushed := nulls_le_of_operands ran
  have expected :
      (StackItem.array args).nulls =
        (invocation.params.map pushedNulls).sum +
          (invocation.params.map absent).sum := by
    rw [StackItem.nulls_array, ← List.sum_map_add]
    exact
      measure_denoteItems _ _ (fun item _ _ known => nulls_denote known)
        denotes
  have none : (invocation.params.map absent).sum = 0 := by omega
  refine not_two_of_present ?_ ran
  intro param member
  exact
    List.sum_eq_zero_iff.mp none param.absent (List.mem_map_of_mem member)

/-- What stops at its call was assembled from short strings. -/
theorem executeAll_of_leavesOperands {invocation : ContractInvocation}
    {hashBytes : List UInt8} {flags : Int} {args : List StackItem}
    (short : (array invocation.params).Short)
    (leaves :
      LeavesOperands host hashBytes invocation.operation flags args
        (assemble
          (operandProgram invocation ++
            ScriptBuilder.callTail host invocation.operation
              invocation.scriptHash.toBytes))) :
    executeAll (operandProgram invocation) [] =
      some [.integer flags, .array args] := by
  have pushable := runFor_pushable (List.forall_mem_nil _) leaves
  have shortOperation :
      invocation.operation.characters.length < 0x100000000 := by
    by_cases empty : invocation.operation.characters = []
    · rw [empty]
      decide
    · exact
        pushable (itemOfBytes invocation.operation.characters) (by simp) _
          (mem_itemOfBytes empty)
  have straight :
      ∀ instruction ∈ operandProgram invocation, Straight instruction := by
    rw [operandProgram]
    simp only [List.forall_mem_append, List.forall_mem_singleton]
    refine
      ⟨?_, straight_instructionOfBytes shortOperation,
        ScriptBuilder.straight_packProgram _, straight_pushInt _⟩
    apply straight_items
    intro item member
    apply straight_compile
    exact
      (everywhere_array.mp short).2 item
        (List.mem_of_mem_take (List.mem_reverse.mp member))
  have exact : invocation.scriptHash.toBytes.length = 20 :=
    invocation.scriptHash.property
  rw [LeavesOperands,
    ← List.append_nil (ScriptBuilder.callTail host invocation.operation
      invocation.scriptHash.toBytes),
    ScriptBuilder.run_call straight shortOperation exact
      (List.forall_mem_nil _)] at leaves
  rcases Option.map_eq_some_iff.mp leaves with ⟨stack, ran, same⟩
  cases same
  exact ran

/-- Arguments that arrive were pushed as short strings. -/
theorem short_of_leavesOperands {params : List ContractParameter}
    {hashBytes script : List UInt8} {operation : CString} {flags : Int}
    {args : List StackItem}
    (denotes : denoteItems params = some args)
    (leaves :
      LeavesOperands host hashBytes operation flags args script) :
    (array params).Short := by
  have pushable := runFor_pushable (List.forall_mem_nil _) leaves
  have whole : (array params).denote = some (.array args) := by
    rw [denote, denotes]
    rfl
  intro node member
  by_cases empty : node.data = []
  · simp [empty]
  · exact
      pushable (.array args) (by simp) _ (mem_primitives whole member empty)

/-! ## Transfers -/

/-- The item a token contract should receive for the data of a transfer. -/
def transferData : Option ContractParameter → Option StackItem
  | none => some .null
  | some data => data.denote

/-- The arguments a token contract should receive for a transfer. -/
def transferArguments (source target : Hash160) (amount : Int64)
    (data : StackItem) : List StackItem :=
  [.byteString source.toLittleEndianBytes,
    .byteString target.toLittleEndianBytes, .integer amount.toInt, data]

theorem nep17TransferCreate_eq_ok {tokenHash source target : Hash160}
    {amount : Int64} {data : Option ContractParameter}
    {inMemory : ∀ param ∈ data, param.InMemory}
    {invocation : ContractInvocation}
    (created :
      nep17TransferCreate alloc tokenHash source target amount data
        inMemory = .ok invocation) :
    invocation.operation = CString.ofString "transfer" ∧
      invocation.params = transferParams source target amount data := by
  rw [nep17TransferCreate] at created
  rcases Except.bind_eq_ok_iff.mp created with ⟨_, -, created⟩
  rcases Except.bind_eq_ok_iff.mp created with ⟨_, -, created⟩
  rcases Except.bind_eq_ok_iff.mp created with ⟨_, -, created⟩
  unfold create at created
  split at created
  · cases created
  · split at created
    · cases created
    · split at created
      · cases created
      · cases created
        exact ⟨rfl, rfl⟩

/-- Without data the three parameters are short, and all of them push. -/
theorem transferParams_none (source target : Hash160) (amount : Int64) :
    (array (transferParams source target amount none)).Short ∧
      ∀ param ∈ transferParams source target amount none,
        param.absent = 0 := by
  have positive : 0 < 0x100000000 := by decide
  have short (hash : Hash160) : (hash160 hash).Short := by
    refine (everywhere_leaf (show IsLeaf (hash160 hash) from trivial)).mpr ?_
    rw [data, Hash160.toLittleEndianBytes, List.length_reverse, hash.property]
    decide
  have shortAmount : (integer amount).Short :=
    (everywhere_leaf (show IsLeaf (integer amount) from trivial)).mpr
      positive
  have members :
      transferParams source target amount none =
        [.hash160 source, .hash160 target, .integer amount] :=
    rfl
  rw [members]
  constructor
  · refine everywhere_array.mpr ⟨positive, ?_⟩
    simp only [List.forall_mem_cons]
    exact ⟨short source, short target, shortAmount, List.forall_mem_nil _⟩
  · simp only [List.forall_mem_cons]
    exact ⟨rfl, rfl, rfl, List.forall_mem_nil _⟩

/-! ## No invocation calls with its parameters -/

/-- The operands are not the parameters, for any invocation. -/
theorem not_leavesOperands {builder built : BinaryWriter}
    {invocation : ContractInvocation} {hashBytes : List UInt8} {flags : Int}
    {args : List StackItem}
    (created : ScriptBuilder.create alloc = .ok builder)
    (succeeded :
      buildInvocationScript host alloc invocation builder = (.ok (), built))
    (denotes : denoteItems invocation.params = some args) :
    ¬LeavesOperands host hashBytes invocation.operation flags args
      built.contents := by
  intro leaves
  have short := short_of_leavesOperands denotes leaves
  rw [contents_of_built created succeeded] at leaves
  exact
    not_operands_of_denotes denotes
      (executeAll_of_leavesOperands short leaves)

/-- A transfer without data leaves one item too many. -/
theorem not_leavesOperands_of_three {builder built : BinaryWriter}
    {invocation : ContractInvocation} {hashBytes : List UInt8} {flags : Int}
    {args : List StackItem} {source target : Hash160} {amount : Int64}
    (created : ScriptBuilder.create alloc = .ok builder)
    (succeeded :
      buildInvocationScript host alloc invocation builder = (.ok (), built))
    (params :
      invocation.params = transferParams source target amount none) :
    ¬LeavesOperands host hashBytes invocation.operation flags args
      built.contents := by
  intro leaves
  rcases transferParams_none source target amount with ⟨short, present⟩
  rw [← params] at short present
  rw [contents_of_built created succeeded] at leaves
  exact not_two_of_present present (executeAll_of_leavesOperands short leaves)

/--
No script that is built for an invocation calls with the operands it should,
whatever the parameters are, and none that is built for a transfer does.
-/
theorem buildInvocationScript_never_leavesOperands
    {builder built : BinaryWriter}
    {invocation : ContractInvocation}
    (created : ScriptBuilder.create alloc = .ok builder)
    (succeeded :
      buildInvocationScript host alloc invocation builder =
        (.ok (), built)) :
    (¬∃ hashBytes flags args,
        denoteItems invocation.params = some args ∧
          LeavesOperands host hashBytes invocation.operation flags args
            built.contents) ∧
      ∀ transferAlloc tokenHash source target amount data inMemory,
        nep17TransferCreate transferAlloc tokenHash source target amount
            data inMemory = .ok invocation →
          ¬∃ hashBytes flags item,
            transferData data = some item ∧
              LeavesOperands host hashBytes (CString.ofString "transfer")
                flags (transferArguments source target amount item)
                built.contents := by
  constructor
  · rintro ⟨hashBytes, flags, args, denotes, leaves⟩
    exact not_leavesOperands created succeeded denotes leaves
  · intro transferAlloc tokenHash source target amount data inMemory made
    rintro ⟨hashBytes, flags, item, received, leaves⟩
    rcases nep17TransferCreate_eq_ok made with ⟨operation, params⟩
    rw [← operation] at leaves
    cases data with
    | none =>
        exact not_leavesOperands_of_three created succeeded params leaves
    | some data =>
        have known : data.denote = some item := received
        have denotes :
            denoteItems invocation.params =
              some (transferArguments source target amount item) := by
          rw [params]
          change
            denoteItems
                [.hash160 source, .hash160 target, .integer amount, data] =
              _
          simp only [denoteItems, denote, known]
          rfl
        exact not_leavesOperands created succeeded denotes leaves

/-- An invocation of `f` with the number five. -/
def oneNumber : ContractInvocation where
  scriptHash := ⟨List.replicate 20 0, rfl⟩
  operation := CString.ofString "f"
  params := [.integer 5]
  inMemory :=
    everywhere_array.mpr
      ⟨by decide,
        List.forall_mem_singleton.mpr
          ((everywhere_leaf (show IsLeaf (.integer 5) from trivial)).mpr
            (Nat.zero_le _))⟩

/-- A builder that holds no script yet. -/
def emptyBuilder : BinaryWriter where
  data := List.replicate 256 0
  position := 0
  autoGrow := true

/-- The builder with the script of the invocation. -/
def oneNumberBuilder : BinaryWriter :=
  (buildInvocationScript (Host.ofTables serviceDigests []) .ample
    oneNumber emptyBuilder).2

theorem oneNumber_succeeds :
    buildInvocationScript (Host.ofTables serviceDigests []) .ample
      oneNumber emptyBuilder = (.ok (), oneNumberBuilder) := by
  have succeeds :
      (buildInvocationScript (Host.ofTables serviceDigests [])
        .ample oneNumber emptyBuilder).1.isOk = true := by
    decide +kernel
  rw [oneNumberBuilder]
  rcases ran :
      buildInvocationScript (Host.ofTables serviceDigests [])
        .ample oneNumber emptyBuilder with
    ⟨reason | value, after⟩
  · rw [ran] at succeeds
    cases succeeds
  · rfl

/-- It does not call with the array of five. -/
theorem oneNumber_never_leavesOperands :
    ScriptBuilder.create .ample = .ok emptyBuilder ∧
      ¬∃ hashBytes flags args,
        denoteItems oneNumber.params = some args ∧
          LeavesOperands (Host.ofTables serviceDigests []) hashBytes
            oneNumber.operation flags args oneNumberBuilder.contents :=
  ⟨rfl,
    (buildInvocationScript_never_leavesOperands rfl oneNumber_succeeds).1⟩

/-- It calls with the array of its own name, and five is left below. -/
theorem oneNumber_calls_with_operation :
    ScriptBuilder.create .ample = .ok emptyBuilder ∧
      buildInvocationScript (Host.ofTables serviceDigests [])
          .ample oneNumber emptyBuilder =
        (.ok (), oneNumberBuilder) ∧
      run oneNumberBuilder.contents [] =
        some
          (.syscall
              ((Host.ofTables serviceDigests []).interopGetHash
                .systemContractCall),
            [.byteString (List.replicate 20 0), .byteString [0x66],
              .integer 15, .array [.byteString [0x66]], .integer 5]) ∧
      ¬LeavesOperands (Host.ofTables serviceDigests [])
        (List.replicate 20 0) oneNumber.operation 15 [.integer 5]
        oneNumberBuilder.contents := by
  have straight :
      ∀ instruction ∈ operandProgram oneNumber, Straight instruction := by
    have program :
        operandProgram oneNumber =
          [.pushInt 5, .pushData [0x66], .pushInt 1, .pack, .pushInt 15] := by
      decide +kernel
    rw [program]
    simp [Straight, Instruction.Encodable, Instruction.Plain]
  have ran :
      run oneNumberBuilder.contents [] =
        some
          (.syscall
              ((Host.ofTables serviceDigests []).interopGetHash
                .systemContractCall),
            [.byteString (List.replicate 20 0), .byteString [0x66],
              .integer 15, .array [.byteString [0x66]], .integer 5]) := by
    rw [contents_of_built rfl oneNumber_succeeds,
      ← List.append_nil (ScriptBuilder.callTail _ _ _),
      ScriptBuilder.run_call straight (by decide +kernel) rfl
        (List.forall_mem_nil _)]
    rfl
  refine ⟨rfl, oneNumber_succeeds, ran, ?_⟩
  intro leaves
  have same := ran.symm.trans leaves
  injection same with pair
  injection pair with _ items
  have heights := congrArg List.length items
  cases heights

end ContractInvocation

end NeoC
