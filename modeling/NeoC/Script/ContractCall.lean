import NeoC.Script.ParameterSemantics

/-!
# Scripts that call a contract

`System.Contract.Call` takes four operands from the evaluation stack: the
hash of the contract on top, below it the method, below it the call flags
and below them the array of arguments.  Four functions of the script library
emit such calls, each for itself.  They end in the same three instructions
and differ in what comes before: where the arguments come from, whether the
call flags are pushed, and in which order the hash is written.

`run_call` reduces the run of all of them to the run of their arguments.
-/

namespace NeoC

open Foundation NeoVm

namespace ScriptBuilder

/-! ## The producers -/

/-- `NEOC_CALL_FLAGS_ALL`. -/
def callFlagsAll : UInt32 := 0x0F

/-- The array of arguments, made of items that are on the stack. -/
def packArguments (alloc : Allocator) (paramCount : Nat) :
    Routine BinaryWriter Unit :=
  if paramCount = 0 then
    emit alloc Opcode.newArray0
  else do
    pushInteger alloc (Int64.ofNat paramCount)
    emit alloc Opcode.pack

/-- The method, the hash and the call, which end every producer. -/
def finishCall (host : Host) (alloc : Allocator) (method : CString)
    (hashBytes : List UInt8) : Routine BinaryWriter Unit := do
  pushString alloc method
  pushData alloc (.items hashBytes)
  emitSyscall host alloc .systemContractCall

/-- `neoc_script_builder_contract_call`; it does not read `params`. -/
def contractCall (host : Host) (alloc : Allocator) (scriptHash : Hash160)
    (method : CString) (paramCount : Nat) (callFlags : UInt32) :
    Routine BinaryWriter Unit := do
  packArguments alloc paramCount
  pushInteger alloc (Int64.ofNat callFlags.toNat)
  finishCall host alloc method scriptHash.toBytes

/-- `neoc_script_builder_emit_app_call`. -/
def emitAppCall (host : Host) (alloc : Allocator) (scriptHash : Hash160)
    (method : CString) (paramCount : UInt8) :
    Routine BinaryWriter Unit := do
  packArguments alloc paramCount.toNat
  pushInteger alloc (Int64.ofNat callFlagsAll.toNat)
  finishCall host alloc method scriptHash.toLittleEndianBytes

/--
`for (int i = (int)param_count - 1; i >= 0; i--)`.  The count is cut to 32
bits, and one less than the smallest `int` is no `int`.
-/
def pushReversed (alloc : Allocator) (params : List ContractParameter) :
    Routine BinaryWriter Unit :=
  let count := (Int32.ofNat params.length).toInt
  if count = -2147483648 then
    Call.halt .signedOverflow
  else
    pushItems alloc (params.take count.toNat).reverse

/-- `neoc_script_create_contract_call`. -/
def createContractCall (host : Host) (alloc : Allocator)
    (contractHash : Hash160) (method : CString)
    (params : Slice ContractParameter) : Outcome (List UInt8) :=
  build alloc do
    pushReversed alloc params.content
    packArguments alloc params.len
    finishCall host alloc method contractHash.val

/-- The data of a transfer, or null if there is none. -/
def pushTransferData (alloc : Allocator) (data : Buffer) :
    Routine BinaryWriter Unit :=
  if data.content.length > 0 then
    pushData alloc (.items data.content)
  else
    emit alloc Opcode.pushNull

/-- The call of `transfer`, which two functions emit in the same way. -/
def pushTransfer (host : Host) (alloc : Allocator)
    (tokenHash source target : Hash160) (amount : UInt64) (data : Buffer) :
    Routine BinaryWriter Unit := do
  pushTransferData alloc data
  pushInteger alloc amount.toInt64
  pushData alloc (.items target.val)
  pushData alloc (.items source.val)
  pushInteger alloc 4
  emit alloc Opcode.pack
  finishCall host alloc (CString.ofString "transfer") tokenHash.val

/-- `neoc_script_create_nep17_transfer`. -/
def createNep17Transfer (host : Host) (alloc : Allocator)
    (tokenHash source target : Hash160) (amount : UInt64) (data : Buffer) :
    Outcome (List UInt8) :=
  build alloc do
    pushTransfer host alloc tokenHash source target amount data
    emit alloc Opcode.assert

/-! ## The emitted programs -/

/-- The program of `packArguments`. -/
def packProgram (count : Nat) : List Instruction :=
  if count = 0 then [.newArray0]
  else [.pushInt (Int64.ofNat count).toInt, .pack]

/-- The method, the hash and the call. -/
def callTail (host : Host) (method : CString) (hashBytes : List UInt8) :
    List Instruction :=
  [instructionOfBytes method.characters, instructionOfBytes hashBytes,
    .syscall (host.interopGetHash .systemContractCall)]

/-- The program that pushes the arguments of a transfer. -/
def transferItems (source target : Hash160) (amount : UInt64)
    (data : Buffer) : List Instruction :=
  [if data.content.length > 0 then instructionOfBytes data.content
    else .pushNull,
    .pushInt amount.toInt64.toInt,
    instructionOfBytes target.val,
    instructionOfBytes source.val]

section Emission

open ContractParameter

variable {host : Host} {alloc : Allocator}

theorem packArguments_assembles (count : Nat) :
    Assembles alloc (packArguments alloc count) (packProgram count) := by
  rw [packArguments, packProgram]
  split
  · exact emit_assembles rfl
  · exact (pushInteger_assembles _).bind (emit_assembles rfl)

theorem finishCall_assembles (method : CString) (hashBytes : List UInt8) :
    Assembles alloc (finishCall host alloc method hashBytes)
      (callTail host method hashBytes) :=
  (pushData_assembles method.characters).bind
    ((pushData_assembles hashBytes).bind
      (emitSyscall_assembles host .systemContractCall))

theorem contractCall_assembles (scriptHash : Hash160) (method : CString)
    (paramCount : Nat) (callFlags : UInt32) :
    Assembles alloc
      (contractCall host alloc scriptHash method paramCount callFlags)
      (packProgram paramCount ++
        ([.pushInt (Int64.ofNat callFlags.toNat).toInt] ++
          callTail host method scriptHash.toBytes)) :=
  (packArguments_assembles paramCount).bind
    ((pushInteger_assembles _).bind
      (finishCall_assembles method scriptHash.toBytes))

theorem emitAppCall_assembles (scriptHash : Hash160) (method : CString)
    (paramCount : UInt8) :
    Assembles alloc (emitAppCall host alloc scriptHash method paramCount)
      (packProgram paramCount.toNat ++
        ([.pushInt (Int64.ofNat callFlagsAll.toNat).toInt] ++
          callTail host method scriptHash.toLittleEndianBytes)) :=
  (packArguments_assembles paramCount.toNat).bind
    ((pushInteger_assembles _).bind
      (finishCall_assembles method scriptHash.toLittleEndianBytes))

theorem pushReversed_appends (params : List ContractParameter) :
    AppendsProgram (pushReversed alloc params)
      (compileItems
        (params.take (Int32.ofNat params.length).toInt.toNat).reverse) := by
  rw [pushReversed]
  split
  · exact BinaryWriter.appends_halt _ _
  · exact pushItems_appends fun item _ => pushParam_appends item

theorem createContractCall_eq_ok {contractHash : Hash160} {method : CString}
    {params : Slice ContractParameter} {script : List UInt8}
    (created :
      createContractCall host alloc contractHash method params =
        .ok script) :
    script =
      assemble
        (compileItems
            (params.content.take
              (Int32.ofNat params.content.length).toInt.toNat).reverse ++
          (packProgram params.len ++
            callTail host method contractHash.val)) :=
  build_eq_ok
    ((pushReversed_appends params.content).bind
      (AppendsProgram.bind (packArguments_assembles params.len).appends
        (finishCall_assembles method contractHash.val).appends))
    created

theorem pushTransferData_assembles (data : Buffer) :
    Assembles alloc (pushTransferData alloc data)
      [if data.content.length > 0 then instructionOfBytes data.content
        else .pushNull] := by
  rw [pushTransferData]
  split
  · exact pushData_assembles data.content
  · exact emit_assembles rfl

theorem pushTransfer_assembles (tokenHash source target : Hash160)
    (amount : UInt64) (data : Buffer) :
    Assembles alloc
      (pushTransfer host alloc tokenHash source target amount data)
      (transferItems source target amount data ++
        (packProgram 4 ++
          callTail host (CString.ofString "transfer") tokenHash.val)) :=
  (pushTransferData_assembles data).bind
    ((pushInteger_assembles amount.toInt64).bind
      ((pushData_assembles target.val).bind
        ((pushData_assembles source.val).bind
          ((pushInteger_assembles 4).bind
            (Assembles.bind (emit_assembles rfl)
              (finishCall_assembles _ tokenHash.val))))))

theorem createNep17Transfer_eq_ok {tokenHash source target : Hash160}
    {amount : UInt64} {data : Buffer} {script : List UInt8}
    (created :
      createNep17Transfer host alloc tokenHash source target amount data =
        .ok script) :
    script =
      assemble
        (transferItems source target amount data ++
          (packProgram 4 ++
            callTail host (CString.ofString "transfer") tokenHash.val) ++
          [.assert]) :=
  build_eq_ok
    (AppendsProgram.bind
      (pushTransfer_assembles tokenHash source target amount data).appends
      (BinaryWriter.Emits.appends (emit_assembles rfl)))
    created

end Emission

/-! ## What the call finds on the stack -/

open ContractParameter

/--
Run on an empty stack, the script stops at its call with the four operands
on top: the hash in little-endian order, the method, the call flags and the
arguments, each at its own index.
-/
def CallsWith (host : Host) (hash : Hash160) (method : CString)
    (flags : Int) (args stack : List StackItem) (script : List UInt8) :
    Prop :=
  run script [] =
    some
      (.syscall (host.interopGetHash .systemContractCall),
        .byteString hash.toLittleEndianBytes ::
          itemOfBytes method.characters :: .integer flags :: .array args ::
            stack)

/-- The arguments a token contract should receive for a transfer. -/
def transferArguments (source target : Hash160) (amount : UInt64)
    (data : Buffer) : List StackItem :=
  [.byteString source.toLittleEndianBytes,
    .byteString target.toLittleEndianBytes,
    .integer amount.toNat,
    if data.content.length > 0 then .byteString data.content else .null]

section Runs

variable {host : Host}

/-- The last instructions push the method and the hash and make the call. -/
theorem run_call {arguments rest : List Instruction} {method : CString}
    {hashBytes : List UInt8}
    (straight : ∀ instruction ∈ arguments, Straight instruction)
    (short : method.characters.length < 0x100000000)
    (exact : hashBytes.length = 20)
    (encodable : ∀ instruction ∈ rest, instruction.Encodable)
    (stack : List StackItem) :
    run (assemble (arguments ++ (callTail host method hashBytes ++ rest)))
        stack =
      (executeAll arguments stack).map fun stack' =>
        (.syscall (host.interopGetHash .systemContractCall),
          .byteString hashBytes :: itemOfBytes method.characters ::
            stack') := by
  have straightMethod := straight_instructionOfBytes short
  have straightHash :=
    @straight_instructionOfBytes hashBytes (by rw [exact]; decide)
  have item : itemOfBytes hashBytes = .byteString hashBytes :=
    itemOfBytes_of_length exact (by decide)
  have operands (stack' : List StackItem) :
      runProgram (callTail host method hashBytes ++ rest) stack' =
        some
          (.syscall (host.interopGetHash .systemContractCall),
            .byteString hashBytes :: itemOfBytes method.characters ::
              stack') := by
    have split :
        callTail host method hashBytes ++ rest =
          [instructionOfBytes method.characters,
            instructionOfBytes hashBytes] ++
            (.syscall (host.interopGetHash .systemContractCall) ::
              rest) :=
      rfl
    rw [split, runProgram_append]
    · simp only [executeAll, execute_instructionOfBytes, Option.bind_some,
        item, runProgram]
    · simp only [List.forall_mem_cons]
      exact ⟨straightMethod.2, straightHash.2, List.forall_mem_nil _⟩
  rw [run_assemble, runProgram_append fun instruction member =>
    (straight instruction member).2]
  · cases executeAll arguments stack with
    | none => rfl
    | some stack' => exact operands stack'
  · rw [List.forall_mem_append, List.forall_mem_append]
    refine ⟨fun instruction member => (straight instruction member).1, ?_,
      encodable⟩
    simp only [callTail, List.forall_mem_cons]
    exact
      ⟨straightMethod.1, straightHash.1, trivial, List.forall_mem_nil _⟩

/-- What a script calls with, a script could push. -/
theorem CallsWith.pushable {hash : Hash160} {method : CString} {flags : Int}
    {args stack : List StackItem} {script : List UInt8}
    (calls : CallsWith host hash method flags args stack script) :
    method.characters.length < 0x100000000 ∧ Pushable (.array args) := by
  have pushable := runFor_pushable (List.forall_mem_nil _) calls
  constructor
  · by_cases empty : method.characters = []
    · rw [empty]
      decide
    · exact
        pushable (itemOfBytes method.characters) (by simp) _
          (mem_itemOfBytes empty)
  · exact pushable (.array args) (by simp)

theorem executeAll_packProgram {count : Nat} {stack stack' : List StackItem}
    (ran : executeAll (packProgram count) stack = some stack') :
    ∃ items below, stack' = .array items :: below := by
  rw [packProgram] at ran
  split at ran
  · cases ran
    exact ⟨_, _, rfl⟩
  · rcases Option.bind_eq_some_iff.mp ran with ⟨middle, pushed, packed⟩
    cases pushed
    rcases Option.bind_eq_some_iff.mp packed with ⟨final, packed, same⟩
    cases same
    rw [execute] at packed
    split at packed
    · cases packed
      exact ⟨_, _, rfl⟩
    · cases packed

theorem straight_packProgram (count : Nat) :
    ∀ instruction ∈ packProgram count, Straight instruction := by
  rw [packProgram]
  split
  · simp [Straight, Instruction.Encodable, Instruction.Plain]
  · simp only [List.forall_mem_cons]
    exact ⟨straight_pushInt _, ⟨trivial, trivial⟩, List.forall_mem_nil _⟩

/-- Items that are on the stack are packed in stack order. -/
theorem executeAll_pack_items {args : List StackItem}
    (bounded : args.length ≤ ptrdiffMax) (stack : List StackItem) :
    executeAll (packProgram args.length) (args ++ stack) =
      some (.array args :: stack) := by
  rw [packProgram]
  split
  · rename_i empty
    rw [List.length_eq_zero_iff.mp empty]
    rfl
  · rw [toInt_count bounded]
    show (execute .pack (.integer args.length :: (args ++ stack))).bind
      (executeAll []) = _
    rw [execute_pack]
    rfl

/-- Where the array is packed just before the method, there are no flags. -/
theorem not_callsWith_of_packed {first rest : List Instruction}
    {count : Nat} {hash : Hash160} {method : CString}
    {hashBytes : List UInt8} {flags : Int} {args stack : List StackItem}
    (straight : ∀ instruction ∈ first, Straight instruction)
    (exact : hashBytes.length = 20)
    (encodable : ∀ instruction ∈ rest, instruction.Encodable) :
    ¬CallsWith host hash method flags args stack
      (assemble
        (first ++
          (packProgram count ++ (callTail host method hashBytes ++ rest)))) := by
  intro calls
  have short := calls.pushable.1
  have straightArguments :
      ∀ instruction ∈ first ++ packProgram count, Straight instruction := by
    rw [List.forall_mem_append]
    exact ⟨straight, straight_packProgram count⟩
  rw [CallsWith, ← List.append_assoc first,
    run_call straightArguments short exact encodable] at calls
  rcases Option.map_eq_some_iff.mp calls with ⟨stack', ran, same⟩
  rw [executeAll_append] at ran
  rcases Option.bind_eq_some_iff.mp ran with ⟨middle, -, packed⟩
  rcases executeAll_packProgram packed with ⟨items, below, rfl⟩
  cases same

end Runs

/-! ## Calls on arguments that were pushed before -/

/--
A builder to which the caller has pushed the arguments of a call, the first
one last, so that it is on top of the stack.
-/
structure Prepared where
  builder : BinaryWriter
  args : List StackItem
  stack : List StackItem
  wellFormed : builder.WellFormed
  ran : run builder.contents [] = some (.finished, args ++ stack)

namespace Prepared

variable {host : Host} {alloc : Allocator}

/-- A script is shorter than an object can be, and so is its stack. -/
theorem length_args_le (prepared : Prepared) :
    prepared.args.length ≤ ptrdiffMax := by
  have height := runFor_length_le prepared.ran
  rw [List.length_append, List.length_nil,
    prepared.wellFormed.length_contents] at height
  have position := prepared.wellFormed.position_le
  have length := prepared.wellFormed.length_le
  omega

/-- With flags in place, what can go wrong is the method and the hash. -/
theorem callsWith_iff (prepared : Prepared) {call : Routine BinaryWriter Unit}
    {called : BinaryWriter} {hash : Hash160} {method : CString}
    {hashBytes : List UInt8} {callFlags : UInt32}
    (exact : hashBytes.length = 20)
    (appends :
      AppendsProgram call
        (packProgram prepared.args.length ++
          ([.pushInt (Int64.ofNat callFlags.toNat).toInt] ++
            callTail host method hashBytes)))
    (emitted : call prepared.builder = (.ok (), called)) :
    CallsWith host hash method callFlags.toNat prepared.args prepared.stack
        called.contents ↔
      method.characters.length < 0x100000000 ∧
        hashBytes = hash.toLittleEndianBytes := by
  have contents :=
    (appends prepared.builder called prepared.wellFormed emitted).2.2
  have flags :
      (Int64.ofNat callFlags.toNat).toInt = callFlags.toNat := by
    apply toInt_count
    have small := callFlags.toNat_lt
    simp only [ptrdiffMax]
    omega
  have straight :
      ∀ instruction ∈
        packProgram prepared.args.length ++
          [.pushInt (Int64.ofNat callFlags.toNat).toInt],
        Straight instruction := by
    rw [List.forall_mem_append, List.forall_mem_singleton]
    exact ⟨straight_packProgram _, straight_pushInt _⟩
  have reached (short : method.characters.length < 0x100000000) :
      run called.contents [] =
        some
          (.syscall (host.interopGetHash .systemContractCall),
            .byteString hashBytes :: itemOfBytes method.characters ::
              .integer callFlags.toNat :: .array prepared.args ::
                prepared.stack) := by
    rw [contents, run_append prepared.ran, ← List.append_assoc,
      ← List.append_nil (callTail host method hashBytes),
      run_call straight short exact (List.forall_mem_nil _),
      executeAll_append, executeAll_pack_items prepared.length_args_le,
      flags]
    rfl
  constructor
  · intro calls
    have short := calls.pushable.1
    refine ⟨short, ?_⟩
    have same := (reached short).symm.trans calls
    simpa using same
  · rintro ⟨short, rfl⟩
    exact reached short

end Prepared

/-! ## Calls on arguments of their own -/

section Standalone

variable {host : Host} {alloc : Allocator}

/-- The call made by `createContractCall` lacks its flags. -/
theorem createContractCall_not_callsWith {contractHash : Hash160}
    {method : CString} {params : Slice ContractParameter}
    {script : List UInt8} {args stack : List StackItem} {flags : Int}
    (created :
      createContractCall host alloc contractHash method params = .ok script)
    (denotes : denoteItems params.content = some args) :
    ¬CallsWith host contractHash method flags args stack script := by
  intro calls
  have whole : (array params.content).denote = some (.array args) := by
    rw [denote, denotes]
    rfl
  have short : (array params.content).Short := by
    intro node member
    by_cases empty : node.data = []
    · simp [empty]
    · exact calls.pushable.2 _ (mem_primitives whole member empty)
  rw [createContractCall_eq_ok created] at calls
  revert calls
  rw [← List.append_nil (callTail host method contractHash.val)]
  apply not_callsWith_of_packed _ contractHash.property
    (List.forall_mem_nil _)
  apply straight_items
  intro item member
  apply straight_compile
  exact
    (everywhere_array.mp short).2 item
      (List.mem_of_mem_take (List.mem_reverse.mp member))

theorem straight_transferItems {source target : Hash160} {amount : UInt64}
    {data : Buffer} (short : data.content.length < 0x100000000) :
    ∀ instruction ∈ transferItems source target amount data,
      Straight instruction := by
  simp only [transferItems, List.forall_mem_cons]
  refine
    ⟨?_, straight_pushInt _, straight_instructionOfBytes ?_,
      straight_instructionOfBytes ?_, List.forall_mem_nil _⟩
  · split
    · exact straight_instructionOfBytes short
    · exact ⟨trivial, trivial⟩
  · rw [target.property]
    decide
  · rw [source.property]
    decide

/-- The data of a transfer that arrives could be pushed. -/
theorem length_data_lt_of_pushable {source target : Hash160}
    {amount : UInt64} {data : Buffer}
    (pushable :
      Pushable (.array (transferArguments source target amount data))) :
    data.content.length < 0x100000000 := by
  by_cases positive : data.content.length > 0
  · apply pushable
    rw [StackItem.primitives_array, List.mem_flatMap]
    refine ⟨.byteString data.content, ?_, List.mem_singleton_self _⟩
    simp [transferArguments, positive]
  · omega

/-- The call made by a transfer lacks its flags, whatever follows it. -/
theorem pushTransfer_not_callsWith {tokenHash source target : Hash160}
    {amount : UInt64} {data : Buffer} {rest : List Instruction}
    {stack : List StackItem} {flags : Int}
    (encodable : ∀ instruction ∈ rest, instruction.Encodable) :
    ¬CallsWith host tokenHash (CString.ofString "transfer") flags
      (transferArguments source target amount data) stack
      (assemble
        (transferItems source target amount data ++
          (packProgram 4 ++
            (callTail host (CString.ofString "transfer") tokenHash.val ++
              rest)))) := by
  intro calls
  have short := length_data_lt_of_pushable calls.pushable.2
  exact
    not_callsWith_of_packed (straight_transferItems short)
      tokenHash.property encodable calls

end Standalone

end ScriptBuilder

end NeoC
