import NeoC.Script.ContractCall
import NeoC.Transaction.TransactionBuilder

/-!
# Who calls a contract correctly

Two functions of the transaction builder make a call of their own, so there
are six functions in all that emit `System.Contract.Call`.  Only
`neoc_script_builder_emit_app_call` leaves the operands that the call needs.
`neoc_script_builder_contract_call` pushes the hash in the order in which it
is stored, which is right for hashes that read the same in both directions.
The other four push no call flags, so the array of arguments lies where the
flags should be.
-/

namespace NeoC

open Foundation NeoVm

/-! ## Parameters given as text -/

/--
A value of a parsed text, as cJSON hands it out.  A number is a `double`, so
it is rational or it is beyond all numbers.
-/
inductive Json where
  | null
  | bool (value : Bool)
  | number (valuedouble : Option Rat)
  | string (valuestring : CString)
  | array (items : List Json)
  | object

namespace Json

/-- The conversion of a number to `int64_t`, before the range is looked at. -/
def truncate (value : Rat) : Int :=
  if 0 ≤ value then value.floor else value.ceil

/-- What the conversion cuts off, without its sign. -/
def diff (value : Rat) : Rat :=
  if value - truncate value < 0 then -(value - truncate value)
  else value - truncate value

/-- `1e-9`, rounded to a `double`. -/
def tolerance : Rat := 4835703278458517 / 0x400000000000000000000

/-- The number branch of `push_json_value`. -/
def pushNumber (alloc : Allocator) (valuedouble : Option Rat) :
    Routine BinaryWriter Unit :=
  match valuedouble with
  | none => Call.halt .signedOverflow
  | some value =>
      let asInt := truncate value
      if asInt < -9223372036854775808 ∨ 9223372036854775807 < asInt then
        Call.halt .signedOverflow
      else if diff value > tolerance then
        errorSet .invalidFormat "Non-integer numeric parameter not supported"
      else
        ScriptBuilder.pushInteger alloc (Int64.ofInt asInt)

mutual

/-- `push_json_value`. -/
def pushValue (alloc : Allocator) : Json → Routine BinaryWriter Unit
  | .bool value => ScriptBuilder.pushBool alloc value
  | .null => ScriptBuilder.emit alloc Opcode.pushNull
  | .number valuedouble => pushNumber alloc valuedouble
  | .string valuestring => ScriptBuilder.pushString alloc valuestring
  | .array items => do
      pushValues alloc items
      ScriptBuilder.packArguments alloc items.length
  | .object => errorSet .invalidFormat "Unsupported parameter type"

/-- The loop over the elements, from the last to the first. -/
def pushValues (alloc : Allocator) : List Json → Routine BinaryWriter Unit
  | [] => pure ()
  | item :: rest => do
      pushValues alloc rest
      pushValue alloc item

end

/-- The parameters of a call, given as text. -/
def pushText (parse : CString → Option Json) (alloc : Allocator)
    (params : Option CString) : Routine BinaryWriter Unit :=
  match params with
  | none => ScriptBuilder.emit alloc Opcode.newArray0
  | some text =>
      if text.strlen > 0 then
        match parse text with
        | some (.array items) => pushValue alloc (.array items)
        | _ =>
            errorSet .invalidFormat
              "Contract parameters must be a JSON array"
      else
        ScriptBuilder.emit alloc Opcode.newArray0

mutual

/-- The stack item a contract should receive for a value. -/
def denote : Json → Option StackItem
  | .null => some .null
  | .bool value => some (.integer (if value then 1 else 0))
  | .number none => none
  | .number (some value) =>
      if value.den = 1 then some (.integer value.num) else none
  | .string valuestring =>
      some (ContractParameter.itemOfBytes valuestring.characters)
  | .array items => (denoteItems items).map .array
  | .object => none

/-- The items for the elements of an array, at their own indexes. -/
def denoteItems : List Json → Option (List StackItem)
  | [] => some []
  | item :: rest =>
      match denote item, denoteItems rest with
      | some first, some others => some (first :: others)
      | _, _ => none

end

/-- The arguments that a text stands for. -/
def argumentsOf (parse : CString → Option Json) (params : Option CString) :
    Option (List StackItem) :=
  match params with
  | none => some []
  | some text =>
      if text.strlen > 0 then
        match parse text with
        | some (.array items) => denoteItems items
        | _ => none
      else
        some []

end Json

/-! ## The calls of the transaction builder -/

namespace TxBuilder

variable {curve : Curve}

/-- `neoc_tx_builder_create_nep17_transfer`. -/
def createNep17Transfer (host : Host) (alloc : Allocator) (nonce : UInt32)
    (tokenHash : Hash160) (fromAccount : Account curve)
    (toAddress : CString) (amount : UInt64) (data : Buffer) :
    Outcome TxBuilder := do
  let builder ← create alloc nonce
  let toHash ← Hash160.fromAddress host alloc toAddress
  let script ←
    ScriptBuilder.build alloc
      (ScriptBuilder.pushTransfer host alloc tokenHash fromAccount.scriptHash
        toHash amount data)
  let scripted ← (setScript alloc (.items script)).eval builder
  let signed ←
    (addSignerFromAccount alloc fromAccount
      WitnessScope.calledByEntry.toByte).eval scripted.2
  .ok signed.2

/-- The loop body that adds one of the given signers. -/
def addGivenSigner (curve : Curve) (alloc : Allocator)
    (signer : Option Signer) : Routine TxBuilder Unit :=
  match signer with
  | none => errorSet .invalidArgument "Invalid arguments"
  | some signer => addSigner curve alloc signer

/-- `neoc_tx_builder_create_contract_call`. -/
def createContractCall (host : Host) (parse : CString → Option Json)
    (curve : Curve) (alloc : Allocator) (nonce : UInt32)
    (contractHash : Hash160) (method : CString) (params : Option CString)
    (signers : Slice (Option Signer)) : Outcome TxBuilder := do
  let builder ← create alloc nonce
  let script ←
    ScriptBuilder.build alloc do
      Json.pushText parse alloc params
      ScriptBuilder.finishCall host alloc method contractHash.val
  let scripted ← (setScript alloc (.items script)).eval builder
  let signed ←
    (Call.forEach (addGivenSigner curve alloc) signers.content).eval
      scripted.2
  .ok signed.2

/-! ## The script stays what it was set to -/

section Scripts

variable {alloc : Allocator}

theorem setScript_eq_ok {script : List UInt8} {builder after : TxBuilder}
    {value : Unit}
    (ran : setScript alloc (.items script) builder = (.ok value, after)) :
    script.length ≤ maxScriptSize ∧ after.script = .items script := by
  rw [setScript] at ran
  split at ran
  · cases ran
  · rename_i small
    split at ran
    · injection ran with _ equal
      rw [← equal]
      exact ⟨Nat.le_of_not_lt small, rfl⟩
    · cases ran

theorem addSigner_script (signer : Signer) (builder : TxBuilder) :
    (addSigner curve alloc signer builder).2.script = builder.script := by
  rw [addSigner, Call.bind_of_ok (Call.read_run _ _)]
  split
  · rfl
  · split
    · rfl
    · rcases signer.copy curve alloc with reason | copied
      · rfl
      · rfl

theorem addSignerFromAccount_script (account : Account curve)
    (scopes : UInt8) (builder : TxBuilder) :
    (addSignerFromAccount alloc account scopes builder).2.script =
      builder.script := by
  rw [addSignerFromAccount]
  rcases Signer.create alloc account.scriptHash scopes with reason | signer
  · rfl
  · exact addSigner_script signer builder

theorem addGivenSigners_script (signers : List (Option Signer))
    (builder : TxBuilder) :
    (Call.forEach (addGivenSigner curve alloc) signers builder).2.script =
      builder.script := by
  induction signers generalizing builder with
  | nil => rfl
  | cons entry rest induction =>
      have first :
          (addGivenSigner curve alloc entry builder).2.script =
            builder.script := by
        cases entry with
        | none => rfl
        | some signer => exact addSigner_script signer builder
      change
        ((addGivenSigner curve alloc entry >>= fun _ =>
          Call.forEach (addGivenSigner curve alloc) rest)
            builder).2.script = _
      rcases ran : addGivenSigner curve alloc entry builder with
        ⟨reason | value, after⟩
      · rw [ran] at first
        rw [Call.bind_of_error ran]
        exact first
      · rw [ran] at first
        rw [Call.bind_of_ok ran, induction]
        exact first

/-- A successful call has the state that its run has. -/
theorem eval_script {call : Routine TxBuilder Unit}
    (keeps : ∀ builder, (call builder).2.script = builder.script)
    {builder : TxBuilder} {result : Unit × TxBuilder}
    (ran : call.eval builder = .ok result) :
    result.2.script = builder.script := by
  have state := Call.eval_eq_ok_iff.mp ran
  rw [← keeps builder, state]

end Scripts

end TxBuilder

/-! ## The program of a text -/

namespace Json

mutual

/-- The program emitted for a value. -/
def compile : Json → List Instruction
  | .null => [.pushNull]
  | .bool value => [.pushInt (if value then 1 else 0)]
  | .number valuedouble =>
      [.pushInt (Int64.ofInt (truncate (valuedouble.getD 0))).toInt]
  | .string valuestring =>
      [ScriptBuilder.instructionOfBytes valuestring.characters]
  | .array items =>
      compileItems items ++ ScriptBuilder.packProgram items.length
  | .object => []

/-- The programs of the elements, last to first. -/
def compileItems : List Json → List Instruction
  | [] => []
  | item :: rest => compileItems rest ++ compile item

end

open ScriptBuilder

variable {alloc : Allocator}

theorem pushNumber_appends (valuedouble : Option Rat) :
    AppendsProgram (pushNumber alloc valuedouble)
      (compile (.number valuedouble)) := by
  cases valuedouble with
  | none => exact BinaryWriter.appends_halt _ _
  | some value =>
      rw [pushNumber]
      split
      · exact BinaryWriter.appends_halt _ _
      · split
        · exact BinaryWriter.appends_halt _ _
        · exact (pushInteger_assembles _).appends

mutual

/-- What is emitted for a value is its program. -/
theorem pushValue_appends :
    (value : Json) → AppendsProgram (pushValue alloc value) value.compile
  | .null => by
      rw [pushValue, compile]
      exact pushNull_assembles.appends
  | .bool value => by
      rw [pushValue, compile]
      exact (pushBool_assembles value).appends
  | .number valuedouble => by
      rw [pushValue]
      exact pushNumber_appends valuedouble
  | .string valuestring => by
      rw [pushValue, compile]
      exact (pushData_assembles valuestring.characters).appends
  | .array items => by
      rw [pushValue, compile]
      exact
        (pushValues_appends items).bind
          (packArguments_assembles items.length).appends
  | .object => by
      rw [pushValue]
      exact BinaryWriter.appends_halt _ _

theorem pushValues_appends :
    (items : List Json) →
      AppendsProgram (pushValues alloc items) (compileItems items)
  | [] => by
      rw [pushValues, compileItems]
      exact BinaryWriter.appends_pure
  | item :: rest => by
      rw [pushValues, compileItems]
      exact (pushValues_appends rest).bind (pushValue_appends item)

end

/-- The elements whose programs come before the packing of a text. -/
def elementsOf (parse : CString → Option Json) (params : Option CString) :
    List Json :=
  match params with
  | none => []
  | some text =>
      if text.strlen > 0 then
        match parse text with
        | some (.array items) => items
        | _ => []
      else
        []

theorem pushText_appends (parse : CString → Option Json)
    (params : Option CString) :
    AppendsProgram (pushText parse alloc params)
      (compileItems (elementsOf parse params) ++
        packProgram (elementsOf parse params).length) := by
  cases params with
  | none => exact BinaryWriter.Emits.appends (emit_assembles rfl)
  | some text =>
      rw [pushText, elementsOf]
      split
      · split
        · rename_i items _
          have whole := @pushValue_appends alloc (.array items)
          rwa [compile] at whole
        · exact BinaryWriter.appends_halt _ _
      · exact BinaryWriter.Emits.appends (emit_assembles rfl)

/-- An instruction that needs only a short operand to be straight. -/
def Ranged (instruction : Instruction) : Prop :=
  ∀ size,
    (∀ bytes, instruction = .pushData bytes → bytes.length < size) →
      size ≤ 0x100000000 → ContractParameter.Straight instruction

theorem ranged_of_straight {instruction : Instruction}
    (straight : ContractParameter.Straight instruction) :
    Ranged instruction :=
  fun _ _ _ => straight

theorem ranged_instructionOfBytes (content : List UInt8) :
    Ranged (instructionOfBytes content) := by
  intro size short bounded
  by_cases empty : content.length = 0
  · apply ContractParameter.straight_instructionOfBytes
    omega
  · have small := short content (by rw [instructionOfBytes, if_neg empty])
    exact ContractParameter.straight_instructionOfBytes (by omega)

mutual

theorem ranged_compile :
    (value : Json) → ∀ instruction ∈ value.compile, Ranged instruction
  | .null => by
      rw [compile, List.forall_mem_singleton]
      exact ranged_of_straight ⟨trivial, trivial⟩
  | .bool value => by
      rw [compile, List.forall_mem_singleton]
      apply ranged_of_straight
      cases value with
      | false => exact ContractParameter.straight_pushInt 0
      | true => exact ContractParameter.straight_pushInt 1
  | .number valuedouble => by
      rw [compile, List.forall_mem_singleton]
      exact ranged_of_straight (ContractParameter.straight_pushInt _)
  | .string valuestring => by
      rw [compile, List.forall_mem_singleton]
      exact ranged_instructionOfBytes valuestring.characters
  | .array items => by
      rw [compile, List.forall_mem_append]
      exact
        ⟨ranged_compileItems items,
          fun instruction member =>
            ranged_of_straight
              (straight_packProgram items.length instruction member)⟩
  | .object => by
      rw [compile]
      exact List.forall_mem_nil _

theorem ranged_compileItems :
    (items : List Json) →
      ∀ instruction ∈ compileItems items, Ranged instruction
  | [] => by
      rw [compileItems]
      exact List.forall_mem_nil _
  | item :: rest => by
      rw [compileItems, List.forall_mem_append]
      exact ⟨ranged_compileItems rest, ranged_compile item⟩

end

end Json

/-! ## The six producers -/

/-- A call of one of the functions that emit `System.Contract.Call`. -/
inductive CallProducer (curve : Curve) where
  /-- `neoc_script_builder_contract_call`. -/
  | contractCall (prepared : ScriptBuilder.Prepared)
      (scriptHash : Hash160) (method : CString) (callFlags : UInt32)
  /-- `neoc_script_builder_emit_app_call`, whose count is one byte. -/
  | emitAppCall (prepared : ScriptBuilder.Prepared)
      (few : prepared.args.length < 256)
      (scriptHash : Hash160) (method : CString)
  /-- `neoc_script_create_contract_call`. -/
  | createContractCall (contractHash : Hash160) (method : CString)
      (params : Slice ContractParameter)
  /-- `neoc_script_create_nep17_transfer`. -/
  | createNep17Transfer (tokenHash source target : Hash160)
      (amount : UInt64) (data : Buffer)
  /-- `neoc_tx_builder_create_nep17_transfer`. -/
  | txCreateNep17Transfer (tokenHash : Hash160)
      (fromAccount : Account curve) (toAddress : CString) (amount : UInt64)
      (data : Buffer)
  /-- `neoc_tx_builder_create_contract_call`. -/
  | txCreateContractCall (contractHash : Hash160) (method : CString)
      (params : Option CString) (signers : Slice (Option Signer))

namespace CallProducer

open ScriptBuilder

variable {curve : Curve}

/-- The script that the function leaves behind. -/
def script (host : Host) (parse : CString → Option Json)
    (alloc : Allocator) (nonce : UInt32) :
    CallProducer curve → Outcome (List UInt8)
  | .contractCall prepared scriptHash method callFlags => do
      let called ←
        (ScriptBuilder.contractCall host alloc scriptHash method
          prepared.args.length callFlags).eval prepared.builder
      .ok called.2.contents
  | .emitAppCall prepared _ scriptHash method => do
      let called ←
        (ScriptBuilder.emitAppCall host alloc scriptHash method
          (UInt8.ofNat prepared.args.length)).eval prepared.builder
      .ok called.2.contents
  | .createContractCall contractHash method params =>
      ScriptBuilder.createContractCall host alloc contractHash method params
  | .createNep17Transfer tokenHash source target amount data =>
      ScriptBuilder.createNep17Transfer host alloc tokenHash source target
        amount data
  | .txCreateNep17Transfer tokenHash fromAccount toAddress amount data => do
      let builder ←
        TxBuilder.createNep17Transfer host alloc nonce tokenHash fromAccount
          toAddress amount data
      .ok builder.script.content
  | .txCreateContractCall contractHash method params signers => do
      let builder ←
        TxBuilder.createContractCall host parse curve alloc nonce
          contractHash method params signers
      .ok builder.script.content

/--
The script leaves the operands of the call that was asked for: with the
flags that were given, with all flags, or with any flags where the function
has none to give.
-/
def Meets (host : Host) (parse : CString → Option Json)
    (alloc : Allocator) (script : List UInt8) : CallProducer curve → Prop
  | .contractCall prepared scriptHash method callFlags =>
      CallsWith host scriptHash method callFlags.toNat prepared.args
        prepared.stack script
  | .emitAppCall prepared _ scriptHash method =>
      CallsWith host scriptHash method callFlagsAll.toNat prepared.args
        prepared.stack script
  | .createContractCall contractHash method params =>
      ∃ args flags,
        ContractParameter.denoteItems params.content = some args ∧
          CallsWith host contractHash method flags args [] script
  | .createNep17Transfer tokenHash source target amount data =>
      ∃ flags,
        CallsWith host tokenHash (CString.ofString "transfer") flags
          (transferArguments source target amount data) [] script
  | .txCreateNep17Transfer tokenHash fromAccount toAddress amount data =>
      ∃ toHash flags,
        Hash160.fromAddress host alloc toAddress = .ok toHash ∧
          CallsWith host tokenHash (CString.ofString "transfer") flags
            (transferArguments fromAccount.scriptHash toHash amount data) []
            script
  | .txCreateContractCall contractHash method params _ =>
      ∃ args flags,
        Json.argumentsOf parse params = some args ∧
          CallsWith host contractHash method flags args [] script

/--
The producers that keep the convention.  The bound on the method is the
longest string that a script can push.
-/
def Keeps : CallProducer curve → Prop
  | .contractCall _ scriptHash method _ =>
      method.characters.length < 0x100000000 ∧
        scriptHash.toBytes = scriptHash.toLittleEndianBytes
  | .emitAppCall _ _ _ method => method.characters.length < 0x100000000
  | .createContractCall .. => False
  | .createNep17Transfer .. => False
  | .txCreateNep17Transfer .. => False
  | .txCreateContractCall .. => False

section Settled

variable {host : Host} {parse : CString → Option Json}
variable {alloc : Allocator} {nonce : UInt32} {code : List UInt8}

theorem contractCall_meets_iff {prepared : Prepared} {scriptHash : Hash160}
    {method : CString} {callFlags : UInt32}
    (made :
      script host parse alloc nonce
          (.contractCall prepared scriptHash method callFlags :
            CallProducer curve) = .ok code) :
    Meets host parse alloc code
        (.contractCall prepared scriptHash method callFlags :
          CallProducer curve) ↔
      Keeps
        (.contractCall prepared scriptHash method callFlags :
          CallProducer curve) := by
  rcases Except.bind_eq_ok_iff.mp made with ⟨⟨_, called⟩, ran, same⟩
  cases same
  exact
    prepared.callsWith_iff scriptHash.property
      (contractCall_assembles scriptHash method prepared.args.length
        callFlags).appends
      (Call.eval_eq_ok_iff.mp ran)

theorem emitAppCall_meets_iff {prepared : Prepared}
    {few : prepared.args.length < 256} {scriptHash : Hash160}
    {method : CString}
    (made :
      script host parse alloc nonce
          (.emitAppCall prepared few scriptHash method :
            CallProducer curve) = .ok code) :
    Meets host parse alloc code
        (.emitAppCall prepared few scriptHash method :
          CallProducer curve) ↔
      Keeps
        (.emitAppCall prepared few scriptHash method :
          CallProducer curve) := by
  rcases Except.bind_eq_ok_iff.mp made with ⟨⟨_, called⟩, ran, same⟩
  cases same
  have exact : scriptHash.toLittleEndianBytes.length = 20 := by
    rw [Hash160.toLittleEndianBytes, List.length_reverse,
      scriptHash.property]
  have appends :=
    (@emitAppCall_assembles host alloc scriptHash method
      (UInt8.ofNat prepared.args.length)).appends
  rw [UInt8.toNat_ofNat', Nat.mod_eq_of_lt few] at appends
  rw [Meets, prepared.callsWith_iff exact appends
    (Call.eval_eq_ok_iff.mp ran)]
  exact and_iff_left rfl

theorem createContractCall_not_meets {contractHash : Hash160}
    {method : CString} {params : Slice ContractParameter}
    (made :
      ScriptBuilder.createContractCall host alloc contractHash method
          params = .ok code) :
    ¬Meets host parse alloc code
      (.createContractCall contractHash method params :
        CallProducer curve) := by
  rintro ⟨args, flags, denotes, calls⟩
  exact createContractCall_not_callsWith made denotes calls

theorem createNep17Transfer_not_meets {tokenHash source target : Hash160}
    {amount : UInt64} {data : Buffer}
    (made :
      ScriptBuilder.createNep17Transfer host alloc tokenHash source target
          amount data = .ok code) :
    ¬Meets host parse alloc code
      (.createNep17Transfer tokenHash source target amount data :
        CallProducer curve) := by
  rintro ⟨flags, calls⟩
  rw [createNep17Transfer_eq_ok made, List.append_assoc, List.append_assoc]
    at calls
  have encodable :
      ∀ instruction ∈ [Instruction.assert], instruction.Encodable :=
    List.forall_mem_singleton.mpr trivial
  exact pushTransfer_not_callsWith encodable calls

/-- The builder of a transfer holds the script of that transfer. -/
theorem txCreateNep17Transfer_content {tokenHash : Hash160}
    {fromAccount : Account curve} {toAddress : CString} {amount : UInt64}
    {data : Buffer} {builder : TxBuilder}
    (made :
      TxBuilder.createNep17Transfer host alloc nonce tokenHash fromAccount
          toAddress amount data = .ok builder) :
    ∃ target,
      Hash160.fromAddress host alloc toAddress = .ok target ∧
        builder.script.content =
          assemble
            (transferItems fromAccount.scriptHash target amount data ++
              (packProgram 4 ++
                callTail host (CString.ofString "transfer")
                  tokenHash.val)) := by
  rcases Except.bind_eq_ok_iff.mp made with ⟨blank, -, made⟩
  rcases Except.bind_eq_ok_iff.mp made with ⟨target, decoded, made⟩
  rcases Except.bind_eq_ok_iff.mp made with ⟨code, built, made⟩
  rcases Except.bind_eq_ok_iff.mp made with ⟨scripted, set, made⟩
  rcases Except.bind_eq_ok_iff.mp made with ⟨signed, added, same⟩
  cases same
  have kept :=
    TxBuilder.eval_script
      (TxBuilder.addSignerFromAccount_script fromAccount _) added
  have stored := TxBuilder.setScript_eq_ok (Call.eval_eq_ok_iff.mp set)
  refine ⟨target, decoded, ?_⟩
  rw [kept, stored.2, Slice.content,
    build_eq_ok (pushTransfer_assembles _ _ _ _ _).appends built]

theorem txCreateNep17Transfer_not_meets {tokenHash : Hash160}
    {fromAccount : Account curve} {toAddress : CString} {amount : UInt64}
    {data : Buffer} {builder : TxBuilder}
    (made :
      TxBuilder.createNep17Transfer host alloc nonce tokenHash fromAccount
          toAddress amount data = .ok builder) :
    ¬Meets host parse alloc builder.script.content
      (.txCreateNep17Transfer tokenHash fromAccount toAddress amount
        data) := by
  rcases txCreateNep17Transfer_content made with ⟨target, decoded, content⟩
  rintro ⟨toHash, flags, decoded', calls⟩
  rw [decoded] at decoded'
  cases decoded'
  rw [content, ← List.append_nil (callTail host _ tokenHash.val)] at calls
  exact pushTransfer_not_callsWith (List.forall_mem_nil _) calls

/-- A short script is assembled from short strings. -/
theorem straight_of_ranged {first rest : List Instruction}
    (ranged : ∀ instruction ∈ first, Json.Ranged instruction)
    (small : (assemble (first ++ rest)).length ≤ TxBuilder.maxScriptSize) :
    ∀ instruction ∈ first, ContractParameter.Straight instruction := by
  intro instruction member
  apply ranged instruction member (TxBuilder.maxScriptSize + 1)
  · rintro bytes rfl
    have inside := length_encode_le_assemble member
    have shorter : bytes.length ≤
        (Instruction.encode (.pushData bytes)).length := by
      rw [Instruction.encode]
      split_ifs
      all_goals
        rw [List.length_cons, List.length_append]
        omega
    rw [assemble_append, List.length_append] at small
    omega
  · decide

theorem txCreateContractCall_not_meets {contractHash : Hash160}
    {method : CString} {params : Option CString}
    {signers : Slice (Option Signer)} {builder : TxBuilder}
    (made :
      TxBuilder.createContractCall host parse curve alloc nonce
          contractHash method params signers = .ok builder) :
    ¬Meets host parse alloc builder.script.content
      (.txCreateContractCall contractHash method params signers :
        CallProducer curve) := by
  rcases Except.bind_eq_ok_iff.mp made with ⟨blank, -, made⟩
  rcases Except.bind_eq_ok_iff.mp made with ⟨code, built, made⟩
  rcases Except.bind_eq_ok_iff.mp made with ⟨scripted, set, made⟩
  rcases Except.bind_eq_ok_iff.mp made with ⟨signed, added, same⟩
  cases same
  have kept :=
    TxBuilder.eval_script
      (TxBuilder.addGivenSigners_script signers.content) added
  have stored := TxBuilder.setScript_eq_ok (Call.eval_eq_ok_iff.mp set)
  have emitted :=
    build_eq_ok
      ((Json.pushText_appends parse params).bind
        (finishCall_assembles method contractHash.val).appends) built
  rw [List.append_assoc,
    ← List.append_nil (callTail host method contractHash.val)] at emitted
  rw [kept, stored.2, Slice.content]
  rintro ⟨args, flags, -, calls⟩
  rw [emitted] at calls stored
  exact
    not_callsWith_of_packed
      (straight_of_ranged (Json.ranged_compileItems _) stored.1)
      contractHash.property (List.forall_mem_nil _) calls

end Settled

/--
A script that was emitted leaves the four operands of its call exactly if
its producer keeps the convention.
-/
theorem meets_iff_keeps
    {host : Host}
    {parse : CString → Option Json}
    {alloc : Allocator}
    {nonce : UInt32}
    {producer : CallProducer curve}
    {code : List UInt8}
    (made : producer.script host parse alloc nonce = .ok code) :
    producer.Meets host parse alloc code ↔ producer.Keeps := by
  cases producer with
  | contractCall prepared scriptHash method callFlags =>
      exact contractCall_meets_iff made
  | emitAppCall prepared few scriptHash method =>
      exact emitAppCall_meets_iff made
  | createContractCall contractHash method params =>
      exact iff_false_intro (createContractCall_not_meets made)
  | createNep17Transfer tokenHash source target amount data =>
      exact iff_false_intro (createNep17Transfer_not_meets made)
  | txCreateNep17Transfer tokenHash fromAccount toAddress amount data =>
      rcases Except.bind_eq_ok_iff.mp made with ⟨builder, created, same⟩
      cases same
      exact iff_false_intro (txCreateNep17Transfer_not_meets created)
  | txCreateContractCall contractHash method params signers =>
      rcases Except.bind_eq_ok_iff.mp made with ⟨builder, created, same⟩
      cases same
      exact iff_false_intro (txCreateContractCall_not_meets created)

/-- A builder to which the integers two and one were pushed. -/
def pushedTwo : Prepared where
  builder :=
    { data := 0x12 :: 0x11 :: List.replicate 14 0, position := 2,
      autoGrow := true }
  args := [.integer 1, .integer 2]
  stack := []
  wellFormed := by constructor <;> decide
  ran := rfl

/-- A hash whose first byte differs from its last. -/
def lopsidedHash : Hash160 :=
  ⟨1 :: List.replicate 19 0, rfl⟩

/-- A host that knows the names of the services. -/
def serviceHost : Host :=
  Host.ofTables serviceDigests []

/-- With enough memory, each of these calls is emitted. -/
theorem exists_script {producer : CallProducer curve}
    (emitted :
      (producer.script serviceHost (fun _ => none) .ample 0).isOk =
        true) :
    ∃ code,
      producer.script serviceHost (fun _ => none) .ample 0 =
        .ok code := by
  rcases made :
      producer.script serviceHost (fun _ => none) .ample 0 with
    reason | code
  · rw [made] at emitted
    cases emitted
  · exact ⟨code, rfl⟩

/-- Two arguments arrive in order, below all flags, method and hash. -/
theorem meets_iff_keeps_pushedTwo :
    ∃ code,
      script serviceHost (fun _ => none) .ample 0
          (.emitAppCall pushedTwo (by decide) lopsidedHash
            (CString.ofString "add") :
            CallProducer (Curve.basePoint fun _ => none)) = .ok code ∧
        CallsWith serviceHost lopsidedHash (CString.ofString "add") 15
          [.integer 1, .integer 2] [] code := by
  rcases
    @exists_script (Curve.basePoint fun _ => none)
      (.emitAppCall pushedTwo (by decide) lopsidedHash
        (CString.ofString "add")) (by decide +kernel) with
    ⟨code, made⟩
  refine ⟨code, made, (meets_iff_keeps made).mpr ?_⟩
  show (CString.ofString "add").characters.length < 0x100000000
  decide +kernel

/--
A call without parameters is made without flags, and a call with flags is
made with the hash in the wrong order.
-/
theorem producers_miss_convention :
    (∃ code,
      script serviceHost (fun _ => none) .ample 0
          (.createContractCall lopsidedHash (CString.ofString "add")
            (.null 0) : CallProducer (Curve.basePoint fun _ => none)) =
          .ok code ∧
        ¬Meets serviceHost (fun _ => none) .ample code
          (.createContractCall lopsidedHash (CString.ofString "add")
            (.null 0) : CallProducer (Curve.basePoint fun _ => none))) ∧
      ∃ code,
        script serviceHost (fun _ => none) .ample 0
            (.contractCall pushedTwo lopsidedHash (CString.ofString "add")
              callFlagsAll : CallProducer (Curve.basePoint fun _ => none)) =
            .ok code ∧
          ¬Meets serviceHost (fun _ => none) .ample code
            (.contractCall pushedTwo lopsidedHash (CString.ofString "add")
              callFlagsAll :
              CallProducer (Curve.basePoint fun _ => none)) := by
  constructor
  · rcases
      @exists_script (Curve.basePoint fun _ => none)
        (.createContractCall lopsidedHash (CString.ofString "add") (.null 0))
        (by decide +kernel) with
      ⟨code, made⟩
    exact ⟨code, made, createContractCall_not_meets made⟩
  · rcases
      @exists_script (Curve.basePoint fun _ => none)
        (.contractCall pushedTwo lopsidedHash (CString.ofString "add")
          callFlagsAll)
        (by decide +kernel) with
      ⟨code, made⟩
    refine ⟨code, made, ?_⟩
    intro meets
    have palindrome := ((contractCall_meets_iff made).mp meets).2
    exact absurd palindrome (by decide)

end CallProducer

end NeoC
