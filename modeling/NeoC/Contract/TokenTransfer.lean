import NeoC.Transaction.CallProducers

/-!
# The amount of a token transfer

Four functions write scripts that transfer tokens: two of their own, and two
of the GAS token on top of the first, one of which joins the scripts of many
transfers.  All of them take the amount as a `uint64_t` and hand it to
`neoc_script_builder_push_integer`, which takes an `int64_t`.

In each of the scripts the amount stands directly behind the data that is
handed on with the transfer.  What the machine reads there is the amount as
long as the conversion keeps it, and a negative number otherwise.
-/

namespace NeoC

open Foundation NeoVm

/-! ## The GAS token -/

/--
A `neoc_gas_token_t`.  Of the fungible token behind it only the pointer is
looked at here.
-/
structure GasToken where
  fungible : Option Hash160
deriving DecidableEq, Repr

/-- A `neoc_gas_token_transfer_request_t`. -/
structure TransferRequest where
  target : Hash160
  amount : UInt64
  data : Buffer
deriving DecidableEq

namespace GasToken

/-- `NEOC_GAS_TOKEN_HASH`. -/
def tokenHash : Hash160 :=
  ⟨[0xD2, 0xA4, 0xCF, 0xF3, 0x19, 0x13, 0x01, 0x61, 0x55, 0xE3, 0x8E, 0x47,
    0x4A, 0x2C, 0x06, 0xD0, 0x8B, 0xE2, 0x76, 0xCF], rfl⟩

/-- `neoc_gas_token_validate`. -/
def validate (token : Option GasToken) : Outcome Unit :=
  match token.bind fungible with
  | none =>
      .error (.error .invalidArgument "GAS token is not initialised")
  | some _ => .ok ()

/-- `neoc_gas_token_build_transfer_script`. -/
def buildTransferScript (host : Host) (alloc : Allocator)
    (token : Option GasToken) (source target : Hash160) (amount : UInt64)
    (data : Buffer) : Outcome (List UInt8) :=
  if amount = 0 then
    .error
      (.error .invalidArgument "Transfer amount must be greater than zero")
  else do
    validate token
    ScriptBuilder.createNep17Transfer host alloc tokenHash source target
      amount data

/-- The loop over the requests, with the script joined so far. -/
def joinScripts (host : Host) (alloc : Allocator) (source : Hash160) :
    List TransferRequest → (combined : List UInt8) → Outcome (List UInt8)
  | [], combined => .ok combined
  | request :: rest, combined =>
      if request.amount = 0 then
        .error
          (.error .invalidArgument
            "Transfer amount must be greater than zero")
      else do
        let single ←
          ScriptBuilder.createNep17Transfer host alloc tokenHash source
            request.target request.amount request.data
        if alloc.neocGrants (combined.length + single.length) = false then
          .error
            (.error .outOfMemory
              "Failed to expand multi-transfer script buffer")
        else
          joinScripts host alloc source rest (combined ++ single)

/-- `neoc_gas_token_build_multi_transfer_script`. -/
def buildMultiTransferScript (host : Host) (alloc : Allocator)
    (token : Option GasToken) (source : Hash160)
    (transfers : Slice TransferRequest) : Outcome (List UInt8) :=
  match transfers with
  | .null _ =>
      .error (.error .invalidArgument "Invalid multi-transfer arguments")
  | .items requests =>
      if requests.length = 0 then
        .error (.error .invalidArgument "Invalid multi-transfer arguments")
      else do
        validate token
        joinScripts host alloc source requests []

end GasToken

/-! ## Reading the amount -/

namespace TokenTransfer

open ScriptBuilder

/-- The instruction that pushes the data of a transfer. -/
def dataInstruction (data : Buffer) : Instruction :=
  if data.content.length > 0 then instructionOfBytes data.content
  else .pushNull

/-- The integer that the machine pushes at an offset of a script. -/
def integerAt (offset : Nat) (script : List UInt8) : Option Int :=
  match decode (script.drop offset) with
  | some (.pushInt value, _) => some value
  | _ => none

/-- Everything that a transfer pushes behind its amount. -/
def afterAmount (host : Host) (tokenHash source target : Hash160) :
    List Instruction :=
  [instructionOfBytes target.val, instructionOfBytes source.val] ++
    (packProgram 4 ++
      callTail host (CString.ofString "transfer") tokenHash.val)

theorem transferItems_eq (host : Host) (tokenHash source target : Hash160)
    (amount : UInt64) (data : Buffer) :
    transferItems source target amount data ++
        (packProgram 4 ++
          callTail host (CString.ofString "transfer") tokenHash.val) =
      dataInstruction data ::
        .pushInt amount.toInt64.toInt ::
          afterAmount host tokenHash source target :=
  rfl

/-- The conversion to `int64_t` keeps the lower half of the range. -/
theorem toInt_toInt64_eq_iff (amount : UInt64) :
    amount.toInt64.toInt = amount.toNat ↔ amount.toNat < 2 ^ 63 := by
  have bounded := amount.toNat_lt
  have signed :
      amount.toInt64.toInt =
        if 2 * amount.toNat < 2 ^ 64 then (amount.toNat : Int)
        else (amount.toNat : Int) - (2 ^ 64 : Nat) :=
    BitVec.toInt_eq_toNat_cond amount.toBitVec
  rw [signed]
  split
  · exact iff_of_true rfl (by omega)
  · exact iff_of_false (by omega) (by omega)

/-- Behind the data, the machine reads the converted amount. -/
theorem integerAt_transfer (before : List UInt8) (data : Buffer)
    (amount : UInt64) (program : List Instruction) (after : List UInt8) :
    integerAt (before.length + (dataInstruction data).encode.length)
        (before ++
          (assemble
              (dataInstruction data ::
                .pushInt amount.toInt64.toInt :: program) ++
            after)) =
      some amount.toInt64.toInt := by
  have fits :
      (Instruction.pushInt amount.toInt64.toInt).Encodable :=
    (ContractParameter.straight_pushInt amount.toInt64).1
  have position :
      (before ++
          (assemble
              (dataInstruction data ::
                .pushInt amount.toInt64.toInt :: program) ++
            after)).drop
          (before.length + (dataInstruction data).encode.length) =
        (Instruction.pushInt amount.toInt64.toInt).encode ++
          (assemble program ++ after) := by
    rw [assemble_cons, assemble_cons, ← List.drop_drop, List.drop_left,
      List.append_assoc, List.drop_left, List.append_assoc]
  rw [integerAt, position, decode_encode _ fits]

/-! ## The scripts of the GAS token -/

section Joined

variable {host : Host} {alloc : Allocator} {source : Hash160}

/-- The script of one request. -/
def requestScript (host : Host) (source : Hash160)
    (request : TransferRequest) : List UInt8 :=
  assemble
    (dataInstruction request.data ::
      .pushInt request.amount.toInt64.toInt ::
        (afterAmount host GasToken.tokenHash source request.target ++
          [.assert]))

theorem createNep17Transfer_script {tokenHash target : Hash160}
    {amount : UInt64} {data : Buffer} {script : List UInt8}
    (created :
      createNep17Transfer host alloc tokenHash source target amount data =
        .ok script) :
    script =
      assemble
        (dataInstruction data ::
          .pushInt amount.toInt64.toInt ::
            (afterAmount host tokenHash source target ++ [.assert])) := by
  rw [createNep17Transfer_eq_ok created, transferItems_eq]
  rfl

/-- The scripts of the requests are joined in order. -/
theorem joinScripts_eq_ok {requests : List TransferRequest}
    {combined script : List UInt8}
    (joined :
      GasToken.joinScripts host alloc source requests combined =
        .ok script) :
    script = combined ++ requests.flatMap (requestScript host source) := by
  induction requests generalizing combined with
  | nil =>
      injection joined with same
      rw [← same, List.flatMap_nil, List.append_nil]
  | cons request rest induction =>
      rw [GasToken.joinScripts] at joined
      split at joined
      · cases joined
      rcases Except.bind_eq_ok_iff.mp joined with ⟨single, made, joined⟩
      split at joined
      · cases joined
      rw [induction joined, createNep17Transfer_script made,
        List.flatMap_cons, List.append_assoc]
      rfl

/-- Where the amounts of the requests stand, from an offset on. -/
def operandsFrom (host : Host) (source : Hash160) :
    (offset : Nat) → List TransferRequest → List (Nat × UInt64)
  | _, [] => []
  | offset, request :: rest =>
      (offset + (dataInstruction request.data).encode.length,
          request.amount) ::
        operandsFrom host source
          (offset + (requestScript host source request).length) rest

/-- The machine reads all amounts exactly where the conversion keeps them. -/
theorem operandsFrom_iff (before : List UInt8)
    (requests : List TransferRequest) :
    (∀ operand ∈ operandsFrom host source before.length requests,
        integerAt operand.1
            (before ++ requests.flatMap (requestScript host source)) =
          some (operand.2.toNat : Int)) ↔
      ∀ request ∈ requests, request.amount.toNat < 2 ^ 63 := by
  induction requests generalizing before with
  | nil => exact iff_of_true (List.forall_mem_nil _) (List.forall_mem_nil _)
  | cons request rest induction =>
      have later := induction (before ++ requestScript host source request)
      rw [List.length_append, List.append_assoc] at later
      rw [operandsFrom, List.forall_mem_cons, List.forall_mem_cons,
        List.flatMap_cons, later]
      apply and_congr_left'
      rw [requestScript, integerAt_transfer, Option.some.injEq]
      exact toInt_toInt64_eq_iff request.amount

end Joined

end TokenTransfer

/-! ## The four producers -/

/-- A call of one of the functions that write a transfer script. -/
inductive TransferProducer (curve : Curve) where
  /-- `neoc_script_create_nep17_transfer`. -/
  | createNep17Transfer (tokenHash source target : Hash160)
      (amount : UInt64) (data : Buffer)
  /-- `neoc_tx_builder_create_nep17_transfer`. -/
  | txCreateNep17Transfer (tokenHash : Hash160)
      (fromAccount : Account curve) (toAddress : CString) (amount : UInt64)
      (data : Buffer)
  /-- `neoc_gas_token_build_transfer_script`. -/
  | gasTransfer (token : Option GasToken) (source target : Hash160)
      (amount : UInt64) (data : Buffer)
  /-- `neoc_gas_token_build_multi_transfer_script`. -/
  | gasMultiTransfer (token : Option GasToken) (source : Hash160)
      (transfers : Slice TransferRequest)

namespace TransferProducer

open TokenTransfer

variable {curve : Curve}

/-- The script that the function leaves behind. -/
def script (host : Host) (alloc : Allocator) (nonce : UInt32) :
    TransferProducer curve → Outcome (List UInt8)
  | .createNep17Transfer tokenHash source target amount data =>
      ScriptBuilder.createNep17Transfer host alloc tokenHash source target
        amount data
  | .txCreateNep17Transfer tokenHash fromAccount toAddress amount data => do
      let builder ←
        TxBuilder.createNep17Transfer host alloc nonce tokenHash fromAccount
          toAddress amount data
      .ok builder.script.content
  | .gasTransfer token source target amount data =>
      GasToken.buildTransferScript host alloc token source target amount data
  | .gasMultiTransfer token source transfers =>
      GasToken.buildMultiTransferScript host alloc token source transfers

/-- The amounts that are to be transferred. -/
def amounts : TransferProducer curve → List UInt64
  | .createNep17Transfer _ _ _ amount _ => [amount]
  | .txCreateNep17Transfer _ _ _ amount _ => [amount]
  | .gasTransfer _ _ _ amount _ => [amount]
  | .gasMultiTransfer _ _ transfers =>
      transfers.content.map TransferRequest.amount

/-- The offsets at which the amounts stand in the script. -/
def operands (host : Host) : TransferProducer curve → List (Nat × UInt64)
  | .createNep17Transfer _ _ _ amount data =>
      [((dataInstruction data).encode.length, amount)]
  | .txCreateNep17Transfer _ _ _ amount data =>
      [((dataInstruction data).encode.length, amount)]
  | .gasTransfer _ _ _ amount data =>
      [((dataInstruction data).encode.length, amount)]
  | .gasMultiTransfer _ source transfers =>
      operandsFrom host source 0 transfers.content

/-- Every amount is what the machine pushes at its offset. -/
def PushesAmounts (host : Host) (producer : TransferProducer curve)
    (code : List UInt8) : Prop :=
  ∀ operand ∈ producer.operands host,
    integerAt operand.1 code = some (operand.2.toNat : Int)

section Settled

variable {host : Host} {alloc : Allocator} {nonce : UInt32}
  {code : List UInt8}

/-- A script that starts with the data and the amount. -/
theorem single_iff {amount : UInt64} {data : Buffer}
    {program : List Instruction}
    (shape :
      code =
        assemble
          (dataInstruction data ::
            .pushInt amount.toInt64.toInt :: program)) :
    (∀ operand ∈ [((dataInstruction data).encode.length, amount)],
        integerAt operand.1 code = some (operand.2.toNat : Int)) ↔
      ∀ amount' ∈ [amount], amount'.toNat < 2 ^ 63 := by
  have read := integerAt_transfer [] data amount program []
  rw [List.length_nil, Nat.zero_add, List.nil_append, List.append_nil,
    ← shape] at read
  rw [List.forall_mem_singleton, List.forall_mem_singleton, read,
    Option.some.injEq]
  exact toInt_toInt64_eq_iff amount

theorem txCreateNep17Transfer_script {tokenHash : Hash160}
    {fromAccount : Account curve} {toAddress : CString} {amount : UInt64}
    {data : Buffer} {builder : TxBuilder}
    (made :
      TxBuilder.createNep17Transfer host alloc nonce tokenHash fromAccount
          toAddress amount data = .ok builder) :
    ∃ target,
      builder.script.content =
        assemble
          (dataInstruction data ::
            .pushInt amount.toInt64.toInt ::
              afterAmount host tokenHash fromAccount.scriptHash target) := by
  rcases CallProducer.txCreateNep17Transfer_content made with
    ⟨target, -, content⟩
  rw [content, transferItems_eq]
  exact ⟨target, rfl⟩

/--
A script that is written pushes the amounts that were given exactly if all of
them are below `2 ^ 63`.
-/
theorem pushesAmounts_iff
    {producer : TransferProducer curve}
    (made : producer.script host alloc nonce = .ok code) :
    producer.PushesAmounts host code ↔
      ∀ amount ∈ producer.amounts, amount.toNat < 2 ^ 63 := by
  cases producer with
  | createNep17Transfer tokenHash source target amount data =>
      exact single_iff (createNep17Transfer_script made)
  | txCreateNep17Transfer tokenHash fromAccount toAddress amount data =>
      rcases Except.bind_eq_ok_iff.mp made with ⟨builder, created, same⟩
      cases same
      rcases txCreateNep17Transfer_script created with ⟨target, shape⟩
      exact single_iff shape
  | gasTransfer token source target amount data =>
      rw [script, GasToken.buildTransferScript] at made
      split at made
      · cases made
      rcases Except.bind_eq_ok_iff.mp made with ⟨_, -, created⟩
      exact single_iff (createNep17Transfer_script created)
  | gasMultiTransfer token source transfers =>
      cases transfers with
      | null count => cases made
      | items requests =>
          rw [script, GasToken.buildMultiTransferScript] at made
          split at made
          · cases made
          rcases Except.bind_eq_ok_iff.mp made with ⟨_, -, joined⟩
          rw [joinScripts_eq_ok joined, PushesAmounts, operands, amounts,
            List.forall_mem_map]
          exact operandsFrom_iff [] requests

end Settled

open CallProducer (serviceHost lopsidedHash)

/-- With enough memory, a script is written. -/
theorem exists_code {producer : TransferProducer curve}
    (written :
      (producer.script serviceHost .ample 0).isOk = true) :
    ∃ code, producer.script serviceHost .ample 0 = .ok code := by
  cases made : producer.script serviceHost .ample 0 with
  | error reason =>
      rw [made] at written
      cases written
  | ok code => exact ⟨code, rfl⟩

/-- Two transfers of GAS, one of them with data. -/
def twoTransfers : TransferProducer (Curve.basePoint fun _ => none) :=
  .gasMultiTransfer (some { fungible := some GasToken.tokenHash })
    lopsidedHash
    (.items
      [{ target := GasToken.tokenHash, amount := 100000000,
          data := .null 0 },
        { target := lopsidedHash, amount := 0x7FFFFFFFFFFFFFFF,
          data := .items [1, 2] }])

/-- The largest amount that is pushed arrives, behind another transfer. -/
theorem pushesAmounts_twoTransfers :
    ∃ code,
      twoTransfers.script serviceHost .ample 0 = .ok code ∧
        twoTransfers.PushesAmounts serviceHost code := by
  rcases @exists_code _ twoTransfers (by decide +kernel) with ⟨code, made⟩
  refine ⟨code, made, (pushesAmounts_iff made).mpr ?_⟩
  have amounts : twoTransfers.amounts = [100000000, 0x7FFFFFFFFFFFFFFF] :=
    rfl
  rw [amounts]
  exact List.forall_mem_cons.mpr
    ⟨by decide, List.forall_mem_cons.mpr ⟨by decide, List.forall_mem_nil _⟩⟩

/-- A transfer of `2 ^ 63`. -/
def halfTransfer : TransferProducer (Curve.basePoint fun _ => none) :=
  .createNep17Transfer GasToken.tokenHash lopsidedHash lopsidedHash
    0x8000000000000000 (.null 0)

/-- The amount is pushed as the least number of its type. -/
theorem halfTransfer_negative :
    ∃ code,
      halfTransfer.script serviceHost .ample 0 = .ok code ∧
        integerAt 1 code = some (-0x8000000000000000) ∧
          ¬halfTransfer.PushesAmounts serviceHost code := by
  rcases @exists_code _ halfTransfer (by decide +kernel) with ⟨code, made⟩
  have read :
      integerAt 1 code = some (0x8000000000000000 : UInt64).toInt64.toInt := by
    have shape := createNep17Transfer_script made
    have operand :=
      integerAt_transfer [] (.null 0) 0x8000000000000000
        (afterAmount serviceHost GasToken.tokenHash lopsidedHash
            lopsidedHash ++
          [.assert]) []
    rw [List.nil_append, List.append_nil, ← shape] at operand
    exact operand
  refine ⟨code, made, read, ?_⟩
  intro pushes
  have operand := pushes (1, 0x8000000000000000) List.mem_cons_self
  rw [read] at operand
  exact absurd operand (by decide)

end TransferProducer

end NeoC
