import NeoC.Transaction.Copy
import NeoC.Transaction.Transaction

/-!
# The transaction builder

A `neoc_tx_builder_t` collects the parts of a transaction and makes the
transaction from them.  Three things about it are kept here because the code
depends on them.

* Building moves the signers out of the builder, one by one, and leaves a
  `NULL` in the place of each.
* The attribute array is used again from the slot behind its last entry, and
  `add_attribute` writes the data of a slot only when there is data.  So the
  slots behind the last entry are part of the state, and attribute data lies
  in blocks that can be shared or freed.
* The builder remembers the transaction it made last, and does not learn
  when that transaction is freed.
-/

namespace NeoC

open Foundation

/-- An entry of the attribute array, with the address of its data. -/
structure AttributeSlot where
  type : AttributeType
  data : Option Nat
  dataLen : Nat
deriving DecidableEq, Repr

/-- The `built_transaction` pointer. -/
inductive BuiltTransaction where
  | null
  | live (transaction : Transaction)
  | freed

/-- A `neoc_tx_builder_t`. -/
structure TxBuilder where
  version : UInt8
  nonce : UInt32
  validUntilBlock : UInt32
  /-- The entries of `signers` up to `signer_count`. -/
  signers : List (Option Signer)
  systemFee : UInt64
  networkFee : UInt64
  /-- The entries of `attributes` up to `attribute_count`. -/
  slots : List AttributeSlot
  /-- The entries behind them; those that are not listed are zero. -/
  spareSlots : List AttributeSlot
  /-- The blocks allocated for attribute data; `none` has been freed. -/
  blocks : List (Option (List UInt8))
  script : Buffer
  built : BuiltTransaction

namespace TxBuilder

/-- `TX_BUILDER_MAX_SCRIPT_SIZE`. -/
def maxScriptSize : Nat := 65536

/-- `TX_BUILDER_MAX_SIGNERS`. -/
def maxSigners : Nat := 16

/-- `TX_BUILDER_MAX_ATTRIBUTES`. -/
def maxAttributes : Nat := 16

/-- `TX_DEFAULT_VALID_UNTIL_BLOCK`. -/
def defaultValidUntilBlock : UInt32 := 1000000

/-- `TX_DEFAULT_NETWORK_FEE`. -/
def defaultNetworkFee : UInt64 := 100000

/-- `sizeof(neoc_tx_builder_t)`. -/
def structSize : Nat := 728

/-- A builder with its defaults and the nonce that was drawn for it. -/
def fresh (nonce : UInt32) : TxBuilder where
  version := 0
  nonce := nonce
  validUntilBlock := defaultValidUntilBlock
  signers := []
  systemFee := 0
  networkFee := defaultNetworkFee
  slots := []
  spareSlots := []
  blocks := []
  script := .null 0
  built := .null

/-- `neoc_tx_builder_create`. -/
def create (alloc : Allocator) (nonce : UInt32) : Outcome TxBuilder :=
  if alloc.neocGrants structSize then
    .ok (fresh nonce)
  else
    .error (.error .outOfMemory "Failed to allocate transaction builder")

/-! ## Setters -/

/-- `neoc_tx_builder_set_version`. -/
def setVersion (version : UInt8) : Routine TxBuilder Unit :=
  Call.update fun builder => { builder with version }

/-- `neoc_tx_builder_set_nonce`. -/
def setNonce (nonce : UInt32) : Routine TxBuilder Unit :=
  Call.update fun builder => { builder with nonce }

/-- `neoc_tx_builder_set_valid_until_block`. -/
def setValidUntilBlock (blockHeight : UInt32) : Routine TxBuilder Unit :=
  if blockHeight = 0 then
    errorSet .invalidArgument "Valid until block must be greater than zero"
  else
    Call.update fun builder => { builder with validUntilBlock := blockHeight }

/--
`neoc_tx_builder_set_valid_until_block_from_rpc`, given the answer of
`neoc_rpc_get_block_count`.
-/
def setValidUntilBlockFromRpc (height : Outcome UInt32)
    (increment : UInt32) : Routine TxBuilder Unit := do
  let height ← Call.lift height
  let inc := if increment = 0 then 1000 else increment.toNat
  let target := height.toNat + inc
  if target > 0xFFFFFFFF then
    errorSet .invalidSize "validUntilBlock exceeds uint32 range"
  else
    Call.update fun builder =>
      { builder with validUntilBlock := UInt32.ofNat target }

/--
`neoc_tx_builder_set_script`.  When the copy fails the old script is already
gone, and its length stays behind.
-/
def setScript (alloc : Allocator) (script : Buffer) :
    Routine TxBuilder Unit :=
  match script with
  | .null _ => errorSet .invalidArgument "Invalid arguments"
  | .items content =>
      if content.length > maxScriptSize then
        errorSet .invalidSize "Script too large"
      else if alloc.neocGrants content.length then
        Call.update fun builder => { builder with script := .items content }
      else do
        Call.update fun builder =>
          { builder with script := .null builder.script.len }
        errorSet .outOfMemory "Failed to allocate script"

/-- `neoc_tx_builder_add_network_fee`. -/
def addNetworkFee (fee : UInt64) : Routine TxBuilder Unit :=
  Call.update fun builder =>
    { builder with networkFee := builder.networkFee + fee }

/-- `neoc_tx_builder_add_system_fee`. -/
def addSystemFee (fee : UInt64) : Routine TxBuilder Unit :=
  Call.update fun builder =>
    { builder with systemFee := builder.systemFee + fee }

/-! ## Signers -/

variable {curve : Curve}

/-- The entry is a signer with this account. -/
def hasAccount (account : Hash160) (entry : Option Signer) : Bool :=
  match entry with
  | none => false
  | some signer => signer.account = account

/-- `neoc_tx_builder_add_signer`. -/
def addSigner (curve : Curve) (alloc : Allocator) (signer : Signer) :
    Routine TxBuilder Unit := do
  let signers ← Call.read TxBuilder.signers
  if signers.length ≥ maxSigners then
    errorSet .invalidSize "Too many signers"
  else if signers.any (hasAccount signer.account) then
    errorSet .invalidState "Duplicate signer"
  else do
    let newSigner ← Call.lift (signer.copy curve alloc)
    Call.update fun builder =>
      { builder with signers := builder.signers ++ [some newSigner] }

/-- `neoc_tx_builder_add_signer_from_account`. -/
def addSignerFromAccount (alloc : Allocator) (account : Account curve)
    (scopes : UInt8) : Routine TxBuilder Unit := do
  let signer ← Call.lift (Signer.create alloc account.scriptHash scopes)
  addSigner curve alloc signer

/--
The search of `neoc_tx_builder_set_first_signer`.  At a `NULL` entry it
compares a hash that nobody has written.
-/
def findSigner (scriptHash : Hash160) :
    List (Option Signer) → Outcome (Option Nat)
  | [] => .ok none
  | none :: _ => .error .illegalAccess
  | some signer :: rest =>
      if signer.account = scriptHash then
        .ok (some 0)
      else do
        let found ← findSigner scriptHash rest
        .ok (found.map (· + 1))

/-- The entry at the index moves to the front. -/
def moveToFront (signers : List (Option Signer)) (index : Nat) :
    List (Option Signer) :=
  signers[index]?.toList ++ signers.eraseIdx index

/-- `neoc_tx_builder_set_first_signer`. -/
def setFirstSigner (account : Account curve) : Routine TxBuilder Unit := do
  let signers ← Call.read TxBuilder.signers
  let foundIndex ← Call.lift (findSigner account.scriptHash signers)
  match foundIndex with
  | none => errorSet .notFound "Signer not found"
  | some index =>
      Call.update fun builder =>
        { builder with signers := moveToFront signers index }

/-! ## Attributes -/

/-- The slot behind the last entry, with its type already set. -/
def nextSlot (builder : TxBuilder) (type : AttributeType) : AttributeSlot :=
  match builder.spareSlots with
  | [] => { type, data := none, dataLen := 0 }
  | slot :: _ => { slot with type }

/-- `neoc_tx_builder_add_attribute`. -/
def addAttribute (alloc : Allocator) (attr : Attribute) :
    Routine TxBuilder Unit :=
  fun builder =>
    if builder.slots.length ≥ maxAttributes then
      errorSet .invalidSize "Too many attributes" builder
    else
      let slot := builder.nextSlot attr.type
      let spareSlots := builder.spareSlots.tail
      if attr.data.content.length > 0 then
        if alloc.neocGrants attr.data.content.length then
          (.ok (),
            { builder with
              slots :=
                builder.slots ++
                  [{ slot with
                    data := some builder.blocks.length
                    dataLen := attr.data.content.length }]
              spareSlots
              blocks := builder.blocks ++ [some attr.data.content] })
        else
          errorSet .outOfMemory "Failed to allocate attribute data"
            { builder with
              spareSlots := { slot with data := none } :: spareSlots }
      else
        (.ok (),
          { builder with slots := builder.slots ++ [slot], spareSlots })

/-- `neoc_free` on the data of a slot. -/
def freeData (slot : AttributeSlot) : Routine TxBuilder Unit :=
  fun builder =>
    match slot.data with
    | none => (.ok (), builder)
    | some address =>
        match builder.blocks[address]? with
        | some (some _) =>
            (.ok (), { builder with blocks := builder.blocks.set address none })
        | _ => Call.halt .illegalAccess builder

/--
The entries behind the index move one place to the left.  The last entry
stays where it was, now behind the end.
-/
def shiftSlots (index : Nat) (builder : TxBuilder) : TxBuilder :=
  { builder with
    slots := builder.slots.eraseIdx index
    spareSlots := builder.slots.getLast?.toList ++ builder.spareSlots }

/-- The loop that removes the first high priority attribute. -/
def removeHighPriority : Routine TxBuilder Unit := do
  let slots ← Call.read TxBuilder.slots
  match slots.findIdx? (·.type = .highPriority) with
  | none => pure ()
  | some index => do
      Call.forEach freeData slots[index]?.toList
      Call.update (shiftSlots index)

/-- `neoc_tx_builder_set_high_priority`. -/
def setHighPriority (alloc : Allocator) (highPriority : Bool) :
    Routine TxBuilder Unit := do
  removeHighPriority
  if highPriority then
    addAttribute alloc { type := .highPriority, data := .null 0 }
  else
    pure ()

/-- What can be read through the data pointer of a slot. -/
def slotData (builder : TxBuilder) (slot : AttributeSlot) : Option Buffer :=
  match slot.data with
  | none => some (.null slot.dataLen)
  | some address =>
      (builder.blocks[address]?.join).map fun content =>
        .items (content.take slot.dataLen)

/-- The attributes of the builder; data that has been freed is `none`. -/
def attributes (builder : TxBuilder) :
    List (AttributeType × Option Buffer) :=
  builder.slots.map fun slot => (slot.type, builder.slotData slot)

/-! ## Building -/

/-- The setters that `build_unsigned` calls on the new transaction. -/
def setProperties (alloc : Allocator) (builder : TxBuilder) :
    Routine Transaction Unit := do
  Transaction.setVersion builder.version
  Transaction.setNonce builder.nonce
  Transaction.setValidUntilBlock builder.validUntilBlock
  Transaction.setSystemFee builder.systemFee
  Transaction.setNetworkFee builder.networkFee
  Transaction.setScript alloc builder.script

/--
The loop that hands the signers over.  The second component is what it
leaves in the array.
-/
def transferSigners (alloc : Allocator) :
    List (Option Signer) → Transaction →
      Outcome Transaction × List (Option Signer)
  | [], transaction => (.ok transaction, [])
  | none :: rest, _ =>
      (.error (.error .invalidArgument "Invalid arguments"), none :: rest)
  | some signer :: rest, transaction =>
      match Transaction.addSigner alloc signer transaction with
      | (.error reason, _) => (.error reason, some signer :: rest)
      | (.ok _, transaction') =>
          let (outcome, left) := transferSigners alloc rest transaction'
          (outcome, none :: left)

/--
`neoc_tx_builder_build_unsigned` at a given time.  The result of the last
setter, which copies the script, is not looked at.
-/
def buildUnsigned (alloc : Allocator) (time : UInt32) :
    Routine TxBuilder Transaction :=
  fun builder =>
    if builder.script.content.length = 0 then
      errorSet .invalidState "No script set" builder
    else if builder.validUntilBlock = 0 then
      errorSet .invalidState "Valid until block not set" builder
    else if builder.signers.length = 0 then
      errorSet .invalidState "No signers added" builder
    else
      match Transaction.create alloc time with
      | .error reason => (.error reason, builder)
      | .ok transaction =>
          match
            transferSigners alloc builder.signers
              (setProperties alloc builder transaction).2
          with
          | (.error reason, left) =>
              (.error reason, { builder with signers := left })
          | (.ok transaction, _) =>
              (.ok transaction,
                { builder with signers := [], built := .live transaction })

/-! ## Queries -/

/-- `neoc_transaction_free` on the transaction that was built last. -/
def freeBuilt : Routine TxBuilder Unit :=
  Call.update fun builder => { builder with built := .freed }

/-- The network fee of a transaction that cannot be built or serialized. -/
def fallbackNetworkFee (builder : TxBuilder) : UInt64 :=
  if builder.networkFee > 0 then builder.networkFee else 100000

/-- The network fee of a serialized transaction. -/
def sizedNetworkFee (size signerCount : Nat) : UInt64 :=
  let fee := UInt64.ofNat size * 1000 + UInt64.ofNat signerCount * 1000000
  if fee < 100000 then 100000 else fee

/-- The system fee, estimated from the size of the script if none is set. -/
def estimatedSystemFee (builder : TxBuilder) : UInt64 :=
  if builder.systemFee > 0 then
    builder.systemFee
  else
    100000 + UInt64.ofNat builder.script.len * 10000

/-- The network fee that `calculate_fees` reads off the built transaction. -/
def networkFeeOf (alloc : Allocator) (builder : TxBuilder)
    (signerCount : Nat) (transaction : Transaction) : Outcome UInt64 :=
  match transaction.serialize alloc transaction.getSize with
  | .ok written =>
      .ok
        (sizedNetworkFee
          (if written.length < transaction.getSize then written.length
            else transaction.getSize)
          signerCount)
  | .error (.error _ _) => .ok builder.fallbackNetworkFee
  | .error reason => .error reason

/-- `neoc_tx_builder_calculate_fees`: the network fee and the system fee. -/
def calculateFees (alloc : Allocator) (time : UInt32) :
    Routine TxBuilder (UInt64 × UInt64) :=
  fun builder =>
    match buildUnsigned alloc time builder with
    | (.error _, left) =>
        (.ok (left.fallbackNetworkFee, left.systemFee), left)
    | (.ok transaction, left) =>
        if alloc.neocGrants transaction.getSize = false then
          (do
            freeBuilt
            errorSet .outOfMemory "Failed to allocate transaction buffer") left
        else
          (do
            let networkFee ←
              Call.lift
                (networkFeeOf alloc left builder.signers.length transaction)
            freeBuilt
            return (networkFee, left.estimatedSystemFee)) left

/-- `neoc_transaction_calculate_hash` on the transaction built last. -/
def hashBuilt (host : Host) (alloc : Allocator) :
    Routine TxBuilder Hash256 :=
  fun builder =>
    match builder.built with
    | .null => errorSet .invalidArgument "Invalid arguments" builder
    | .freed => Call.halt .illegalAccess builder
    | .live transaction =>
        let (outcome, transaction') :=
          Transaction.calculateHash host alloc transaction
        (outcome, { builder with built := .live transaction' })

/-- `neoc_tx_builder_get_hash`. -/
def getHash (host : Host) (alloc : Allocator) (time : UInt32) :
    Routine TxBuilder Hash256 :=
  fun builder =>
    match builder.built with
    | .null =>
        (do
          let _ ← buildUnsigned alloc time
          hashBuilt host alloc) builder
    | _ => hashBuilt host alloc builder

end TxBuilder

end NeoC
