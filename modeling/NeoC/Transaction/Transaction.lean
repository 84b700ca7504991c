import NeoC.Crypto.EcKey
import NeoC.Foundation.Run
import NeoC.Transaction.Signer

/-!
# Transactions

A `neoc_transaction_t` is changed by its setters and by the functions that
add signers, attributes and witnesses, serialized with or without its
witnesses, hashed and signed.  The hash is kept in the transaction once it
has been computed, and no setter clears it.

`unsignedBytes` and `witnessBytes` are what the serializer writes when it
succeeds.  The properties of runs rest on them and not on the writer.
-/

namespace NeoC

open Foundation

/-! ## Attributes and witnesses -/

/-- A `neoc_tx_attribute_type_t`. -/
inductive AttributeType where
  | highPriority
  | oracleResponse
  | notValidBefore
  | conflicts
deriving DecidableEq, Repr

/-- The value of the enumeration, as the byte it is written as. -/
def AttributeType.toByte : AttributeType → UInt8
  | .highPriority => 0x01
  | .oracleResponse => 0x11
  | .notValidBefore => 0x20
  | .conflicts => 0x21

/-- A `neoc_tx_attribute_t`. -/
structure Attribute where
  type : AttributeType
  data : Buffer
deriving DecidableEq, Repr

/-- A `neoc_witness_t`. -/
structure Witness where
  invocationScript : Buffer
  verificationScript : Buffer
deriving DecidableEq, Repr

namespace Witness

/-- `sizeof(neoc_witness_t)`. -/
def structSize : Nat := 32

/-- The copy of a script, with the text of the error when it fails. -/
def copyScript (alloc : Allocator) (script : Buffer) (text : String) :
    Outcome Buffer :=
  match script with
  | .null _ => .ok (.null 0)
  | .items content =>
      if content.length = 0 then
        .ok (.null 0)
      else if alloc.neocGrants content.length then
        .ok (.items content)
      else
        .error (.error .outOfMemory text)

/-- `neoc_witness_create`. -/
def create (alloc : Allocator)
    (invocationScript verificationScript : Buffer) : Outcome Witness :=
  if alloc.neocGrants structSize = false then
    .error (.error .outOfMemory "Failed to allocate witness")
  else do
    let invocationScript ←
      copyScript alloc invocationScript "Failed to allocate invocation script"
    let verificationScript ←
      copyScript alloc verificationScript
        "Failed to allocate verification script"
    .ok { invocationScript, verificationScript }

/-- `neoc_witness_create_from_signature`. -/
def createFromSignature (alloc : Allocator)
    (signature publicKey : List UInt8) : Outcome Witness :=
  if alloc.neocGrants (1 + signature.length) = false then
    .error (.error .outOfMemory "Failed to allocate invocation script")
  else if alloc.neocGrants (1 + publicKey.length + 1) = false then
    .error (.error .outOfMemory "Failed to allocate verification script")
  else
    create alloc
      (.items (0x40 :: signature))
      (.items (0x21 :: publicKey ++ [0xAC]))

/-- `neoc_witness_get_size`. -/
def getSize (witness : Witness) : Nat :=
  (BinaryWriter.varIntSize witness.invocationScript.len +
      witness.invocationScript.len +
    (BinaryWriter.varIntSize witness.verificationScript.len +
      witness.verificationScript.len)) % sizeModulus

/-- `neoc_witness_serialize`. -/
def serialize (alloc : Allocator) (witness : Witness) :
    Outcome (List UInt8) :=
  BinaryWriter.produce alloc (BinaryWriter.create alloc 64 true) do
    BinaryWriter.writeVarBytes alloc witness.invocationScript
    BinaryWriter.writeVarBytes alloc witness.verificationScript

/-- The bytes of a witness. -/
def encode (witness : Witness) : List UInt8 :=
  BinaryWriter.bufferBytes witness.invocationScript ++
    BinaryWriter.bufferBytes witness.verificationScript

theorem serialize_eq_ok {alloc : Allocator} {witness : Witness}
    {bytes : List UInt8} (serialized : serialize alloc witness = .ok bytes) :
    bytes = witness.encode :=
  BinaryWriter.produce_eq_ok (BinaryWriter.fresh_create 64)
    ((BinaryWriter.writeVarBytes_appends _).bind
      (BinaryWriter.writeVarBytes_appends _))
    serialized

/-- Both scripts are there if they have a length. -/
structure Backed (witness : Witness) : Prop where
  invocationScript : witness.invocationScript.Backed
  verificationScript : witness.verificationScript.Backed

end Witness

/-! ## Accounts -/

/-- The members of a `neoc_account_t` that signing reads. -/
structure Account (curve : Curve) where
  scriptHash : Hash160
  keyPair : Option (EcKeyPair curve)

/-- `neoc_account_sign` on a hash. -/
def Account.sign {curve : Curve} (alloc : Allocator)
    (account : Account curve) (data : Bytes 32) : Outcome (Bytes 64) :=
  match account.keyPair with
  | none =>
      .error (.error .invalidState "Account has no key pair for signing")
  | some keyPair => do
      let ecdsaSig ← keyPair.sign alloc data
      ecdsaSignatureToBytes alloc ecdsaSig

/-! ## Transactions -/

/-- A `neoc_transaction_t`. -/
structure Transaction where
  version : UInt8
  nonce : UInt32
  systemFee : UInt64
  networkFee : UInt64
  validUntilBlock : UInt32
  signers : List Signer
  attributes : List Attribute
  script : Buffer
  witnesses : List Witness
  hash : Hash256

namespace Transaction

/-- `sizeof(neoc_transaction_t)`. -/
def structSize : Nat := 128

/-- The size of a pointer in the arrays of the transaction. -/
def pointerSize : Nat := 8

/-- `neoc_transaction_create` at a given time. -/
def create (alloc : Allocator) (time : UInt32) : Outcome Transaction :=
  if alloc.neocGrants structSize then
    .ok
      { version := 0, nonce := time, systemFee := 0, networkFee := 0,
        validUntilBlock := 0, signers := [], attributes := [],
        script := .null 0, witnesses := [], hash := Bytes.zero 32 }
  else
    .error (.error .outOfMemory "Failed to allocate transaction")

/-- The transaction that `neoc_transaction_create` makes at time zero. -/
def emptyTransaction : Transaction where
  version := 0
  nonce := 0
  systemFee := 0
  networkFee := 0
  validUntilBlock := 0
  signers := []
  attributes := []
  script := .null 0
  witnesses := []
  hash := Bytes.zero 32

/-- SHA-256 of the unsigned bytes of that transaction. -/
def emptyTransactionDigest : Bytes 32 :=
  Bytes.ofNat 32
    0x3ADDFB141CD7C9C4C6543A82191A3707AC29C7A041217782E61D4D91C691AEE8

/-- `neoc_transaction_set_version`. -/
def setVersion (version : UInt8) : Routine Transaction Unit :=
  Call.update fun transaction => { transaction with version }

/-- `neoc_transaction_set_nonce`. -/
def setNonce (nonce : UInt32) : Routine Transaction Unit :=
  Call.update fun transaction => { transaction with nonce }

/-- `neoc_transaction_set_system_fee`. -/
def setSystemFee (fee : UInt64) : Routine Transaction Unit :=
  Call.update fun transaction => { transaction with systemFee := fee }

/-- `neoc_transaction_set_network_fee`. -/
def setNetworkFee (fee : UInt64) : Routine Transaction Unit :=
  Call.update fun transaction => { transaction with networkFee := fee }

/-- `neoc_transaction_set_valid_until_block`. -/
def setValidUntilBlock (block : UInt32) : Routine Transaction Unit :=
  Call.update fun transaction => { transaction with validUntilBlock := block }

/--
`neoc_transaction_set_script`.  When the copy fails the old script is already
gone, and its length stays behind.
-/
def setScript (alloc : Allocator) (script : Buffer) :
    Routine Transaction Unit :=
  match script with
  | .null _ => errorSet .invalidArgument "Invalid arguments"
  | .items content =>
      if content.length = 0 then
        errorSet .invalidArgument "Invalid arguments"
      else if alloc.neocGrants content.length then
        Call.update fun transaction =>
          { transaction with script := .items content }
      else do
        Call.update fun transaction =>
          { transaction with script := .null transaction.script.len }
        errorSet .outOfMemory "Failed to allocate script"

/-- `neoc_transaction_add_signer`. -/
def addSigner (alloc : Allocator) (signer : Signer) :
    Routine Transaction Unit := do
  let signers ← Call.read Transaction.signers
  if signers.any fun other => other.account = signer.account then
    errorSet .invalidState "Signer already exists"
  else if alloc.neocGrants ((signers.length + 1) * pointerSize) then
    Call.update fun transaction =>
      { transaction with signers := transaction.signers ++ [signer] }
  else
    errorSet .outOfMemory "Failed to resize signers"

/-- `neoc_transaction_add_attribute`. -/
def addAttribute (alloc : Allocator) (attr : Attribute) :
    Routine Transaction Unit := do
  let attributes ← Call.read Transaction.attributes
  if alloc.neocGrants ((attributes.length + 1) * pointerSize) then
    Call.update fun transaction =>
      { transaction with
        attributes := transaction.attributes ++ [attr] }
  else
    errorSet .outOfMemory "Failed to resize attributes"

/-- `neoc_transaction_add_witness`. -/
def addWitness (alloc : Allocator) (witness : Witness) :
    Routine Transaction Unit := do
  let witnesses ← Call.read Transaction.witnesses
  if alloc.neocGrants ((witnesses.length + 1) * pointerSize) then
    Call.update fun transaction =>
      { transaction with witnesses := transaction.witnesses ++ [witness] }
  else
    errorSet .outOfMemory "Failed to resize witnesses"

/-- `neoc_tx_write_signers`. -/
def writeSigners (alloc : Allocator) (transaction : Transaction) :
    Routine BinaryWriter Unit := do
  BinaryWriter.writeVarInt alloc (UInt64.ofNat transaction.signers.length)
  Call.forEach (Signer.serialize alloc) transaction.signers

/-- `neoc_tx_attribute_write`. -/
def writeAttribute (alloc : Allocator) (attr : Attribute) :
    Routine BinaryWriter Unit := do
  BinaryWriter.writeByte alloc attr.type.toByte
  BinaryWriter.writeVarBytes alloc attr.data

/-- `neoc_tx_write_attributes`. -/
def writeAttributes (alloc : Allocator) (transaction : Transaction) :
    Routine BinaryWriter Unit := do
  BinaryWriter.writeVarInt alloc (UInt64.ofNat transaction.attributes.length)
  Call.forEach (writeAttribute alloc) transaction.attributes

/-- The loop body of `neoc_tx_write_witnesses`. -/
def writeWitness (alloc : Allocator) (witness : Witness) :
    Routine BinaryWriter Unit := do
  let witnessBytes ← Call.lift (witness.serialize alloc)
  BinaryWriter.writeBytes alloc (.items witnessBytes)

/-- `neoc_tx_write_witnesses`. -/
def writeWitnesses (alloc : Allocator) (transaction : Transaction) :
    Routine BinaryWriter Unit := do
  BinaryWriter.writeVarInt alloc (UInt64.ofNat transaction.witnesses.length)
  Call.forEach (writeWitness alloc) transaction.witnesses

/-- Everything but the witnesses. -/
def writeUnsigned (alloc : Allocator) (transaction : Transaction) :
    Routine BinaryWriter Unit := do
  BinaryWriter.writeByte alloc transaction.version
  BinaryWriter.writeUint32 alloc transaction.nonce
  BinaryWriter.writeUint64 alloc transaction.systemFee
  BinaryWriter.writeUint64 alloc transaction.networkFee
  BinaryWriter.writeUint32 alloc transaction.validUntilBlock
  writeSigners alloc transaction
  writeAttributes alloc transaction
  BinaryWriter.writeVarBytes alloc transaction.script

/-- `neoc_transaction_build_serialized`. -/
def buildSerialized (alloc : Allocator) (transaction : Transaction)
    (includeWitnesses : Bool) : Outcome (List UInt8) :=
  BinaryWriter.produce alloc (BinaryWriter.create alloc 256 true) do
    writeUnsigned alloc transaction
    if includeWitnesses then writeWitnesses alloc transaction else pure ()

/-- `neoc_transaction_serialize`: the bytes copied into the buffer. -/
def serialize (alloc : Allocator) (transaction : Transaction)
    (bufferSize : Nat) : Outcome (List UInt8) := do
  let data ← buildSerialized alloc transaction true
  if data.length > bufferSize then
    .error
      (.error .bufferTooSmall
        "Buffer too small for serialized transaction")
  else
    .ok data

/-- `neoc_transaction_get_size`. -/
def getSize (transaction : Transaction) : Nat :=
  (1 + 4 + 8 + 8 + 4 +
    (BinaryWriter.varIntSize transaction.signers.length +
      (transaction.signers.map Signer.getSize).sum) +
    (BinaryWriter.varIntSize transaction.attributes.length +
      (transaction.attributes.map fun attr =>
        1 + (BinaryWriter.varIntSize attr.data.len +
          attr.data.len)).sum) +
    (BinaryWriter.varIntSize transaction.script.len +
      transaction.script.len) +
    (BinaryWriter.varIntSize transaction.witnesses.length +
      (transaction.witnesses.map Witness.getSize).sum)) % sizeModulus

/-- `neoc_transaction_calculate_hash`. -/
def calculateHash (host : Host) (alloc : Allocator) :
    Routine Transaction Hash256 := do
  let transaction ← Call.read id
  let data ← Call.lift (buildSerialized alloc transaction false)
  let hash ← Call.lift (host.sha256 data)
  Call.update fun transaction => { transaction with hash }
  return hash

/-- `neoc_transaction_get_hash`. -/
def getHash (host : Host) (alloc : Allocator) :
    Routine Transaction Hash256 := do
  let hash ← Call.read Transaction.hash
  if hash = Bytes.zero 32 then
    calculateHash host alloc
  else
    return hash

variable {curve : Curve}

/-- `neoc_transaction_sign`. -/
def sign (host : Host) (alloc : Allocator) (account : Account curve) :
    Routine Transaction Unit := do
  let hash ← calculateHash host alloc
  let signature ← Call.lift (account.sign alloc hash)
  match account.keyPair with
  | none => errorSet .invalidState "Account has no key pair"
  | some keyPair => do
      let witness ←
        Call.lift
          (Witness.createFromSignature alloc signature.val
            keyPair.getPublicKey.val)
      addWitness alloc witness

/-! ## What the serializer writes -/

/-- The bytes of an attribute. -/
def attributeBytes (attr : Attribute) : List UInt8 :=
  [attr.type.toByte] ++ BinaryWriter.bufferBytes attr.data

/-- The bytes that are hashed and signed. -/
def unsignedBytes (transaction : Transaction) : List UInt8 :=
  [transaction.version] ++
    (LittleEndian.toBytes 4 transaction.nonce.toNat ++
    (LittleEndian.toBytes 8 transaction.systemFee.toNat ++
    (LittleEndian.toBytes 8 transaction.networkFee.toNat ++
    (LittleEndian.toBytes 4 transaction.validUntilBlock.toNat ++
    ((BinaryWriter.countBytes transaction.signers.length ++
      transaction.signers.flatMap Signer.encode) ++
    ((BinaryWriter.countBytes transaction.attributes.length ++
      transaction.attributes.flatMap attributeBytes) ++
    BinaryWriter.bufferBytes transaction.script))))))

/-- The bytes of the witnesses. -/
def witnessBytes (transaction : Transaction) : List UInt8 :=
  BinaryWriter.countBytes transaction.witnesses.length ++
    transaction.witnesses.flatMap Witness.encode

section Appends

open BinaryWriter

variable {alloc : Allocator}

theorem writeSigners_appends (transaction : Transaction) :
    Appends (writeSigners alloc transaction)
      (countBytes transaction.signers.length ++
        transaction.signers.flatMap Signer.encode) :=
  (writeCount_appends _).bind
    (appends_forEach fun signer _ => signer.serialize_appends)

theorem writeAttribute_appends (attr : Attribute) :
    Appends (writeAttribute alloc attr) (attributeBytes attr) :=
  (writeByte_emits attr.type.toByte).appends.bind
    (writeVarBytes_appends attr.data)

theorem writeAttributes_appends (transaction : Transaction) :
    Appends (writeAttributes alloc transaction)
      (countBytes transaction.attributes.length ++
        transaction.attributes.flatMap attributeBytes) :=
  (writeCount_appends _).bind
    (appends_forEach fun attr _ => writeAttribute_appends attr)

theorem writeWitness_appends (witness : Witness) :
    Appends (writeWitness alloc witness) witness.encode := by
  intro writer written wellFormed ran
  rcases Call.bind_eq_ok_iff.mp ran with ⟨bytes, writer', serialized, wrote⟩
  rw [Call.lift_run, Prod.mk.injEq] at serialized
  rcases serialized with ⟨serialized, rfl⟩
  rw [← Witness.serialize_eq_ok serialized]
  exact writeBytes_appends (.items bytes) writer written wellFormed wrote

theorem writeWitnesses_appends (transaction : Transaction) :
    Appends (writeWitnesses alloc transaction) transaction.witnessBytes :=
  (writeCount_appends _).bind
    (appends_forEach fun witness _ => writeWitness_appends witness)

theorem writeUnsigned_appends (transaction : Transaction) :
    Appends (writeUnsigned alloc transaction) transaction.unsignedBytes :=
  (writeByte_emits transaction.version).appends.bind
    ((writeWord_emits 4 _).appends.bind
      ((writeWord_emits 8 _).appends.bind
        ((writeWord_emits 8 _).appends.bind
          ((writeWord_emits 4 _).appends.bind
            ((writeSigners_appends transaction).bind
              ((writeAttributes_appends transaction).bind
                (writeVarBytes_appends transaction.script)))))))

/-- A serialization without witnesses is the unsigned bytes. -/
theorem buildSerialized_unsigned {transaction : Transaction}
    {data : List UInt8}
    (built : buildSerialized alloc transaction false = .ok data) :
    data = transaction.unsignedBytes := by
  have bytes :=
    produce_eq_ok (fresh_create 256)
      ((writeUnsigned_appends transaction).bind appends_pure) built
  rw [bytes, List.append_nil]

/-- A serialization with witnesses has them at its end. -/
theorem buildSerialized_signed {transaction : Transaction}
    {data : List UInt8}
    (built : buildSerialized alloc transaction true = .ok data) :
    data = transaction.unsignedBytes ++ transaction.witnessBytes :=
  produce_eq_ok (fresh_create 256)
    ((writeUnsigned_appends transaction).bind
      (writeWitnesses_appends transaction)) built

end Appends

end Transaction

end NeoC
