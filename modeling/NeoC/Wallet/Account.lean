import NeoC.Crypto.Address
import NeoC.Crypto.KeyPair
import NeoC.Transaction.Transaction
import NeoC.Wallet.MultiSig

/-!
# Accounts

An account is made from a key pair, from a list of public keys or from a
verification script.  The constructors share their last steps, which turn the
script hash into an address and the address into a label; they differ in
where the script comes from.  A constructor that is given a script looks
through its bytes with a parser of its own, and fills in the threshold and
the number of participants it believes to have found.
-/

namespace NeoC

open Foundation NeoVm

/-! ## Key pairs -/

namespace EcKeyPair

variable {curve : Curve}

/-- `neoc_ec_key_pair_get_script_hash`. -/
def getScriptHash (host : Host) (alloc : Allocator)
    (keyPair : EcKeyPair curve) : Outcome Hash160 := do
  let script ←
    ScriptBuilder.buildVerificationScript host alloc
      keyPair.publicKey.compressed.val
  host.hash160 script

/-- `neoc_ec_key_pair_get_address`. -/
def getAddress (host : Host) (alloc : Allocator)
    (keyPair : EcKeyPair curve) : Outcome CString := do
  let scriptHash ← keyPair.getScriptHash host alloc
  let tempAddress ← Hash160.toAddress host alloc scriptHash 58
  if alloc.neocGrants (tempAddress.strlen + 1) = false then
    .error (.error .outOfMemory "Failed to allocate address")
  else
    .ok tempAddress

end EcKeyPair

/-- `neoc_verification_script_create_single_sig`. -/
def VerificationScript.createSingleSig {curve : Curve} (host : Host)
    (alloc : Allocator) (publicKey : EcPublicKey curve) :
    Outcome VerificationScript := do
  let encoded ← publicKey.getEncoded alloc true
  let script ← ScriptBuilder.buildVerificationScript host alloc encoded
  allocate alloc (.items script)

/-! ## Accounts -/

/-- A `neoc_account_multisig_info_t`. -/
structure MultisigInfo where
  threshold : Int32
  nrParticipants : Int32
  isAddressOnly : Bool
deriving DecidableEq

/-- What `extra` points to, by `extra_type`. -/
inductive AccountExtra (curve : Curve) where
  | multisig (account : MultiSigAccount curve)
  | multisigInfo (info : MultisigInfo)

/-- A `neoc_account_t`. -/
structure WalletAccount (curve : Curve) extends Account curve where
  label : Option CString
  address : Option CString
  isLocked : Bool
  isDefault : Bool
  encryptedKey : Buffer
  verificationScript : Buffer
  extra : Option (AccountExtra curve)

namespace WalletAccount

variable {curve : Curve}

/-- `sizeof(neoc_account_t)`. -/
def structSize : Nat := 104

/-- `sizeof(neoc_account_multisig_info_t)`. -/
def infoSize : Nat := 12

/-- `NEOC_ADDRESS_LENGTH`. -/
def addressLength : Nat := 64

/-- `is_multisig_internal`. -/
def isMultisigInternal (account : WalletAccount curve) : Bool :=
  match account.extra with
  | none => false
  | some (.multisig multisig) =>
      decide
        (0 < multisig.threshold ∧
          multisig.threshold ≤ multisig.publicKeyCount ∧
          1 ≤ multisig.publicKeyCount)
  | some (.multisigInfo info) =>
      decide
        (0 < info.threshold ∧ info.threshold ≤ info.nrParticipants ∧
          1 ≤ info.nrParticipants)

/-- `neoc_account_get_signing_threshold`. -/
def getSigningThreshold (account : WalletAccount curve) : Outcome Int32 :=
  if account.isMultisigInternal = false then
    .error (.error .invalidState "Account is not multi-signature")
  else
    match account.extra with
    | some (.multisig multisig) =>
        if 0 < multisig.threshold ∧
            multisig.threshold ≤ multisig.publicKeyCount then
          .ok (Int32.ofNat multisig.threshold.toNat)
        else
          .error
            (.error .invalidState "Cannot determine signing threshold")
    | some (.multisigInfo info) =>
        if 0 < info.threshold then
          .ok info.threshold
        else
          .error
            (.error .invalidState "Cannot determine signing threshold")
    | none =>
        .error (.error .invalidState "Cannot determine signing threshold")

/-- `neoc_account_get_nr_participants`. -/
def getNrParticipants (account : WalletAccount curve) : Outcome Int32 :=
  if account.isMultisigInternal = false then
    .error (.error .invalidState "Account is not multi-signature")
  else
    match account.extra with
    | some (.multisig multisig) =>
        if 0 < multisig.publicKeyCount then
          .ok (Int32.ofNat multisig.publicKeyCount.toNat)
        else
          .error
            (.error .invalidState "Cannot determine number of participants")
    | some (.multisigInfo info) =>
        if 0 < info.nrParticipants then
          .ok info.nrParticipants
        else
          .error
            (.error .invalidState "Cannot determine number of participants")
    | none =>
        .error
          (.error .invalidState "Cannot determine number of participants")

/-- The branches of `get_verification_script` without a cached script. -/
def makeVerificationScript (host : Host) (alloc : Allocator)
    (account : WalletAccount curve) : Outcome (List UInt8) :=
  match account.extra with
  | some (.multisig multisig) =>
      if alloc.neocGrants multisig.verificationScript.length = false then
        .error (.error .outOfMemory "Failed to allocate script")
      else
        .ok multisig.verificationScript
  | some (.multisigInfo _) =>
      .error
        (.error .invalidState
          ("Verification script not available for address-only " ++
            "multi-sig account"))
  | none =>
      match account.keyPair with
      | some keyPair =>
          ScriptHelper.createSingleSigVerification host alloc
            keyPair.getPublicKey.val
      | none =>
          .error (.error .invalidState "No verification script available")

/-- `neoc_account_get_verification_script`. -/
def getVerificationScript (host : Host) (alloc : Allocator)
    (account : WalletAccount curve) : Outcome (List UInt8) :=
  match account.verificationScript with
  | .null _ => makeVerificationScript host alloc account
  | .items content =>
      if content.length = 0 then
        makeVerificationScript host alloc account
      else if alloc.neocGrants content.length = false then
        .error
          (.error .outOfMemory
            "Failed to allocate cached verification script")
      else
        .ok content

/-! ## Constructors -/

/-- `neoc_strdup`; `none` is the `NULL` it returns. -/
def strdup (alloc : Allocator) (text : CString) : Option CString :=
  if alloc.neocGrants (text.strlen + 1) then some text else none

/-- The buffer of an address and the address written to it. -/
def makeAddress (host : Host) (alloc : Allocator) (scriptHash : Hash160) :
    Outcome CString :=
  if alloc.neocGrants addressLength = false then
    .error (.error .outOfMemory "Failed to allocate address")
  else
    Hash160.toAddress host alloc scriptHash addressLength

/-- The copy of a text that becomes the label. -/
def makeLabel (alloc : Allocator) (labelSource : CString) :
    Outcome CString :=
  match strdup alloc labelSource with
  | none => .error (.error .outOfMemory "Failed to allocate account label")
  | some label => .ok label

/-- `neoc_account_create_from_key_pair_with_label`. -/
def createFromKeyPairWithLabel (derivation : KeyDerivation curve)
    (host : Host) (alloc : Allocator) (label : Option CString)
    (keyPair : EcKeyPair curve) : Outcome (WalletAccount curve) :=
  if alloc.neocGrants structSize = false then
    .error (.error .outOfMemory "Failed to allocate account")
  else do
    let newKeyPair ←
      EcKeyPair.createFromPrivateKey derivation alloc
        (derivation.privateBytes keyPair.privateKey)
    let verificationScript ←
      ScriptHelper.createSingleSigVerification host alloc
        newKeyPair.getPublicKey.val
    let scriptHash ← Hash160.fromScript host verificationScript
    let address ← makeAddress host alloc scriptHash
    let label ← makeLabel alloc (label.getD address)
    .ok
      { scriptHash
        keyPair := some newKeyPair
        label := some label
        address := some address
        isLocked := false
        isDefault := false
        encryptedKey := .null 0
        verificationScript := .items verificationScript
        extra := none }

/-- `neoc_account_create_multisig_from_public_keys`. -/
def createMultisigFromPublicKeys (host : Host) (alloc : Allocator)
    (publicKeys : Slice (Option (EcPublicKey curve))) (threshold : Int32) :
    Outcome (WalletAccount curve) :=
  match publicKeys with
  | .null _ => .error (.error .invalidArgument "Invalid arguments")
  | .items keys =>
      if keys.length = 0 then
        .error (.error .invalidArgument "Invalid arguments")
      else if threshold ≤ 0 ∨ Int32.ofNat keys.length < threshold then
        .error (.error .invalidArgument "Invalid threshold")
      else if keys.length > 1024 then
        .error (.error .invalidArgument "Too many public keys")
      else do
        -- Both numbers are cut to eight bits.
        let multisig ←
          MultiSig.create host alloc threshold.toUInt32.toUInt8
            (.items keys) (UInt8.ofNat keys.length)
        if alloc.neocGrants structSize = false then
          .error (.error .outOfMemory "Failed to allocate account")
        else
          let address ← makeAddress host alloc multisig.scriptHash
          let label ← makeLabel alloc address
          .ok
            { scriptHash := multisig.scriptHash
              keyPair := none
              label := some label
              address := some address
              isLocked := false
              isDefault := false
              encryptedKey := .null 0
              verificationScript := .null 0
              extra := some (.multisig multisig) }

/-! ## Looking through a script -/

/--
The push of a threshold or of a number of participants: the value and the
position behind it.  Where there is no such push the value is zero.
-/
def scanPush (script : List UInt8) (pos : Nat) : UInt8 × Nat :=
  if pos < script.length ∧ 0x11 ≤ script.getD pos 0 ∧
      script.getD pos 0 ≤ 0x20 then
    (script.getD pos 0 - 0x10, pos + 1)
  else if pos < script.length ∧ script.getD pos 0 = 0x00 then
    if pos + 1 < script.length then
      (script.getD (pos + 1) 0, pos + 2)
    else
      (0, pos + 1)
  else
    (0, pos)

/-- How far one turn of the loop over the keys moves, if it finds a key. -/
def keyStride (script : List UInt8) (pos : Nat) : Option Nat :=
  if script.getD pos 0 = 0x21 then
    some 34
  else if script.getD pos 0 = 0x41 then
    some 66
  else if script.getD pos 0 = 0x0C ∧ pos + 1 < script.length then
    let len := script.getD (pos + 1) 0
    if len = 33 ∨ len = 65 then some (2 + len.toNat) else none
  else
    none

theorem keyStride_pos {script : List UInt8} {pos stride : Nat}
    (found : keyStride script pos = some stride) :
    0 < stride := by
  rw [keyStride] at found
  dsimp only at found
  split_ifs at found
  · cases found
    decide
  · cases found
    decide
  · cases found
    omega

/-- The loop over the keys: the position behind them and their number. -/
def scanKeys (script : List UInt8) (pos pubkeyCount : Nat) :
    Outcome (Nat × Nat) :=
  if pos < script.length - 2 then
    match found : keyStride script pos with
    | none => .ok (pos, pubkeyCount)
    | some stride =>
        -- The counter is an `int`.
        if pubkeyCount = 0x7FFFFFFF then
          .error .signedOverflow
        else
          scanKeys script (pos + stride) (pubkeyCount + 1)
  else
    .ok (pos, pubkeyCount)
termination_by script.length - pos
decreasing_by
  have positive := keyStride_pos found
  omega

/-- The test for the syscall behind the numbers. -/
def isCheckMultisig (host : Host) (script : List UInt8) (pos : Nat) : Bool :=
  decide
    (pos + 4 < script.length ∧ script.getD pos 0 = 0x41 ∧
      VerificationScript.wordAt script (pos + 1) =
        host.interopGetHash .systemCryptoCheckMultisig)

/-- Threshold and participants of a script that looks multi-signature. -/
def analyzeScript (host : Host) (script : List UInt8) :
    Outcome (Option (UInt8 × UInt8)) :=
  if script.length < 4 then
    .ok none
  else do
    let (threshold, pos) := scanPush script 0
    let (pos, pubkeyCount) ← scanKeys script pos 0
    let (participants, pos) := scanPush script pos
    if isCheckMultisig host script pos ∧ 0 < threshold ∧
        0 < participants ∧ participants.toNat = pubkeyCount ∧
        threshold ≤ participants then
      .ok (some (threshold, participants))
    else
      .ok none

/-- The struct that is allocated for what was found. -/
def makeInfo (alloc : Allocator) (found : Option (UInt8 × UInt8)) :
    Option (AccountExtra curve) :=
  match found with
  | none => none
  | some (threshold, participants) =>
      -- Without memory for it, the account is an ordinary one.
      if alloc.neocGrants infoSize then
        some
          (.multisigInfo
            { threshold := Int32.ofNat threshold.toNat
              nrParticipants := Int32.ofNat participants.toNat
              isAddressOnly := true })
      else
        none

/-- `neoc_account_create_from_verification_script`. -/
def createFromVerificationScript (host : Host) (alloc : Allocator)
    (script : Buffer) : Outcome (WalletAccount curve) :=
  match script with
  | .null _ => .error (.error .invalidArgument "Invalid arguments")
  | .items script =>
      if script.length = 0 then
        .error (.error .invalidArgument "Invalid arguments")
      else if alloc.neocGrants structSize = false then
        .error (.error .outOfMemory "Failed to allocate account")
      else do
        let scriptHash ← Hash160.fromScript host script
        if alloc.neocGrants script.length = false then
          .error
            (.error .outOfMemory "Failed to cache verification script")
        else
          let address ← makeAddress host alloc scriptHash
          let found ← analyzeScript host script
          let label ← makeLabel alloc address
          .ok
            { scriptHash
              keyPair := none
              label := some label
              address := some address
              isLocked := false
              isDefault := false
              encryptedKey := .null 0
              verificationScript := .items script
              extra := makeInfo alloc found }

end WalletAccount

end NeoC
