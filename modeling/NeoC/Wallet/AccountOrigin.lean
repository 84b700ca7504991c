import NeoC.Crypto.Nep2
import NeoC.Crypto.Wif
import NeoC.Wallet.Identity

/-!
# Where accounts come from

Nine constructors make an account.  Each of them fills in its own part of the
members and derives the others: an account with a key or a script gets its
hash from the script and its address from the hash, and one with an address
gets its hash from the address.  `Fresh` states what all of them leave.
-/

namespace NeoC

open Foundation NeoVm

namespace EcKeyPair

variable {curve : Curve} (derivation : KeyDerivation curve) (host : Host)
  (alloc : Allocator)

/-- `neoc_ec_key_pair_create_random`, given what `RAND_bytes` wrote. -/
def createRandom (random : Option (Bytes 32)) :
    Outcome (EcKeyPair curve) :=
  match random with
  | none =>
      .error
        (.error .crypto "Failed to generate random bytes from OpenSSL")
  | some privateKey => createFromPrivateKey derivation alloc privateKey

/-- `neoc_ec_key_pair_import_from_wif`. -/
def importFromWif (wif : CString) : Outcome (EcKeyPair curve) := do
  let privateKey ← Wif.toPrivateKey host alloc wif
  createFromPrivateKey derivation alloc privateKey

/-- `neoc_ec_key_pair_export_as_wif`. -/
def exportAsWif (keyPair : EcKeyPair curve) : Outcome CString :=
  Wif.ofPrivateKey host alloc (derivation.privateBytes keyPair.privateKey)

/-- Every function that makes a key pair makes it of 32 bytes. -/
def Derived (keyPair : EcKeyPair curve) : Prop :=
  ∃ alloc privateKeyBytes,
    createFromPrivateKey derivation alloc privateKeyBytes = .ok keyPair

end EcKeyPair

namespace WalletAccount

variable {curve : Curve}

/-! ## The constructors -/

section Constructors

variable (derivation : KeyDerivation curve) (cipher : Cipher) (host : Host)
  (alloc : Allocator)

/-- The steps of a constructor behind its key pair. -/
def ofKeyPair (label : Option CString) (keyPair : EcKeyPair curve) :
    Outcome (WalletAccount curve) := do
  let verificationScript ←
    ScriptHelper.createSingleSigVerification host alloc
      keyPair.getPublicKey.val
  let scriptHash ← Hash160.fromScript host verificationScript
  let address ← makeAddress host alloc scriptHash
  let label ← makeLabel alloc (label.getD address)
  .ok
    { scriptHash
      keyPair := some keyPair
      label := some label
      address := some address
      isLocked := false
      isDefault := false
      encryptedKey := .null 0
      verificationScript := .items verificationScript
      extra := none }

/-- `neoc_account_create_with_label`. -/
def createWithLabel (random : Option (Bytes 32)) (label : Option CString) :
    Outcome (WalletAccount curve) :=
  if alloc.neocGrants structSize = false then
    .error (.error .outOfMemory "Failed to allocate account")
  else do
    let keyPair ← EcKeyPair.createRandom derivation alloc random
    ofKeyPair host alloc label keyPair

/-- `neoc_account_create_random`. -/
def createRandom (random : Option (Bytes 32)) :
    Outcome (WalletAccount curve) :=
  createWithLabel derivation host alloc random none

/-- `neoc_account_create_from_wif_with_label`. -/
def createFromWifWithLabel (label : Option CString) (wif : CString) :
    Outcome (WalletAccount curve) := do
  let keyPair ← EcKeyPair.importFromWif derivation host alloc wif
  createFromKeyPairWithLabel derivation host alloc label keyPair

/-- `neoc_account_create_from_nep2_with_label`. -/
def createFromNep2WithLabel (label : Option CString)
    (encryptedKey passphrase : CString) : Outcome (WalletAccount curve) := do
  let privateKey ←
    Nep2.decrypt derivation cipher host alloc encryptedKey passphrase none
  let keyPair ← EcKeyPair.createFromPrivateKey derivation alloc privateKey
  createFromKeyPairWithLabel derivation host alloc label keyPair

/-- `neoc_account_create_from_public_key`. -/
def createFromPublicKey (publicKey : EcPublicKey curve) :
    Outcome (WalletAccount curve) :=
  if alloc.neocGrants structSize = false then
    .error (.error .outOfMemory "Failed to allocate account")
  else do
    let pubkeyBytes ← publicKey.getEncoded alloc true
    let verificationScript ←
      ScriptHelper.createSingleSigVerification host alloc pubkeyBytes
    let scriptHash ← Hash160.fromScript host verificationScript
    let address ← makeAddress host alloc scriptHash
    let label ← makeLabel alloc address
    .ok
      { scriptHash
        keyPair := none
        label := some label
        address := some address
        isLocked := false
        isDefault := false
        encryptedKey := .null 0
        verificationScript := .items verificationScript
        extra := none }

/-- The copy of an address that was given. -/
def copyAddress (address : CString) : Outcome CString :=
  match strdup alloc address with
  | none => .error (.error .outOfMemory "Failed to allocate address")
  | some copy => .ok copy

/-- `neoc_account_create_from_address`. -/
def createFromAddress (address : CString) : Outcome (WalletAccount curve) :=
  if alloc.neocGrants structSize = false then
    .error (.error .outOfMemory "Failed to allocate account")
  else do
    let copy ← copyAddress alloc address
    let scriptHash ← Hash160.fromAddress host alloc address
    let label ← makeLabel alloc address
    .ok
      { scriptHash
        keyPair := none
        label := some label
        address := some copy
        isLocked := false
        isDefault := false
        encryptedKey := .null 0
        verificationScript := .null 0
        extra := none }

/-- `neoc_account_create_multisig_with_address`. -/
def createMultisigWithAddress (address : CString)
    (threshold nrParticipants : Int32) : Outcome (WalletAccount curve) :=
  if threshold ≤ 0 ∨ nrParticipants ≤ 0 then
    .error (.error .invalidArgument "Invalid arguments")
  else if nrParticipants < threshold then
    .error
      (.error .invalidArgument
        "Threshold cannot exceed number of participants")
  else if alloc.neocGrants structSize = false then
    .error (.error .outOfMemory "Failed to allocate account")
  else do
    let copy ← copyAddress alloc address
    let scriptHash ← Hash160.fromAddress host alloc address
    if alloc.neocGrants infoSize = false then
      .error (.error .outOfMemory "Failed to allocate multi-sig info")
    else
      let label ← makeLabel alloc address
      .ok
        { scriptHash
          keyPair := none
          label := some label
          address := some copy
          isLocked := false
          isDefault := false
          encryptedKey := .null 0
          verificationScript := .null 0
          extra :=
            some
              (.multisigInfo
                { threshold, nrParticipants, isAddressOnly := true }) }

end Constructors

end WalletAccount

/-- The constructors with their arguments. -/
inductive AccountOrigin (curve : Curve) where
  | withLabel (random : Option (Bytes 32)) (label : Option CString)
  | fromKeyPair (label : Option CString) (keyPair : EcKeyPair curve)
  | fromWif (label : Option CString) (wif : CString)
  | fromNep2 (label : Option CString) (encryptedKey passphrase : CString)
  | fromPublicKey (publicKey : EcPublicKey curve)
  | fromAddress (address : CString)
  | fromVerificationScript (script : Buffer)
  | multisigFromPublicKeys (publicKeys : Slice (Option (EcPublicKey curve)))
      (threshold : Int32)
  | multisigWithAddress (address : CString)
      (threshold nrParticipants : Int32)

/-- The call of a constructor. -/
def AccountOrigin.construct {curve : Curve}
    (derivation : KeyDerivation curve) (cipher : Cipher) (host : Host)
    (alloc : Allocator) :
    AccountOrigin curve → Outcome (WalletAccount curve)
  | .withLabel random label =>
      WalletAccount.createWithLabel derivation host alloc random label
  | .fromKeyPair label keyPair =>
      WalletAccount.createFromKeyPairWithLabel derivation host alloc label
        keyPair
  | .fromWif label wif =>
      WalletAccount.createFromWifWithLabel derivation host alloc label wif
  | .fromNep2 label encryptedKey passphrase =>
      WalletAccount.createFromNep2WithLabel derivation cipher host alloc
        label encryptedKey passphrase
  | .fromPublicKey publicKey =>
      WalletAccount.createFromPublicKey host alloc publicKey
  | .fromAddress address => WalletAccount.createFromAddress host alloc address
  | .fromVerificationScript script =>
      WalletAccount.createFromVerificationScript host alloc script
  | .multisigFromPublicKeys publicKeys threshold =>
      WalletAccount.createMultisigFromPublicKeys host alloc publicKeys
        threshold
  | .multisigWithAddress address threshold nrParticipants =>
      WalletAccount.createMultisigWithAddress host alloc address threshold
        nrParticipants

/-! ## What the constructors leave -/

/-- The script hash of the script that asks for one key's signature. -/
def EcKeyPair.ownHash {curve : Curve} (host : Host)
    (keyPair : EcKeyPair curve) : Outcome Hash160 :=
  Hash160.fromScript host
    (ScriptHelper.singleSigScript host keyPair.publicKey.compressed.val)

namespace WalletAccount

variable {curve : Curve}

/-- An account as its constructor leaves it. -/
structure Fresh (derivation : KeyDerivation curve) (host : Host)
    (account : WalletAccount curve) : Prop where
  initialized : host.cryptoInitialized = true
  address : account.address = some (account.scriptHash.addressText host)
  label : ∃ label, account.label = some label
  isLocked : account.isLocked = false
  isDefault : account.isDefault = false
  encryptedKey : account.encryptedKey = .null 0
  cached :
    ∀ script,
      account.verificationScript = .items script →
        script ≠ [] ∧
          Hash160.fromScript host script = .ok account.scriptHash
  /-- The script of a key is cached. -/
  stored :
    account.keyPair = none ∨
      ∃ script, account.verificationScript = .items script
  derived :
    ∀ keyPair, account.keyPair = some keyPair → keyPair.Derived derivation
  owned :
    ∀ keyPair,
      account.keyPair = some keyPair →
        keyPair.ownHash host = .ok account.scriptHash
  multisig :
    ∀ multisig,
      account.extra = some (.multisig multisig) →
        multisig.verificationScript ≠ [] ∧
          Hash160.fromScript host multisig.verificationScript =
            .ok account.scriptHash

section

variable {derivation : KeyDerivation curve} {cipher : Cipher} {host : Host}
  {alloc : Allocator}

theorem makeAddress_text {scriptHash : Hash160} {address : CString}
    (made : makeAddress host alloc scriptHash = .ok address) :
    address = scriptHash.addressText host ∧
      host.cryptoInitialized = true :=
  Hash160.toAddress_text (makeAddress_eq_ok made)

theorem strdup_eq_some {text copy : CString}
    (copied : strdup alloc text = some copy) :
    copy = text := by
  rw [strdup] at copied
  split at copied
  · injection copied with same
    exact same.symm
  · cases copied

theorem makeLabel_eq_ok {text label : CString}
    (made : makeLabel alloc text = .ok label) :
    label = text := by
  rw [makeLabel] at made
  split at made
  · cases made
  · rename_i copy copied
    injection made with same
    rw [← same, strdup_eq_some copied]

theorem copyAddress_eq_ok {address copy : CString}
    (copied : copyAddress alloc address = .ok copy) :
    copy = address := by
  rw [copyAddress] at copied
  split at copied
  · cases copied
  · rename_i text made
    injection copied with same
    rw [← same, strdup_eq_some made]

theorem createSingleSigVerification_hash {script : List UInt8}
    {keyPair : EcKeyPair curve} {scriptHash : Hash160}
    (built :
      ScriptHelper.createSingleSigVerification host alloc
          keyPair.getPublicKey.val =
        .ok script)
    (hashed : Hash160.fromScript host script = .ok scriptHash) :
    keyPair.ownHash host = .ok scriptHash := by
  rw [ScriptHelper.createSingleSigVerification_eq_ok built] at hashed
  exact hashed

theorem singleSigScript_ne_nil {publicKey script : List UInt8}
    (built :
      ScriptHelper.createSingleSigVerification host alloc publicKey =
        .ok script) :
    script ≠ [] := by
  rw [ScriptHelper.createSingleSigVerification_eq_ok built]
  exact List.cons_ne_nil _ _

theorem ofKeyPair_fresh {label : Option CString}
    {keyPair : EcKeyPair curve} {account : WalletAccount curve}
    (derived : keyPair.Derived derivation)
    (made : ofKeyPair host alloc label keyPair = .ok account) :
    Fresh derivation host account := by
  rcases Except.bind_eq_ok_iff.mp made with ⟨script, built, rest⟩
  rcases Except.bind_eq_ok_iff.mp rest with ⟨scriptHash, hashed, rest⟩
  rcases Except.bind_eq_ok_iff.mp rest with ⟨address, addressed, rest⟩
  rcases Except.bind_eq_ok_iff.mp rest with ⟨text, -, rest⟩
  rcases makeAddress_text addressed with ⟨rfl, initialized⟩
  injection rest with same
  subst same
  have own := createSingleSigVerification_hash built hashed
  refine
    { initialized, address := rfl, label := ⟨text, rfl⟩, isLocked := rfl,
      isDefault := rfl, encryptedKey := rfl, cached := ?_,
      stored := .inr ⟨script, rfl⟩, derived := ?_, owned := ?_,
      multisig := nofun }
  · rintro script' ⟨⟩
    exact ⟨singleSigScript_ne_nil built, hashed⟩
  · rintro keyPair' ⟨⟩
    exact derived
  · rintro keyPair' ⟨⟩
    exact own

/-- The constructor for a key pair copies the pair and goes on. -/
theorem createFromKeyPairWithLabel_fresh {label : Option CString}
    {keyPair : EcKeyPair curve} {account : WalletAccount curve}
    (made :
      createFromKeyPairWithLabel derivation host alloc label keyPair =
        .ok account) :
    Fresh derivation host account := by
  rw [createFromKeyPairWithLabel] at made
  split at made
  · cases made
  rcases Except.bind_eq_ok_iff.mp made with ⟨copy, copied, rest⟩
  exact ofKeyPair_fresh ⟨alloc, _, copied⟩ rest

theorem createWithLabel_fresh {random : Option (Bytes 32)}
    {label : Option CString} {account : WalletAccount curve}
    (made :
      createWithLabel derivation host alloc random label = .ok account) :
    Fresh derivation host account := by
  rw [createWithLabel] at made
  split at made
  · cases made
  rcases Except.bind_eq_ok_iff.mp made with ⟨keyPair, drawn, rest⟩
  cases random with
  | none => cases drawn
  | some privateKey => exact ofKeyPair_fresh ⟨alloc, _, drawn⟩ rest

theorem createFromPublicKey_fresh {publicKey : EcPublicKey curve}
    {account : WalletAccount curve}
    (made : createFromPublicKey host alloc publicKey = .ok account) :
    Fresh derivation host account := by
  rw [createFromPublicKey] at made
  split at made
  · cases made
  rcases Except.bind_eq_ok_iff.mp made with ⟨encoded, -, rest⟩
  rcases Except.bind_eq_ok_iff.mp rest with ⟨script, built, rest⟩
  rcases Except.bind_eq_ok_iff.mp rest with ⟨scriptHash, hashed, rest⟩
  rcases Except.bind_eq_ok_iff.mp rest with ⟨address, addressed, rest⟩
  rcases Except.bind_eq_ok_iff.mp rest with ⟨text, -, rest⟩
  rcases makeAddress_text addressed with ⟨rfl, initialized⟩
  injection rest with same
  subst same
  refine
    { initialized, address := rfl, label := ⟨text, rfl⟩, isLocked := rfl,
      isDefault := rfl, encryptedKey := rfl, cached := ?_,
      stored := .inl rfl, derived := nofun, owned := nofun,
      multisig := nofun }
  rintro script' ⟨⟩
  exact ⟨singleSigScript_ne_nil built, hashed⟩

theorem createFromAddress_fresh {address : CString}
    {account : WalletAccount curve}
    (made : createFromAddress host alloc address = .ok account) :
    Fresh derivation host account ∧ account.extra = none ∧
      account.keyPair = none ∧ account.address = some address ∧
      account.verificationScript = .null 0 := by
  rw [createFromAddress] at made
  split at made
  · cases made
  rcases Except.bind_eq_ok_iff.mp made with ⟨copy, copied, rest⟩
  rcases Except.bind_eq_ok_iff.mp rest with ⟨scriptHash, parsed, rest⟩
  rcases Except.bind_eq_ok_iff.mp rest with ⟨text, -, rest⟩
  injection rest with same
  subst same
  have sameText := copyAddress_eq_ok copied
  rcases Hash160.fromAddress_eq_ok parsed with ⟨shape, initialized⟩
  refine ⟨?_, rfl, rfl, congrArg some sameText, rfl⟩
  exact
    { initialized, address := congrArg some (sameText.trans shape),
      label := ⟨text, rfl⟩, isLocked := rfl, isDefault := rfl,
      encryptedKey := rfl, cached := nofun, stored := .inl rfl,
      derived := nofun, owned := nofun, multisig := nofun }

theorem createMultisigWithAddress_fresh {address : CString}
    {threshold nrParticipants : Int32} {account : WalletAccount curve}
    (made :
      createMultisigWithAddress host alloc address threshold
          nrParticipants =
        .ok account) :
    Fresh derivation host account := by
  rw [createMultisigWithAddress] at made
  split at made
  · cases made
  split at made
  · cases made
  split at made
  · cases made
  rcases Except.bind_eq_ok_iff.mp made with ⟨copy, copied, rest⟩
  rcases Except.bind_eq_ok_iff.mp rest with ⟨scriptHash, parsed, rest⟩
  split at rest
  · cases rest
  rcases Except.bind_eq_ok_iff.mp rest with ⟨text, -, rest⟩
  injection rest with same
  subst same
  have sameText := copyAddress_eq_ok copied
  rcases Hash160.fromAddress_eq_ok parsed with ⟨shape, initialized⟩
  exact
    { initialized, address := congrArg some (sameText.trans shape),
      label := ⟨text, rfl⟩, isLocked := rfl, isDefault := rfl,
      encryptedKey := rfl, cached := nofun, stored := .inl rfl,
      derived := nofun, owned := nofun, multisig := nofun }

theorem createFromVerificationScript_fresh {script : Buffer}
    {account : WalletAccount curve}
    (made : createFromVerificationScript host alloc script = .ok account) :
    Fresh derivation host account := by
  cases script with
  | null count => cases made
  | items script =>
      rw [createFromVerificationScript] at made
      split at made
      · cases made
      rename_i filled
      split at made
      · cases made
      rcases Except.bind_eq_ok_iff.mp made with ⟨scriptHash, hashed, rest⟩
      split at rest
      · cases rest
      rcases Except.bind_eq_ok_iff.mp rest with ⟨address, addressed, rest⟩
      rcases Except.bind_eq_ok_iff.mp rest with ⟨found, -, rest⟩
      rcases Except.bind_eq_ok_iff.mp rest with ⟨text, -, rest⟩
      rcases makeAddress_text addressed with ⟨rfl, initialized⟩
      injection rest with same
      subst same
      refine
        { initialized, address := rfl, label := ⟨text, rfl⟩,
          isLocked := rfl, isDefault := rfl, encryptedKey := rfl,
          cached := ?_, stored := .inl rfl, derived := nofun,
          owned := nofun, multisig := ?_ }
      · rintro script' ⟨⟩
        refine ⟨?_, hashed⟩
        rintro rfl
        exact filled rfl
      · intro multisig stored
        change makeInfo alloc found = _ at stored
        unfold makeInfo at stored
        split at stored
        · cases stored
        split at stored
        · cases stored
        · cases stored

theorem createMultisigFromPublicKeys_fresh
    {publicKeys : Slice (Option (EcPublicKey curve))} {threshold : Int32}
    {account : WalletAccount curve}
    (made :
      createMultisigFromPublicKeys host alloc publicKeys threshold =
        .ok account) :
    Fresh derivation host account := by
  cases publicKeys with
  | null count => cases made
  | items keys =>
      rw [createMultisigFromPublicKeys] at made
      split at made
      · cases made
      split at made
      · cases made
      split at made
      · cases made
      rcases Except.bind_eq_ok_iff.mp made with ⟨multisig, created, rest⟩
      split at rest
      · cases rest
      rcases Except.bind_eq_ok_iff.mp rest with ⟨address, addressed, rest⟩
      rcases Except.bind_eq_ok_iff.mp rest with ⟨text, -, rest⟩
      rcases makeAddress_text addressed with ⟨rfl, initialized⟩
      injection rest with same
      subst same
      refine
        { initialized, address := rfl, label := ⟨text, rfl⟩,
          isLocked := rfl, isDefault := rfl, encryptedKey := rfl,
          cached := nofun, stored := .inl rfl, derived := nofun,
          owned := nofun, multisig := ?_ }
      rintro multisig' ⟨⟩
      exact MultiSig.create_hashed created

end

end WalletAccount

/-- Every constructor leaves such an account. -/
theorem AccountOrigin.construct_fresh {curve : Curve}
    {derivation : KeyDerivation curve} {cipher : Cipher} {host : Host}
    {alloc : Allocator} {origin : AccountOrigin curve}
    {account : WalletAccount curve}
    (made : origin.construct derivation cipher host alloc = .ok account) :
    account.Fresh derivation host := by
  cases origin with
  | withLabel random label =>
      exact WalletAccount.createWithLabel_fresh made
  | fromKeyPair label keyPair =>
      exact WalletAccount.createFromKeyPairWithLabel_fresh made
  | fromWif label wif =>
      rcases Except.bind_eq_ok_iff.mp made with ⟨keyPair, -, rest⟩
      exact WalletAccount.createFromKeyPairWithLabel_fresh rest
  | fromNep2 label encryptedKey passphrase =>
      rcases Except.bind_eq_ok_iff.mp made with ⟨privateKey, -, rest⟩
      rcases Except.bind_eq_ok_iff.mp rest with ⟨keyPair, -, rest⟩
      exact WalletAccount.createFromKeyPairWithLabel_fresh rest
  | fromPublicKey publicKey =>
      exact WalletAccount.createFromPublicKey_fresh made
  | fromAddress address =>
      exact (WalletAccount.createFromAddress_fresh made).1
  | fromVerificationScript script =>
      exact WalletAccount.createFromVerificationScript_fresh made
  | multisigFromPublicKeys publicKeys threshold =>
      exact WalletAccount.createMultisigFromPublicKeys_fresh made
  | multisigWithAddress address threshold nrParticipants =>
      exact WalletAccount.createMultisigWithAddress_fresh made

end NeoC
