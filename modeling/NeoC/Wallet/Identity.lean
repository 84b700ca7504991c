import NeoC.Transaction.Sign
import NeoC.Wallet.Account

/-!
# One key, one identity

The digest of a verification script is stored reversed in a
`neoc_hash160_t`, except by the key pair, which stores it as it is.  Signers
and serialized hashes are written as they are stored, while pushes and
addresses reverse them again.  So the ways to the identity of a key, and the
ways to put a script hash on the wire, agree only for digests that read the
same in both directions.
-/

namespace NeoC

open Foundation NeoVm

/-! ## The identity of a key pair -/

section Derivations

variable {curve : Curve} {derivation : KeyDerivation curve} {host : Host}
  {alloc : Allocator} {keyPair : EcKeyPair curve}

/-- Making a key pair from the private bytes of a key pair copies it. -/
theorem EcKeyPair.createFromPrivateKey_again {alloc' : Allocator}
    {privateKeyBytes : Bytes 32} {copy : EcKeyPair curve}
    (created :
      createFromPrivateKey derivation alloc privateKeyBytes = .ok keyPair)
    (again :
      createFromPrivateKey derivation alloc'
          (derivation.privateBytes keyPair.privateKey) =
        .ok copy) :
    copy.publicKey = keyPair.publicKey := by
  rcases createFromPrivateKey_eq_ok created with ⟨point, derived, shape⟩
  rw [derivation.privateBytes_derive _ _ _ derived] at again
  rcases createFromPrivateKey_eq_ok again with ⟨point', derived', shape'⟩
  rw [derived] at derived'
  injection derived' with same
  injection same with _ samePoint
  injection samePoint with equal
  rw [shape', shape, equal]

theorem buildVerificationScript_eq_ok {publicKey script : List UInt8}
    (built :
      ScriptBuilder.buildVerificationScript host alloc publicKey =
        .ok script) :
    script = ScriptHelper.singleSigScript host publicKey := by
  rw [ScriptBuilder.buildVerificationScript] at built
  split at built
  · cases built
  split at built
  · cases built
  · injection built with same
    exact same.symm

/-- The key pair stores the digest as it is. -/
theorem EcKeyPair.getScriptHash_eq_ok {hash : Hash160}
    (hashed : keyPair.getScriptHash host alloc = .ok hash) :
    hash =
      host.scriptDigest
        (ScriptHelper.singleSigScript host
          keyPair.publicKey.compressed.val) := by
  rcases Except.bind_eq_ok_iff.mp hashed with ⟨script, built, digested⟩
  rw [Host.hash160_eq_ok digested, buildVerificationScript_eq_ok built]

theorem Hash160.fromPublicKey_eq_ok {publicKeyData : Bytes 33}
    {hash : Hash160}
    (hashed : fromPublicKey host alloc publicKeyData = .ok hash) :
    hash =
      (host.scriptDigest
        (ScriptHelper.singleSigScript host publicKeyData.val)).reverse := by
  rcases Except.bind_eq_ok_iff.mp hashed with ⟨script, built, digested⟩
  rw [fromScript_eq_ok digested,
    ScriptHelper.createSingleSigVerification_eq_ok built]

theorem WalletAccount.makeAddress_eq_ok {scriptHash : Hash160}
    {address : CString}
    (made : makeAddress host alloc scriptHash = .ok address) :
    Hash160.toAddress host alloc scriptHash addressLength =
      .ok address := by
  rw [makeAddress] at made
  split at made
  · cases made
  · exact made

/-- The account has the script hash of the key pair it was made from. -/
theorem WalletAccount.createFromKeyPairWithLabel_eq_ok {alloc' : Allocator}
    {privateKeyBytes : Bytes 32} {label : Option CString}
    {account : WalletAccount curve}
    (created :
      EcKeyPair.createFromPrivateKey derivation alloc privateKeyBytes =
        .ok keyPair)
    (made :
      createFromKeyPairWithLabel derivation host alloc' label keyPair =
        .ok account) :
    account.scriptHash =
        (host.scriptDigest
          (ScriptHelper.singleSigScript host
            keyPair.publicKey.compressed.val)).reverse ∧
      ∃ address,
        account.address = some address ∧
          Hash160.toAddress host alloc' account.scriptHash addressLength =
            .ok address := by
  rw [createFromKeyPairWithLabel] at made
  split at made
  · cases made
  rcases Except.bind_eq_ok_iff.mp made with ⟨copy, again, rest⟩
  rcases Except.bind_eq_ok_iff.mp rest with ⟨script, built, rest⟩
  rcases Except.bind_eq_ok_iff.mp rest with ⟨scriptHash, hashed, rest⟩
  rcases Except.bind_eq_ok_iff.mp rest with ⟨address, addressed, rest⟩
  rcases Except.bind_eq_ok_iff.mp rest with ⟨text, -, rest⟩
  injection rest with same
  subst same
  refine ⟨?_, address, rfl, makeAddress_eq_ok addressed⟩
  rw [Hash160.fromScript_eq_ok hashed,
    ScriptHelper.createSingleSigVerification_eq_ok built,
    EcKeyPair.getPublicKey,
    EcKeyPair.createFromPrivateKey_again created again]

theorem VerificationScript.createSingleSig_eq_ok
    {publicKey : EcPublicKey curve}
    {verificationScript : VerificationScript}
    (made : createSingleSig host alloc publicKey = .ok verificationScript) :
    verificationScript.script =
      .items
        (ScriptHelper.singleSigScript host publicKey.compressed.val) := by
  rcases Except.bind_eq_ok_iff.mp made with ⟨encoded, key, rest⟩
  rcases Except.bind_eq_ok_iff.mp rest with ⟨script, built, allocated⟩
  have bytes := buildVerificationScript_eq_ok built
  rw [EcPublicKey.getEncoded] at key
  simp only [if_true] at key
  split at key
  · injection key with same
    subst same bytes
    rw [allocate] at allocated
    split at allocated
    · cases allocated
    rw [if_neg (by simp [ScriptHelper.singleSigScript])] at allocated
    split at allocated
    · cases allocated
    · injection allocated with same
      rw [← same]
  · cases key

theorem EcKeyPair.getAddress_eq_ok {address : CString}
    (addressed : keyPair.getAddress host alloc = .ok address) :
    ∃ hash,
      keyPair.getScriptHash host alloc = .ok hash ∧
        Hash160.toAddress host alloc hash 58 = .ok address := by
  rcases Except.bind_eq_ok_iff.mp addressed with ⟨hash, hashed, rest⟩
  rcases Except.bind_eq_ok_iff.mp rest with ⟨text, written, rest⟩
  split at rest
  · cases rest
  · injection rest with same
    exact ⟨hash, hashed, same ▸ written⟩

/--
The identities that the modules derive from a key pair are the same exactly
when the digest of its verification script is a palindrome.
-/
theorem singleSig_identities_agree_iff
    {alloc₁ alloc₂ alloc₃ alloc₄ alloc₅ alloc₆ : Allocator}
    {privateKeyBytes : Bytes 32}
    {keyHash publicHash scriptHash : Hash160}
    {label : Option CString}
    {account : WalletAccount curve}
    {verificationScript : VerificationScript}
    {keyAddress address : CString}
    {bufferSize : Nat}
    (created :
      EcKeyPair.createFromPrivateKey derivation alloc privateKeyBytes =
        .ok keyPair)
    (byKeyPair : keyPair.getScriptHash host alloc₁ = .ok keyHash)
    (byPublicKey :
      Hash160.fromPublicKey host alloc₂ keyPair.publicKey.compressed =
        .ok publicHash)
    (byAccount :
      WalletAccount.createFromKeyPairWithLabel derivation host alloc₃ label
          keyPair =
        .ok account)
    (byScript :
      VerificationScript.createSingleSig host alloc₄ keyPair.publicKey =
        .ok verificationScript)
    (scriptHashed :
      Hash160.fromScript host verificationScript.script.content =
        .ok scriptHash)
    (keyAddressed : keyPair.getAddress host alloc₅ = .ok keyAddress)
    (addressed :
      Hash160.toAddress host alloc₆ publicHash bufferSize =
        .ok address) :
    (keyHash = publicHash ∧
        account.scriptHash = publicHash ∧
        scriptHash = publicHash ∧
        keyAddress = address ∧
        account.address = some address) ↔
      (host.scriptDigest
          (ScriptHelper.singleSigScript host
            keyPair.publicKey.compressed.val)).reverse =
        host.scriptDigest
          (ScriptHelper.singleSigScript host
            keyPair.publicKey.compressed.val) := by
  have key := EcKeyPair.getScriptHash_eq_ok byKeyPair
  have byKey := Hash160.fromPublicKey_eq_ok byPublicKey
  rw [VerificationScript.createSingleSig_eq_ok byScript] at scriptHashed
  have script := Hash160.fromScript_eq_ok scriptHashed
  rcases WalletAccount.createFromKeyPairWithLabel_eq_ok created byAccount with
    ⟨stored, text, holds, written⟩
  rcases EcKeyPair.getAddress_eq_ok keyAddressed with
    ⟨hash, hashed, converted⟩
  have sameHash := EcKeyPair.getScriptHash_eq_ok hashed
  constructor
  · rintro ⟨equal, -⟩
    rw [← byKey, ← key, equal]
  · intro palindrome
    rw [stored, ← byKey] at written
    rw [sameHash, ← palindrome, ← byKey] at converted
    refine ⟨?_, ?_, ?_, ?_, ?_⟩
    · rw [key, byKey, palindrome]
    · rw [stored, byKey]
    · rw [script, byKey]
      rfl
    · exact Hash160.toAddress_unique converted addressed
    · rw [holds, Hash160.toAddress_unique written addressed]

end Derivations

/-! ## The base point -/

open Transaction (baseCurve baseKeyPair baseScript baseScriptHash baseHost)

/-- SHA-256, once and twice, of the two addresses of the base point. -/
def basePointAddressDigests : List (List UInt8 × Bytes 32) :=
  Host.twiceDigests (0x35 :: baseScriptHash.val)
    0x41DC95C404B2B0DB55DE0DBFDCDA5078E59AF8C346C21ED47F5EBBD113AE1B70
    0x9A75D380FDF85125666ECE5A20D374AF37CBD22BB3D23071435EF375149A9ABC ++
  Host.twiceDigests (0x35 :: baseScriptHash.val.reverse)
    0x8391BB46BFD040039A68E1E66C603D8B33605FC9B88AECB5426643CB8F44CDA6
    0xB61422A1FEFDFB20C606A1DC9925B567FA4A0118FCD9A68ECDE958F28C6BC3B7

/-- A host that also knows these digests. -/
def addressHost : Host :=
  { baseHost with
    sha256Digest := fun data =>
      (basePointAddressDigests.lookup data).getD
        (baseHost.sha256Digest data) }

/-- The bytes of the private key one. -/
def privateKeyOne : Bytes 32 :=
  ⟨List.replicate 31 0 ++ [1], rfl⟩

/-- The private key one belongs to the base point. -/
def baseDerivation : KeyDerivation baseCurve where
  derive bytes :=
    if bytes = privateKeyOne then
      .ok ((), some ())
    else
      .error "Failed to set private key"
  privateBytes _ := privateKeyOne
  privateBytes_derive := by
    intro bytes key point derived
    split at derived
    · rename_i same
      exact same.symm
    · cases derived

theorem exists_of_toBool {α : Type} {outcome : Outcome α}
    (succeeded : outcome.toBool = true) :
    ∃ value, outcome = .ok value := by
  cases outcome with
  | error reason => cases succeeded
  | ok value => exact ⟨value, rfl⟩

/-- The key pair and the hash type name different accounts. -/
theorem basePoint_two_identities :
    baseKeyPair.getScriptHash addressHost .ample =
        .ok baseScriptHash ∧
      Hash160.fromPublicKey addressHost .ample
          baseKeyPair.publicKey.compressed =
        .ok baseScriptHash.reverse ∧
      baseScriptHash ≠ baseScriptHash.reverse := by
  refine ⟨?_, ?_, ?_⟩
  · decide
  · decide +kernel
  · decide

theorem singleSig_identities_agree_iff_basePoint :
    ∃ account verificationScript keyAddress address,
      WalletAccount.createFromKeyPairWithLabel
            baseDerivation addressHost
            .ample none baseKeyPair =
          .ok account ∧
        VerificationScript.createSingleSig addressHost .ample
            baseKeyPair.publicKey =
          .ok verificationScript ∧
        baseKeyPair.getAddress addressHost .ample =
          .ok keyAddress ∧
        Hash160.toAddress addressHost .ample
            baseScriptHash.reverse 64 =
          .ok address ∧
        ¬(baseScriptHash = baseScriptHash.reverse ∧
          account.scriptHash = baseScriptHash.reverse ∧
          baseScriptHash.reverse = baseScriptHash.reverse ∧
          keyAddress = address ∧
          account.address = some address) := by
  have accountMade :
      (WalletAccount.createFromKeyPairWithLabel
        baseDerivation addressHost
        .ample none baseKeyPair).toBool = true := by
    decide +kernel
  have scriptMade :
      VerificationScript.createSingleSig addressHost .ample
          baseKeyPair.publicKey =
        .ok { script := .items baseScript } := by
    decide
  have keyAddressMade :
      (baseKeyPair.getAddress addressHost
        .ample).toBool = true := by
    decide
  have addressMade :
      (Hash160.toAddress addressHost .ample
        baseScriptHash.reverse 64).toBool = true := by
    decide
  rcases exists_of_toBool accountMade with ⟨account, byAccount⟩
  rcases exists_of_toBool keyAddressMade with ⟨keyAddress, keyAddressed⟩
  rcases exists_of_toBool addressMade with ⟨address, addressed⟩
  have agree :=
    @singleSig_identities_agree_iff baseCurve
      baseDerivation addressHost .ample
      baseKeyPair .ample .ample .ample
      .ample .ample .ample privateKeyOne
      baseScriptHash baseScriptHash.reverse baseScriptHash.reverse none
      account { script := .items baseScript } keyAddress address 64
      rfl (by decide +kernel) (by decide +kernel) byAccount scriptMade
      (by decide) keyAddressed addressed
  refine
    ⟨account, _, keyAddress, address, byAccount, scriptMade, keyAddressed,
      addressed, ?_⟩
  rw [agree]
  decide

/-! ## The wire order of a script hash -/

/-- `neoc_hash160_serialize`. -/
def Hash160.serialize (alloc : Allocator) (hash : Hash160) :
    Routine BinaryWriter Unit :=
  BinaryWriter.writeBytes alloc (.items hash.val)

/-- Every emitter puts a hash on the wire as these 20 bytes. -/
structure WireOrder (host : Host) (hash : Hash160) (digest : Bytes 20) :
    Prop where
  signer :
    ∀ alloc (signer : Signer),
      signer.account = hash →
        ∃ rest,
          BinaryWriter.Appends (signer.serialize alloc) (digest.val ++ rest)
  pushed :
    ∀ alloc,
      BinaryWriter.Appends (ScriptBuilder.pushHash160 alloc hash)
        (Opcode.pushData1 :: 20 :: digest.val)
  address :
    ∀ alloc alloc' bufferSize address,
      hash.toAddress host alloc bufferSize = .ok address →
        alloc'.Serves (address.strlen + 1) →
          Base58.checkDecodeAlloc host alloc' address =
            some (Hash160.addressVersion :: digest.val)
  serialized :
    ∀ alloc, BinaryWriter.Appends (hash.serialize alloc) digest.val

/-- A call that succeeds somewhere appends only one list of bytes. -/
theorem BinaryWriter.Appends.unique {call : Routine BinaryWriter Unit}
    {bytes bytes' : List UInt8} {writer written : BinaryWriter}
    (appends : Appends call bytes) (appends' : Appends call bytes')
    (wellFormed : writer.WellFormed)
    (ran : call writer = (.ok (), written)) :
    bytes = bytes' := by
  have contents := (appends writer written wellFormed ran).2.2
  have contents' := (appends' writer written wellFormed ran).2.2
  exact List.append_cancel_left (contents.symm.trans contents')

/-- `neoc_hash160_serialize` writes the bytes as they are stored. -/
theorem Hash160.serialize_appends_iff {hash : Hash160} {bytes : List UInt8} :
    (∀ alloc, BinaryWriter.Appends (hash.serialize alloc) bytes) ↔
      bytes = hash.val := by
  constructor
  · intro appends
    have emits :=
      @BinaryWriter.writeBytes_emits .ample hash.val
    rcases BinaryWriter.create_succeeds true
        (Allocator.ample_serves
          (by decide : max 256 BinaryWriter.structSize ≤ ptrdiffMax)) with
      ⟨writer, created⟩
    rcases BinaryWriter.create_eq_ok created with
      ⟨wellFormed, grows, empty⟩
    have start : writer.position = 0 := by
      rw [← wellFormed.length_contents, empty]
      rfl
    rcases emits.succeeds writer wellFormed grows
        (by
          rw [start, hash.property]
          exact Allocator.ample_serves (by decide)) with
      ⟨written, ran⟩
    exact (appends .ample).unique emits.appends wellFormed ran
  · rintro rfl alloc
    exact BinaryWriter.writeBytes_appends _

theorem Signer.serialize_account (alloc : Allocator) (signer : Signer) :
    ∃ rest,
      BinaryWriter.Appends (signer.serialize alloc)
        (signer.account.val ++ rest) :=
  ⟨_, signer.serialize_appends⟩

theorem ScriptBuilder.pushHash160_appends (alloc : Allocator)
    (hash : Hash160) :
    BinaryWriter.Appends (pushHash160 alloc hash)
      (Opcode.pushData1 :: 20 :: hash.toLittleEndianBytes) := by
  have length : hash.toLittleEndianBytes.length = 20 := by
    rw [Hash160.toLittleEndianBytes, List.length_reverse, hash.property]
  have pushed := @pushData_assembles alloc hash.toLittleEndianBytes
  rw [instructionOfBytes, if_neg (by omega)] at pushed
  have bytes :
      assemble [.pushData hash.toLittleEndianBytes] =
        Opcode.pushData1 :: 20 :: hash.toLittleEndianBytes := by
    rw [assemble_cons, Instruction.encode, if_pos (by omega), length,
      show assemble [] = [] from rfl, List.append_nil]
    rfl
  have appends := pushed.appends
  rwa [bytes] at appends

/--
The emitters agree on the digest of a script exactly when it is a palindrome:
signers and serialized hashes keep the reversed order of the stored hash.
-/
theorem wireOrder_digest_iff
    {host : Host}
    {script : List UInt8}
    {hash : Hash160}
    (hashed : Hash160.fromScript host script = .ok hash) :
    WireOrder host hash (host.scriptDigest script) ↔
      (host.scriptDigest script).reverse = host.scriptDigest script := by
  have stored := Hash160.fromScript_eq_ok hashed
  have restored :
      hash.toLittleEndianBytes = (host.scriptDigest script).val := by
    rw [stored, Hash160.toLittleEndianBytes, Bytes.val_reverse,
      List.reverse_reverse]
  constructor
  · intro wire
    have same := Hash160.serialize_appends_iff.mp wire.serialized
    rw [← stored]
    exact (Subtype.ext same).symm
  · intro palindrome
    rw [palindrome] at stored
    refine ⟨?_, ?_, ?_, ?_⟩
    · rintro alloc signer account
      rw [← stored, ← account]
      exact signer.serialize_account alloc
    · intro alloc
      rw [← restored]
      exact ScriptBuilder.pushHash160_appends alloc hash
    · intro alloc alloc' bufferSize address addressed serves
      rw [← restored]
      exact Hash160.checkDecodeAlloc_toAddress addressed serves
    · apply Hash160.serialize_appends_iff.mpr
      rw [stored]

/-- The hash of the base point's script is serialized backwards. -/
theorem basePoint_serialized_backwards :
    ∃ hash,
      Hash160.fromScript addressHost baseScript = .ok hash ∧
        ¬ WireOrder addressHost hash
          (addressHost.scriptDigest baseScript) := by
  refine ⟨baseScriptHash.reverse, by decide, ?_⟩
  intro wire
  have written := Hash160.serialize_appends_iff.mp wire.serialized
  revert written
  decide

theorem wireOrder_digest_iff_basePoint :
    Hash160.fromScript addressHost baseScript =
        .ok baseScriptHash.reverse ∧
      (WireOrder addressHost baseScriptHash.reverse
          (addressHost.scriptDigest baseScript) ↔
        (addressHost.scriptDigest baseScript).reverse =
          addressHost.scriptDigest baseScript) := by
  have hashed :
      Hash160.fromScript addressHost baseScript =
        .ok baseScriptHash.reverse := by
    decide
  exact ⟨hashed, wireOrder_digest_iff hashed⟩

end NeoC
