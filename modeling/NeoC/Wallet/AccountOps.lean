import NeoC.Wallet.AccountOrigin

/-!
# Operations on an account

An account may hold its private key in the clear, under a password, or both.
Encrypting writes the encrypted form and sets the lock, and keeps the key
pair; decrypting puts a key pair in place of the one there and clears the
lock.  What is handed out, a signature or the key itself, is computed from
the key pair that the account holds.
-/

namespace NeoC

open Foundation NeoVm

/-- A `neoc_scrypt_params_t`. -/
structure ScryptParams where
  n : UInt32
  r : UInt32
  p : UInt32
  dkLen : UInt32
deriving DecidableEq, Repr

/-- `neoc_scrypt_to_nep2`. -/
def ScryptParams.toNep2 (scrypt : ScryptParams) : Nep2Params where
  n := scrypt.n
  r := scrypt.r
  p := scrypt.p

namespace WalletAccount

variable {curve : Curve}

/-! ## Members -/

/-- `neoc_account_set_label`. -/
def setLabel (alloc : Allocator) (label : Option CString) :
    Routine (WalletAccount curve) Unit :=
  fun account =>
    match label with
    | none => (.ok (), { account with label := none })
    | some text =>
        -- The old label is gone when the copy is refused.
        match strdup alloc text with
        | none =>
            errorSet .outOfMemory "Failed to allocate account label"
              { account with label := none }
        | some copy => (.ok (), { account with label := some copy })

/-- `neoc_account_set_default`. -/
def setDefault (isDefault : Bool) : Routine (WalletAccount curve) Unit :=
  Call.update fun account => { account with isDefault }

/-- `neoc_account_lock_internal`. -/
def lockInternal : Routine (WalletAccount curve) Unit :=
  Call.update fun account => { account with isLocked := true }

/-- `neoc_account_unlock_internal`. -/
def unlockInternal : Routine (WalletAccount curve) Unit :=
  Call.update fun account => { account with isLocked := false }

/-! ## The encrypted key -/

/-- A member after `neoc_free` and the assignments behind it. -/
def clearBuffer : Buffer → Buffer
  | .null count => .null count
  | .items _ => .null 0

/-- `neoc_account_clear_encrypted_key`. -/
def clearEncryptedKey (account : WalletAccount curve) :
    WalletAccount curve :=
  { account with encryptedKey := clearBuffer account.encryptedKey }

/-- An account without its encrypted key and its cached script. -/
def stripped (account : WalletAccount curve) : WalletAccount curve :=
  { account.clearEncryptedKey with
    verificationScript := clearBuffer account.verificationScript }

/--
`neoc_account_store_encrypted_key`.  The NUL behind the text is not counted
in the length.
-/
def storeEncryptedKey (alloc : Allocator) (encryptedKey : Option CString) :
    Routine (WalletAccount curve) Unit := do
  Call.update stripped
  match encryptedKey with
  | none => pure ()
  | some text =>
      if alloc.neocGrants (text.strlen + 1) = false then
        errorSet .outOfMemory
          "account_store_encrypted_key: allocation failed"
      else
        Call.update fun account =>
          { account with encryptedKey := .items text.characters }

/-- `neoc_account_set_encrypted_private_key`. -/
def setEncryptedPrivateKey (alloc : Allocator) (encryptedKey : Buffer) :
    Routine (WalletAccount curve) Unit :=
  match encryptedKey with
  | .null _ => Call.update clearEncryptedKey
  | .items content =>
      if content.length = 0 then
        Call.update clearEncryptedKey
      else if alloc.neocGrants (sizeAdd content.length 1) = false then
        errorSet .outOfMemory "Failed to allocate encrypted key"
      else
        Call.update fun account =>
          { account with encryptedKey := .items content }

section Keys

variable (derivation : KeyDerivation curve) (cipher : Cipher) (host : Host)
  (alloc : Allocator)

/-- `neoc_account_encrypt_private_key_with_params`. -/
def encryptPrivateKeyWithParams (password : CString)
    (params : Option ScryptParams) : Routine (WalletAccount curve) Unit := do
  match ← Call.read fun account => account.keyPair with
  | none =>
      errorSet .invalidState
        "encrypt_private_key: account has no key pair"
  | some keyPair => do
      let encryptedKey ←
        Call.lift
          (Nep2.encrypt derivation cipher host alloc
            (derivation.privateBytes keyPair.privateKey) password
            (params.map ScryptParams.toNep2) 128)
      storeEncryptedKey alloc (some encryptedKey)
      Call.update fun account => { account with isLocked := true }

/-- `neoc_account_decrypt_private_key_with_params`. -/
def decryptPrivateKeyWithParams (password : CString)
    (params : Option ScryptParams) : Routine (WalletAccount curve) Unit := do
  match ← Call.read fun account => account.encryptedKey with
  | .null _ =>
      errorSet .invalidState
        "decrypt_private_key: no encrypted key available"
  | .items content => do
      let privateKey ←
        Call.lift
          (Nep2.decrypt derivation cipher host alloc
            (CString.ofBuffer content) password
            (params.map ScryptParams.toNep2))
      let keyPair ←
        Call.lift
          (EcKeyPair.createFromPrivateKey derivation alloc privateKey)
      Call.update fun account =>
        { account with keyPair := some keyPair, isLocked := false }

/-! ## What is handed out -/

/-- `neoc_account_export_wif`. -/
def exportWif (account : WalletAccount curve) : Outcome CString :=
  if account.isLocked then
    .error (.error .invalidState "Account is locked")
  else
    match account.keyPair with
    | none => .error (.error .invalidState "Account has no key pair")
    | some keyPair => keyPair.exportAsWif derivation host alloc

/-- `neoc_account_sign`. -/
def signData (account : WalletAccount curve) (data : Buffer) :
    Outcome (Bytes 64) :=
  match data with
  | .null _ => .error (.error .invalidArgument "Invalid arguments")
  | .items content =>
      match account.keyPair with
      | none =>
          .error
            (.error .invalidState "Account has no key pair for signing")
      | some _ =>
          if sized : content.length = 32 then
            account.sign alloc ⟨content, sized⟩
          else
            .error
              (.error .invalidArgument "Account sign expects 32-byte hash")

/-- `neoc_script_create_single_sig_invocation` on a signature. -/
def singleSigInvocation (signature : Bytes 64) : Outcome (List UInt8) :=
  ScriptBuilder.build alloc
    (ScriptBuilder.pushData alloc (.items signature.val))

/-- `neoc_account_sign_hash`. -/
def signHash (account : WalletAccount curve) (hash : Hash256) :
    Outcome Witness := do
  let signature ← account.sign alloc hash
  let invocationScript ← singleSigInvocation alloc signature
  let verificationScript ← account.getVerificationScript host alloc
  Witness.create alloc (.items invocationScript)
    (.items verificationScript)

end Keys

/-! ## What the operations do -/

section

variable {derivation : KeyDerivation curve} {cipher : Cipher} {host : Host}
  {alloc : Allocator}

/-- Everything that setting the label can do. -/
theorem setLabel_cases (label : Option CString)
    (account : WalletAccount curve) :
    ∃ outcome stored,
      setLabel alloc label account =
        (outcome, { account with label := stored }) := by
  unfold setLabel
  split
  · exact ⟨_, _, rfl⟩
  · split
    · exact ⟨_, _, rfl⟩
    · exact ⟨_, _, rfl⟩

/-- Everything that setting the encrypted key can do. -/
theorem setEncryptedPrivateKey_cases (encryptedKey : Buffer)
    (account : WalletAccount curve) :
    ∃ outcome stored,
      setEncryptedPrivateKey alloc encryptedKey account =
        (outcome, { account with encryptedKey := stored }) := by
  unfold setEncryptedPrivateKey
  split
  · exact ⟨_, _, rfl⟩
  · split
    · exact ⟨_, _, rfl⟩
    · split
      · exact ⟨_, account.encryptedKey, rfl⟩
      · exact ⟨_, _, rfl⟩

theorem storeEncryptedKey_granted {text : CString}
    (granted : alloc.neocGrants (text.strlen + 1) = true)
    (account : WalletAccount curve) :
    storeEncryptedKey alloc (some text) account =
      (.ok (),
        { account.stripped with
          encryptedKey := .items text.characters }) := by
  rw [storeEncryptedKey, Call.bind_of_ok (Call.update_run _ _)]
  dsimp only
  rw [if_neg (by simp [granted])]
  rfl

theorem storeEncryptedKey_some (text : CString)
    (account : WalletAccount curve) :
    (∃ reason,
        storeEncryptedKey alloc (some text) account =
          (.error reason, account.stripped)) ∨
      storeEncryptedKey alloc (some text) account =
        (.ok (),
          { account.stripped with
            encryptedKey := .items text.characters }) := by
  cases granted : alloc.neocGrants (text.strlen + 1) with
  | false =>
      left
      rw [storeEncryptedKey, Call.bind_of_ok (Call.update_run _ _),
        if_pos granted]
      exact ⟨_, rfl⟩
  | true => exact .inr (storeEncryptedKey_granted granted account)

/-- Everything that encrypting can do. -/
theorem encryptPrivateKeyWithParams_cases (password : CString)
    (params : Option ScryptParams) (account : WalletAccount curve) :
    (∃ reason,
        encryptPrivateKeyWithParams derivation cipher host alloc password
            params account =
          (.error reason, account)) ∨
      (∃ reason,
        encryptPrivateKeyWithParams derivation cipher host alloc password
            params account =
          (.error reason, account.stripped)) ∨
      ∃ keyPair text,
        account.keyPair = some keyPair ∧
          Nep2.encrypt derivation cipher host alloc
              (derivation.privateBytes keyPair.privateKey) password
              (params.map ScryptParams.toNep2) 128 =
            .ok text ∧
          encryptPrivateKeyWithParams derivation cipher host alloc password
              params account =
            (.ok (),
              { account.stripped with
                encryptedKey := .items text.characters
                isLocked := true }) := by
  rw [encryptPrivateKeyWithParams, Call.bind_of_ok (Call.read_run _ _)]
  cases held : account.keyPair with
  | none => exact .inl ⟨_, rfl⟩
  | some keyPair =>
      dsimp only
      cases encrypted :
          Nep2.encrypt derivation cipher host alloc
            (derivation.privateBytes keyPair.privateKey) password
            (params.map ScryptParams.toNep2) 128 with
      | error reason => exact .inl ⟨reason, rfl⟩
      | ok text =>
          rw [Call.lift_ok_bind]
          rcases @storeEncryptedKey_some curve alloc text account with
            ⟨reason, refused⟩ | stored
          · exact .inr (.inl ⟨reason, Call.bind_of_error refused⟩)
          · refine .inr (.inr ⟨keyPair, text, rfl, encrypted, ?_⟩)
            rw [Call.bind_of_ok stored]
            rfl

/-- Decrypting succeeds when its two steps do. -/
theorem decryptPrivateKeyWithParams_eq {password : CString}
    {params : Option ScryptParams} {account : WalletAccount curve}
    {content : List UInt8} {privateKey : Bytes 32}
    {keyPair : EcKeyPair curve}
    (stored : account.encryptedKey = .items content)
    (decrypted :
      Nep2.decrypt derivation cipher host alloc (CString.ofBuffer content)
          password (params.map ScryptParams.toNep2) =
        .ok privateKey)
    (created :
      EcKeyPair.createFromPrivateKey derivation alloc privateKey =
        .ok keyPair) :
    decryptPrivateKeyWithParams derivation cipher host alloc password params
        account =
      (.ok (),
        { account with keyPair := some keyPair, isLocked := false }) := by
  rw [decryptPrivateKeyWithParams, Call.bind_of_ok (Call.read_run _ _),
    stored]
  dsimp only
  rw [decrypted, Call.lift_ok_bind, created, Call.lift_ok_bind, ← stored]
  rfl

/-- Everything that decrypting can do. -/
theorem decryptPrivateKeyWithParams_cases (password : CString)
    (params : Option ScryptParams) (account : WalletAccount curve) :
    (∃ reason,
        decryptPrivateKeyWithParams derivation cipher host alloc password
            params account =
          (.error reason, account)) ∨
      ∃ content privateKey keyPair,
        account.encryptedKey = .items content ∧
          Nep2.decrypt derivation cipher host alloc
              (CString.ofBuffer content) password
              (params.map ScryptParams.toNep2) =
            .ok privateKey ∧
          EcKeyPair.createFromPrivateKey derivation alloc privateKey =
            .ok keyPair ∧
          decryptPrivateKeyWithParams derivation cipher host alloc password
              params account =
            (.ok (),
              { account with
                keyPair := some keyPair
                isLocked := false }) := by
  cases stored : account.encryptedKey with
  | null count =>
      left
      rw [decryptPrivateKeyWithParams, Call.bind_of_ok (Call.read_run _ _),
        stored]
      exact ⟨_, rfl⟩
  | items content =>
      cases decrypted :
          Nep2.decrypt derivation cipher host alloc
            (CString.ofBuffer content) password
            (params.map ScryptParams.toNep2) with
      | error reason =>
          left
          rw [decryptPrivateKeyWithParams,
            Call.bind_of_ok (Call.read_run _ _), stored]
          dsimp only
          rw [decrypted]
          exact ⟨reason, rfl⟩
      | ok privateKey =>
          cases created :
              EcKeyPair.createFromPrivateKey derivation alloc
                privateKey with
          | error reason =>
              left
              rw [decryptPrivateKeyWithParams,
                Call.bind_of_ok (Call.read_run _ _), stored]
              dsimp only
              rw [decrypted, Call.lift_ok_bind, created]
              exact ⟨reason, rfl⟩
          | ok keyPair =>
              have ran :=
                decryptPrivateKeyWithParams_eq stored decrypted created
              rw [← stored]
              exact
                .inr
                  ⟨content, privateKey, keyPair, stored, decrypted, created,
                    ran⟩

/-! ## Decrypting what was encrypted -/

/-- The bytes of a pair that was made of bytes. -/
theorem privateBytes_of_derived {keyPair : EcKeyPair curve}
    (derived : keyPair.Derived derivation) :
    ∃ alloc,
      EcKeyPair.createFromPrivateKey derivation alloc
          (derivation.privateBytes keyPair.privateKey) =
        .ok keyPair := by
  rcases derived with ⟨alloc, bytes, created⟩
  rcases EcKeyPair.createFromPrivateKey_eq_ok created with
    ⟨point, derive, -⟩
  rw [derivation.privateBytes_derive _ _ _ derive]
  exact ⟨alloc, created⟩

/--
A key that was encrypted is decrypted with the same password and parameters,
and a failing decryption changes nothing.
-/
theorem decrypt_restores
    {account locked : WalletAccount curve}
    {keyPair : EcKeyPair curve}
    {password : CString}
    {params : Option ScryptParams}
    {alloc' : Allocator}
    (held : account.keyPair = some keyPair)
    (derived : keyPair.Derived derivation)
    (encrypted :
      encryptPrivateKeyWithParams derivation cipher host alloc password
          params account =
        (.ok (), locked))
    (serves : alloc'.Serves 120) :
    (∃ opened,
      decryptPrivateKeyWithParams derivation cipher host alloc' password
            params locked =
          (.ok (), opened) ∧
        opened.keyPair = some keyPair ∧
        opened.address = account.address ∧
        opened.scriptHash = account.scriptHash ∧
        opened.label = account.label ∧
        opened.isLocked = false) ∧
      ∀ (memory : Allocator) (attempt : CString)
          (tried : Option ScryptParams)
          (before after : WalletAccount curve) (reason : Halt),
        decryptPrivateKeyWithParams derivation cipher host memory attempt
              tried before =
            (.error reason, after) →
          after = before := by
  constructor
  · rcases @encryptPrivateKeyWithParams_cases curve derivation cipher host
        alloc password params account with
      ⟨reason, failed⟩ | ⟨reason, failed⟩ | ⟨pair, text, has, made, ran⟩
    · rw [failed] at encrypted
      cases encrypted
    · rw [failed] at encrypted
      cases encrypted
    rw [ran] at encrypted
    injection encrypted with _ same
    subst same
    rw [held] at has
    injection has with same
    subst same
    rcases privateBytes_of_derived derived with ⟨before, created⟩
    have decrypted := Nep2.decrypt_encrypt made serves
    have again := EcKeyPair.createFromPrivateKey_eq created serves
    rw [← CString.ofBuffer_characters text] at decrypted
    exact
      ⟨_, decryptPrivateKeyWithParams_eq rfl decrypted again, rfl, rfl, rfl,
        rfl, rfl⟩
  · intro memory attempt tried before after reason failed
    rcases @decryptPrivateKeyWithParams_cases curve derivation cipher host
        memory attempt tried before with
      ⟨reason', unchanged⟩ | ⟨content, privateKey, pair, -, -, -, ran⟩
    · rw [unchanged] at failed
      injection failed with _ same
      exact same.symm
    · rw [ran] at failed
      cases failed

end

/-! ## The private key one under a password -/

/-- The address of the private key one. -/
def addressOne : CString :=
  CString.ofString "NVHt5YtAnadMwntAVAJLUy36M2nLYKHUeK"

/-- The password that the key is kept under. -/
def neoPassword : CString :=
  CString.ofString "neo"

/-- What is written for the private key one and that password. -/
def encryptedOne : CString :=
  CString.ofString
    "6PYQY227hXESUnRPdp4Qbi4P8b2NNQGBhFY3VccKFhBtxXqdok9KFxEDjx"

/-- The cipher on this key, as OpenSSL computes it. -/
def neoCipher : Cipher :=
  Cipher.single neoPassword ⟨[0x70, 0x52, 0x02, 0xC2], rfl⟩
    Nep2.defaultParams
    (Bytes.ofNat 32
       0xEE3E534C24A9A136EF18E48FC478DBBC4A2571D2F486E8E27A0C726EC3B8F9B5,
     Bytes.ofNat 32
       0xB06DC766B05C219CB1F5F23D22FEE774F2570E207AC334B498F141908981AF4B)
    (Bytes.ofNat 32
      0xEE3E534C24A9A136EF18E48FC478DBBC4A2571D2F486E8E27A0C726EC3B8F9B4)
    (Bytes.ofNat 32
      0x92731A7F1D5DE32392CC5C26009168E51D36709D30EB26DA2FB207D6CCF1E2)

/-- The bytes of this text: prefix, flag, salt and encrypted key. -/
def nep2Payload : List UInt8 :=
  [0x01, 0x42, 0xE0, 0x70, 0x52, 0x02, 0xC2] ++
    (Bytes.ofNat 32
      0x92731A7F1D5DE32392CC5C26009168E51D36709D30EB26DA2FB207D6CCF1E2).val

/-- The digests of the address and of the encrypted key. -/
def nep2Digests : List (List UInt8 × Bytes 32) :=
  Host.twiceDigests addressOne.characters
    0x91E725CD96CA9EC857B4A500ACB4F3EA6506CE05C0BC5189FA032EF4FB32C001
    0x705202C2BB503D4740CC536401CCFEA7EB05C5B4F257EAFA512CCE960D83978B ++
  Host.twiceDigests nep2Payload
    0x1E2FF674008D5EB03B219D8AB0583861692F3682EBA468CD84E1F5A8142C52F1
    0x9F50042375CD84C39E6FE4C7F3A74A941C84142E7FB3FE4433C0C522CD830B55

/-- A host that also knows these digests. -/
def nep2Host : Host :=
  { addressHost with
    sha256Digest := fun data =>
      (nep2Digests.lookup data).getD (addressHost.sha256Digest data) }

/-- The account of the private key one. -/
def accountOne : WalletAccount Transaction.baseCurve where
  scriptHash := Transaction.baseScriptHash.reverse
  keyPair := some Transaction.baseKeyPair
  label := some addressOne
  address := some addressOne
  isLocked := false
  isDefault := false
  encryptedKey := .null 0
  verificationScript := .items Transaction.baseScript
  extra := none

/-- It is what the constructor makes of the key pair. -/
theorem construct_accountOne :
    (AccountOrigin.fromKeyPair none Transaction.baseKeyPair).construct
        baseDerivation neoCipher nep2Host .ample =
      .ok accountOne := by
  have built :
      ScriptHelper.createSingleSigVerification nep2Host .ample
          Transaction.baseKeyPair.getPublicKey.val =
        .ok Transaction.baseScript := by
    decide +kernel
  have hashed :
      Hash160.fromScript nep2Host Transaction.baseScript =
        .ok Transaction.baseScriptHash.reverse := by
    decide +kernel
  have addressed :
      makeAddress nep2Host .ample
          Transaction.baseScriptHash.reverse =
        .ok addressOne := by
    decide +kernel
  have labelled : makeLabel .ample addressOne = .ok addressOne := by
    decide +kernel
  rw [AccountOrigin.construct, createFromKeyPairWithLabel,
    if_neg (by decide)]
  refine
    Except.bind_eq_ok_iff.mpr ⟨Transaction.baseKeyPair, by rfl, ?_⟩
  refine Except.bind_eq_ok_iff.mpr ⟨_, built, ?_⟩
  refine Except.bind_eq_ok_iff.mpr ⟨_, hashed, ?_⟩
  refine Except.bind_eq_ok_iff.mpr ⟨_, addressed, ?_⟩
  exact Except.bind_eq_ok_iff.mpr ⟨_, labelled, rfl⟩

/-- The key is encrypted, and then decrypted again. -/
theorem decrypt_restores_accountOne :
    ∃ locked opened,
      encryptPrivateKeyWithParams baseDerivation neoCipher nep2Host
            .ample neoPassword none accountOne =
          (.ok (), locked) ∧
        locked.encryptedKey = .items encryptedOne.characters ∧
        decryptPrivateKeyWithParams baseDerivation neoCipher nep2Host
            .ample neoPassword none locked =
          (.ok (), opened) ∧
        opened.keyPair = some Transaction.baseKeyPair ∧
        opened.isLocked = false := by
  have made :
      Nep2.encrypt baseDerivation neoCipher nep2Host .ample
          privateKeyOne neoPassword none 128 =
        .ok encryptedOne := by
    decide +kernel
  have succeeded :
      (encryptPrivateKeyWithParams baseDerivation neoCipher nep2Host
        .ample neoPassword none accountOne).1.toBool = true := by
    decide +kernel
  rcases @encryptPrivateKeyWithParams_cases Transaction.baseCurve
      baseDerivation neoCipher nep2Host .ample neoPassword none
      accountOne with
    ⟨reason, failed⟩ | ⟨reason, failed⟩ |
      ⟨keyPair, text, has, written, encrypted⟩
  · rw [failed] at succeeded
    cases succeeded
  · rw [failed] at succeeded
    cases succeeded
  have same : text = encryptedOne := by
    injection written.symm.trans made
  subst same
  have restored :=
    @decrypt_restores Transaction.baseCurve baseDerivation neoCipher
      nep2Host .ample accountOne _ Transaction.baseKeyPair
      neoPassword none .ample rfl
      ⟨.ample, privateKeyOne, rfl⟩ encrypted
      (Allocator.ample_serves (by decide))
  rcases restored.1 with ⟨opened, decrypted, keyPair, -, -, -, unlocked⟩
  exact ⟨_, opened, encrypted, rfl, decrypted, keyPair, unlocked⟩

end WalletAccount

end NeoC
