import NeoC.Runtime.Base64
import NeoC.Wallet.Nep6

/-!
# Accounts in a wallet file

An account is written to a wallet file as its address, its label, its flags,
its encrypted key and its verification script in base64.  Reading takes the
script hash from the address and the script from the contract.  What makes an
account multi-signature is in neither; and the accounts that a NEP-6 wallet
makes by itself carry another script, in hexadecimal.
-/

namespace NeoC

open Foundation NeoVm

namespace WalletAccount

variable {curve : Curve}

/-! ## Writing and reading -/

/-- The encrypted key as a text; a NUL ends it. -/
def encryptedText (account : WalletAccount curve) : Option CString :=
  match account.encryptedKey with
  | .null _ => none
  | .items content => some (CString.ofBuffer content)

/-- The label, if it has a character. -/
def writtenLabel (account : WalletAccount curve) : Option CString :=
  account.label.filter fun label => label.strlen ≠ 0

/-- The contract for a verification script. -/
def makeContract (alloc : Allocator) (script : List UInt8) :
    Outcome Nep6Contract :=
  match Base64.encodeAlloc alloc script with
  | none =>
      .error
        (.error .outOfMemory
          "account_to_nep6: contract script allocation failed")
  | some scriptBase64 =>
      Nep6Contract.create alloc (some scriptBase64)
        [Nep6Contract.signatureParameter] false

/-- `neoc_account_to_nep6`. -/
def toNep6 (host : Host) (alloc : Allocator)
    (account : WalletAccount curve) : Outcome Nep6Account :=
  match account.address with
  | none =>
      .error
        (.error .invalidState "account_to_nep6: account missing address")
  | some address => do
      let nep6Account ←
        Nep6Account.create alloc address account.writtenLabel
          account.isDefault account.isLocked account.encryptedText none
      match account.getVerificationScript host alloc with
      | .error (.error _ _) => .ok nep6Account
      | .error reason => .error reason
      | .ok script =>
          if script.length = 0 then
            .ok nep6Account
          else do
            let contract ← makeContract alloc script
            .ok (nep6Account.setContract (some contract))

/-- The script that reading finds in a contract. -/
def contractBytes (alloc : Allocator) (contract : Option Nep6Contract) :
    Option (List UInt8) :=
  match contract with
  | none => none
  | some contract =>
      match contract.script with
      | none => none
      | some scriptBase64 => Base64.decodeAlloc alloc scriptBase64

/-- `neoc_account_from_nep6`. -/
def fromNep6 (host : Host) (alloc : Allocator)
    (nep6Account : Nep6Account) : Outcome (WalletAccount curve) :=
  match nep6Account.address with
  | none =>
      .error (.error .invalidFormat "account_from_nep6: missing address")
  | some address => do
      let account ← createFromAddress host alloc address
      let account :=
        match nep6Account.label with
        | none => account
        | some label => (setLabel alloc (some label) account).2
      let account := (setDefault nep6Account.isDefault account).2
      let stored ← (storeEncryptedKey alloc nep6Account.key).eval account
      let account :=
        { stored.2 with
          isLocked := nep6Account.lock || nep6Account.key.isSome }
      match contractBytes alloc nep6Account.contract with
      | none => .ok account
      | some decoded =>
          .ok { account with verificationScript := .items decoded }

/-! ## What reading makes -/

/-- The encrypted key that is stored for a text. -/
def keyBuffer : Option CString → Buffer
  | none => .null 0
  | some text => .items text.characters

/-- The cache of a script that may be absent. -/
def scriptBuffer : Option (List UInt8) → Buffer
  | none => .null 0
  | some script => .items script

/-- The account that is read, given its address and script hash. -/
def readAccount (alloc : Allocator) (nep6Account : Nep6Account)
    (address : CString) (scriptHash : Hash160) : WalletAccount curve where
  scriptHash := scriptHash
  keyPair := none
  label :=
    match nep6Account.label with
    | none => some address
    | some label => strdup alloc label
  address := some address
  isLocked := nep6Account.lock || nep6Account.key.isSome
  isDefault := nep6Account.isDefault
  encryptedKey := keyBuffer nep6Account.key
  verificationScript :=
    scriptBuffer (contractBytes alloc nep6Account.contract)
  extra := none

section

variable {host : Host} {alloc : Allocator} {nep6Account : Nep6Account}

theorem createFromAddress_eq_ok {address : CString}
    {account : WalletAccount curve}
    (made : createFromAddress host alloc address = .ok account) :
    ∃ scriptHash,
      Hash160.fromAddress host alloc address = .ok scriptHash ∧
        account =
          { scriptHash, keyPair := none, label := some address,
            address := some address, isLocked := false,
            isDefault := false, encryptedKey := .null 0,
            verificationScript := .null 0, extra := none } := by
  rw [createFromAddress] at made
  split at made
  · cases made
  rcases Except.bind_eq_ok_iff.mp made with ⟨copy, copied, rest⟩
  rcases Except.bind_eq_ok_iff.mp rest with ⟨scriptHash, parsed, rest⟩
  rcases Except.bind_eq_ok_iff.mp rest with ⟨text, labelled, rest⟩
  injection rest with same
  refine ⟨scriptHash, parsed, ?_⟩
  rw [← same, copyAddress_eq_ok copied, makeLabel_eq_ok labelled]

theorem setLabel_some (label : CString) (account : WalletAccount curve) :
    (setLabel alloc (some label) account).2 =
      { account with label := strdup alloc label } := by
  unfold setLabel
  dsimp only
  split
  · rename_i refused
    rw [refused]
    rfl
  · rename_i copied
    rw [copied]

/-- Storing the key of an account that has none. -/
theorem storeEncryptedKey_eq_ok {key : Option CString}
    {account kept : WalletAccount curve}
    (empty : account.encryptedKey = .null 0)
    (stored : storeEncryptedKey alloc key account = (.ok (), kept)) :
    kept = { account.stripped with encryptedKey := keyBuffer key } := by
  cases key with
  | none =>
      injection stored with _ same
      rw [← same, stripped, clearEncryptedKey, empty]
      rfl
  | some text =>
      rcases @storeEncryptedKey_some curve alloc text account with
        ⟨reason, refused⟩ | ran
      · rw [refused] at stored
        cases stored
      · rw [ran] at stored
        injection stored with _ same
        exact same.symm

/-- An account is read as its address, hash and members say. -/
theorem fromNep6_eq_ok {account : WalletAccount curve}
    (read : fromNep6 host alloc nep6Account = .ok account) :
    ∃ address scriptHash,
      nep6Account.address = some address ∧
        Hash160.fromAddress host alloc address = .ok scriptHash ∧
        account =
          readAccount alloc nep6Account address scriptHash := by
  unfold fromNep6 at read
  split at read
  · cases read
  rename_i address has
  rcases Except.bind_eq_ok_iff.mp read with ⟨made, created, rest⟩
  rcases createFromAddress_eq_ok created with ⟨scriptHash, parsed, rfl⟩
  refine ⟨address, scriptHash, has, parsed, ?_⟩
  rcases Except.bind_eq_ok_iff.mp rest with ⟨⟨⟨⟩, kept⟩, stored, rest⟩
  rw [Call.eval_eq_ok_iff] at stored
  have members :
      kept =
        { (readAccount alloc nep6Account address scriptHash :
            WalletAccount curve) with
          isLocked := false
          verificationScript := .null 0 } := by
    cases labelled : nep6Account.label with
    | none =>
        rw [labelled] at stored
        rw [storeEncryptedKey_eq_ok rfl stored, readAccount, labelled]
        rfl
    | some label =>
        rw [labelled] at stored
        dsimp only at stored
        rw [setLabel_some] at stored
        rw [storeEncryptedKey_eq_ok rfl stored, readAccount, labelled]
        rfl
  subst members
  dsimp only at rest
  split at rest
  · rename_i absent
    injection rest with same
    rw [← same, readAccount, absent]
    rfl
  · rename_i decoded present
    injection rest with same
    rw [← same, readAccount, present]
    rfl

/-- With memory, an account with the address of a hash is read. -/
theorem fromNep6_of_serves {scriptHash : Hash160} {bound : Nat}
    (initialized : host.cryptoInitialized = true)
    (addressed :
      nep6Account.address = some (scriptHash.addressText host))
    (serves : alloc.Serves bound) (enough : structSize ≤ bound)
    (keyed :
      ∀ key, nep6Account.key = some key → key.strlen + 1 ≤ bound) :
    (fromNep6 host alloc nep6Account : Outcome (WalletAccount curve)) =
      .ok
        (readAccount alloc nep6Account (scriptHash.addressText host)
          scriptHash) := by
  have short := scriptHash.strlen_addressText_le host
  have room : 64 ≤ bound := Nat.le_trans (by decide) enough
  have parsed :
      Hash160.fromAddress host alloc (scriptHash.addressText host) =
        .ok scriptHash :=
    Hash160.fromAddress_addressText initialized (serves.mono room)
  have duplicated :
      strdup alloc (scriptHash.addressText host) =
        some (scriptHash.addressText host) := by
    rw [strdup, if_pos (serves.neocGrants (Nat.succ_pos _) (by omega))]
  have struct : alloc.neocGrants structSize = true :=
    serves.neocGrants (by decide) enough
  have succeeds :
      ∃ account,
        (fromNep6 host alloc nep6Account : Outcome (WalletAccount curve)) =
          .ok account := by
    rw [fromNep6, addressed]
    dsimp only
    rw [createFromAddress, if_neg (by simp [struct]), copyAddress,
      duplicated, parsed, makeLabel, duplicated]
    change ∃ account, Except.bind (Call.eval _ _) _ = .ok account
    have stores :
        ∀ account : WalletAccount curve, ∃ kept,
          (storeEncryptedKey alloc nep6Account.key).eval account =
            .ok ((), kept) := by
      intro account
      cases key : nep6Account.key with
      | none => exact ⟨_, rfl⟩
      | some text =>
          have granted :=
            serves.neocGrants (Nat.succ_pos _) (keyed text key)
          exact
            ⟨_,
              Call.eval_eq_ok_iff.mpr
                (storeEncryptedKey_granted granted account)⟩
    rcases stores _ with ⟨kept, stored⟩
    rw [stored]
    change ∃ account, (match contractBytes alloc nep6Account.contract with
      | none => _
      | some decoded => _) = Except.ok account
    split
    · exact ⟨_, rfl⟩
    · exact ⟨_, rfl⟩
  rcases succeeds with ⟨account, read⟩
  rcases fromNep6_eq_ok read with ⟨address, hash, has, found, shape⟩
  rw [addressed] at has
  injection has with same
  subst same
  rw [parsed] at found
  injection found with same
  rw [read, shape, same]

end

/-! ## The round trip of a new account -/

/-- The script that an account without a key of its own can give. -/
def availableScript (account : WalletAccount curve) :
    Option (List UInt8) :=
  match account.verificationScript, account.extra with
  | .items (byte :: rest), _ => some (byte :: rest)
  | _, some (.multisig multisig) => some multisig.verificationScript
  | _, _ => none

section

variable {derivation : KeyDerivation curve} {host : Host}
  {account : WalletAccount curve}

/-- What is at hand is given back if there is memory for a copy of it. -/
theorem Fresh.getVerificationScript_eq
    (fresh : Fresh derivation host account) (alloc : Allocator) :
    (∃ script text,
        account.availableScript = some script ∧
          account.getVerificationScript host alloc =
            if alloc.neocGrants script.length = false then
              .error (.error .outOfMemory text)
            else
              .ok script) ∨
      account.availableScript = none ∧
        ∃ code text,
          account.getVerificationScript host alloc =
            .error (.error code text) := by
  cases cache : account.verificationScript with
  | items content =>
      have filled := (fresh.cached content cache).1
      cases content with
      | nil => exact absurd rfl filled
      | cons byte rest =>
          have given :
              account.getVerificationScript host alloc =
                if alloc.neocGrants (byte :: rest).length = false then
                  .error
                    (.error .outOfMemory
                      "Failed to allocate cached verification script")
                else
                  .ok (byte :: rest) := by
            rw [getVerificationScript, cache]
            dsimp only
            rw [if_neg (by simp)]
          exact .inl ⟨_, _, by rw [availableScript, cache], given⟩
  | null count =>
      have keyless : account.keyPair = none := by
        rcases fresh.stored with keyless | ⟨content, present⟩
        · exact keyless
        · rw [cache] at present
          cases present
      have given :
          account.getVerificationScript host alloc =
            makeVerificationScript host alloc account := by
        rw [getVerificationScript, cache]
      cases kind : account.extra with
      | none =>
          have missing : account.availableScript = none := by
            rw [availableScript, cache, kind]
          rw [makeVerificationScript, kind, keyless] at given
          exact .inr ⟨missing, _, _, given⟩
      | some extra =>
          cases extra with
          | multisig multisig =>
              rw [makeVerificationScript, kind] at given
              exact .inl ⟨_, _, by rw [availableScript, cache, kind], given⟩
          | multisigInfo info =>
              have missing : account.availableScript = none := by
                rw [availableScript, cache, kind]
              rw [makeVerificationScript, kind] at given
              exact .inr ⟨missing, _, _, given⟩

/-- The script is given when there is one and memory for a copy of it. -/
theorem Fresh.getVerificationScript_cases
    (fresh : Fresh derivation host account) (alloc : Allocator) :
    (∃ script,
        account.availableScript = some script ∧
          alloc.neocGrants script.length = true ∧
          account.getVerificationScript host alloc = .ok script) ∨
      (∀ script,
        account.availableScript = some script →
          alloc.neocGrants script.length = false) ∧
        ∃ code text,
          account.getVerificationScript host alloc =
            .error (.error code text) := by
  rcases fresh.getVerificationScript_eq alloc with
    ⟨content, text, available, given⟩ | ⟨missing, failed⟩
  · cases granted : alloc.neocGrants content.length with
    | true =>
        rw [if_neg (by simp [granted])] at given
        exact .inl ⟨content, available, granted, given⟩
    | false =>
        rw [if_pos granted] at given
        refine .inr ⟨?_, _, _, given⟩
        intro script same
        rw [available] at same
        injection same with same
        rw [← same, granted]
  · exact .inr ⟨by simp [missing], failed⟩

theorem Fresh.getVerificationScript_iff
    (fresh : Fresh derivation host account)
    (alloc : Allocator) (script : List UInt8) :
    account.getVerificationScript host alloc = .ok script ↔
      account.availableScript = some script ∧
        alloc.neocGrants script.length = true := by
  rcases fresh.getVerificationScript_cases alloc with
    ⟨found, available, granted, given⟩ | ⟨refused, code, text, given⟩
  · rw [given, available]
    constructor
    · intro same
      injection same with same
      exact ⟨congrArg some same, same ▸ granted⟩
    · rintro ⟨same, -⟩
      injection same with same
      exact congrArg _ same
  · rw [given]
    refine iff_of_false nofun ?_
    rintro ⟨available, granted⟩
    rw [refused script available] at granted
    cases granted

theorem Fresh.availableScript_ne_nil
    (fresh : Fresh derivation host account) {script : List UInt8}
    (available : account.availableScript = some script) :
    script ≠ [] := by
  unfold availableScript at available
  split at available
  · injection available with same
    rw [← same]
    exact List.cons_ne_nil _ _
  · rename_i multisig kind _
    injection available with same
    rw [← same]
    exact (fresh.multisig multisig kind).1
  · cases available

/-- The contract of a script. -/
def contractOf (script : List UInt8) : Nep6Contract where
  script := some (Base64.text script)
  parameters := [Nep6Contract.signatureParameter]
  isDeployed := false

/-- Memory that is enough to write and to read an account. -/
def nep6Bound (account : WalletAccount curve) : Nat :=
  256 + (account.label.elim 0 CString.strlen) +
    2 * (account.availableScript.elim 0 List.length)

/-- What is written of a new account. -/
def writtenAccount (host : Host) (account : WalletAccount curve) :
    Nep6Account where
  address := some (account.scriptHash.addressText host)
  label := account.writtenLabel
  isDefault := false
  lock := false
  key := none
  contract := account.availableScript.map contractOf

theorem makeContract_eq {alloc : Allocator} {script : List UInt8}
    (serves : alloc.Serves (256 + 2 * script.length)) :
    makeContract alloc script = .ok (contractOf script) := by
  have size : (Base64.text script).strlen = (script.length + 2) / 3 * 4 := by
    rw [CString.strlen, Base64.characters_text,
      Base64.length_encodeCharacters]
  have encoded :
      Base64.encodeAlloc alloc script = some (Base64.text script) := by
    rw [Base64.encodeAlloc, Base64.encodeBufferSize,
      if_pos (serves.neocGrants (Nat.succ_pos _) (by omega))]
  have struct : alloc.neocGrants Nep6Contract.structSize = true :=
    serves.neocGrants (by decide)
      (Nat.le_trans (by decide) (Nat.le_add_right 256 _))
  have parameter :
      alloc.neocGrants
          ([Nep6Contract.signatureParameter].length *
            Nep6Contract.parameterSize) = true :=
    serves.neocGrants (by decide)
      (Nat.le_trans (by decide) (Nat.le_add_right 256 _))
  have name :
      copyText alloc Nep6Contract.signatureParameter.name
          "Failed to copy parameter name" =
        .ok Nep6Contract.signatureParameter.name := by
    apply copyText_of_serves serves
    rintro copy ⟨⟩
    exact Nat.le_trans (by decide) (Nat.le_add_right 256 _)
  have text :
      copyText alloc (some (Base64.text script))
          "Failed to copy contract script" =
        .ok (some (Base64.text script)) := by
    apply copyText_of_serves serves
    rintro copy ⟨⟩
    omega
  rw [makeContract, encoded]
  dsimp only
  rw [Nep6Contract.create, if_neg (by simp [struct]), text]
  refine Except.bind_eq_ok_iff.mpr ⟨_, rfl, ?_⟩
  rw [if_neg (by simp only [parameter]; simp),
    Nep6Contract.copyParameters, name]
  rfl

/-- With memory, a new account is written. -/
theorem Fresh.toNep6_eq (fresh : Fresh derivation host account)
    {alloc : Allocator} (serves : alloc.Serves account.nep6Bound) :
    account.toNep6 host alloc = .ok (account.writtenAccount host) := by
  have short := account.scriptHash.strlen_addressText_le host
  have base : 256 ≤ account.nep6Bound := by
    rw [nep6Bound]
    omega
  have created :
      Nep6Account.create alloc (account.scriptHash.addressText host)
          account.writtenLabel false false none none =
        .ok
          { address := some (account.scriptHash.addressText host)
            label := account.writtenLabel
            isDefault := false
            lock := false
            key := none
            contract := none } := by
    have labelled :
        ∀ text, account.writtenLabel = some text →
          text.strlen + 1 ≤ account.nep6Bound := by
      intro text written
      rcases Option.filter_eq_some_iff.mp written with ⟨stored, -⟩
      rw [nep6Bound, stored, Option.elim_some]
      omega
    apply Nep6Account.create_of_serves serves
      ((by decide : Nep6Account.structSize ≤ 256).trans base) (by omega)
      labelled
    intro text missing
    cases missing
  have key : account.encryptedText = none := by
    rw [encryptedText, fresh.encryptedKey]
  rw [toNep6, fresh.address, fresh.isDefault, fresh.isLocked, key]
  dsimp only
  rw [created]
  refine Except.bind_eq_ok_iff.mpr ⟨_, rfl, ?_⟩
  rcases fresh.getVerificationScript_cases alloc with
    ⟨script, available, granted, given⟩ | ⟨refused, code, text, given⟩
  · have filled : script.length ≠ 0 := by
      intro empty
      rw [empty] at granted
      cases granted
    have enough : 256 + 2 * script.length ≤ account.nep6Bound := by
      rw [nep6Bound, available, Option.elim_some]
      omega
    rw [given]
    dsimp only
    rw [if_neg filled, makeContract_eq (serves.mono enough),
      writtenAccount, available]
    rfl
  · have missing : account.availableScript = none := by
      cases available : account.availableScript with
      | none => rfl
      | some script =>
          have filled := fresh.availableScript_ne_nil available
          have positive := List.length_pos_iff.mpr filled
          have granted : alloc.neocGrants script.length = true := by
            apply serves.neocGrants positive
            rw [nep6Bound, available, Option.elim_some]
            omega
          rw [refused script available] at granted
          cases granted
    rw [given, writtenAccount, missing]
    rfl

/-- The two accounts agree in what a wallet file should keep. -/
structure Agrees (host : Host) (restored account : WalletAccount curve) :
    Prop where
  address : restored.address = account.address
  scriptHash : restored.scriptHash = account.scriptHash
  label : restored.label = account.label
  isDefault : restored.isDefault = account.isDefault
  isLocked : restored.isLocked = account.isLocked
  encryptedKey : restored.encryptedKey = account.encryptedKey
  verificationScript :
    ∀ alloc script,
      restored.getVerificationScript host alloc = .ok script ↔
        account.getVerificationScript host alloc = .ok script
  isMultisig : restored.isMultisigInternal = account.isMultisigInternal
  signingThreshold :
    account.isMultisigInternal = true →
      restored.getSigningThreshold = account.getSigningThreshold
  nrParticipants :
    account.isMultisigInternal = true →
      restored.getNrParticipants = account.getNrParticipants

/-- The script of an account that was read is the one in its contract. -/
theorem contractBytes_written (fresh : Fresh derivation host account)
    {alloc : Allocator} (serves : alloc.Serves account.nep6Bound) :
    contractBytes alloc (account.writtenAccount host).contract =
      account.availableScript := by
  rw [writtenAccount]
  cases available : account.availableScript with
  | none => rfl
  | some script =>
      have room : script.length ≤ account.nep6Bound := by
        rw [nep6Bound, available, Option.elim_some]
        omega
      exact
        Base64.decodeAlloc_text (fresh.availableScript_ne_nil available)
          (serves.mono room)

/-- What getting the script of an account that was read does. -/
theorem getVerificationScript_read {nep6Account : Nep6Account}
    {alloc : Allocator} {address : CString} {scriptHash : Hash160}
    (memory : Allocator) (script : List UInt8) :
    (readAccount alloc nep6Account address scriptHash :
        WalletAccount curve).getVerificationScript host memory =
          .ok script ↔
      contractBytes alloc nep6Account.contract = some script ∧
        memory.neocGrants script.length = true := by
  rw [getVerificationScript, readAccount]
  dsimp only
  cases contractBytes alloc nep6Account.contract with
  | none =>
      exact iff_of_false nofun (fun impossible => nomatch impossible.1)
  | some content =>
      rw [scriptBuffer]
      dsimp only
      cases content with
      | nil =>
          rw [if_pos List.length_nil]
          refine iff_of_false nofun ?_
          rintro ⟨⟨⟩, granted⟩
          cases granted
      | cons byte rest =>
          rw [if_neg (by simp)]
          cases granted : memory.neocGrants (byte :: rest).length with
          | true =>
              rw [if_neg (by decide)]
              constructor
              · rintro ⟨⟩
                exact ⟨rfl, granted⟩
              · rintro ⟨⟨⟩, -⟩
                rfl
          | false =>
              rw [if_pos rfl]
              refine iff_of_false nofun ?_
              rintro ⟨⟨⟩, present⟩
              rw [granted] at present
              cases present

/--
With memory, a new account is written and read again.  The account that is
read agrees with it exactly when it is not multi-signature and its label has
a character.
-/
theorem nep6_agrees_iff
    {cipher : Cipher}
    {alloc writing reading : Allocator}
    {origin : AccountOrigin curve}
    (made : origin.construct derivation cipher host alloc = .ok account)
    (writes : writing.Serves account.nep6Bound)
    (reads : reading.Serves account.nep6Bound) :
    ∃ nep6Account restored,
      account.toNep6 host writing = .ok nep6Account ∧
        fromNep6 host reading nep6Account = .ok restored ∧
        (Agrees host restored account ↔
          account.isMultisigInternal = false ∧
            ∀ label, account.label = some label → 0 < label.strlen) := by
  have fresh := AccountOrigin.construct_fresh made
  have base : 256 ≤ account.nep6Bound := by
    rw [nep6Bound]
    omega
  have read :
      fromNep6 host reading (account.writtenAccount host) =
        .ok
          (readAccount reading (account.writtenAccount host)
            (account.scriptHash.addressText host) account.scriptHash :
              WalletAccount curve) :=
    fromNep6_of_serves fresh.initialized rfl reads
      (Nat.le_trans (by decide) base) nofun
  refine ⟨_, _, fresh.toNep6_eq writes, read, ?_⟩
  rcases fresh.label with ⟨label, labelled⟩
  have written : account.writtenLabel =
      if label.strlen ≠ 0 then some label else none := by
    rw [writtenLabel, labelled, Option.filter_some]
    simp
  constructor
  · intro agrees
    refine ⟨agrees.isMultisig.symm, ?_⟩
    intro text same
    rw [labelled] at same
    injection same with same
    subst same
    apply Nat.pos_of_ne_zero
    intro empty
    -- An empty label is not written, and the address stands in for it.
    rw [if_neg (by simp [empty])] at written
    have kept := agrees.label
    rw [labelled, readAccount, writtenAccount, written] at kept
    injection kept with kept
    have positive := account.scriptHash.strlen_addressText_pos host
    rw [kept, empty] at positive
    cases positive
  · rintro ⟨single, positive⟩
    have filled := positive label labelled
    rw [if_pos (by omega)] at written
    have bounded : label.strlen + 1 ≤ account.nep6Bound := by
      rw [nep6Bound, labelled, Option.elim_some]
      omega
    refine
      { address := fresh.address.symm, scriptHash := rfl, label := ?_,
        isDefault := fresh.isDefault.symm,
        isLocked := fresh.isLocked.symm,
        encryptedKey := fresh.encryptedKey.symm,
        verificationScript := ?_, isMultisig := single.symm,
        signingThreshold := ?_, nrParticipants := ?_ }
    · rw [readAccount, writtenAccount, written, labelled]
      change strdup reading label = some label
      rw [strdup, if_pos (reads.neocGrants (Nat.succ_pos _) bounded)]
    · intro memory script
      rw [getVerificationScript_read, contractBytes_written fresh reads,
        fresh.getVerificationScript_iff]
    · intro multisig
      rw [single] at multisig
      cases multisig
    · intro multisig
      rw [single] at multisig
      cases multisig

end

/-- The account of the private key one survives. -/
theorem nep6_agrees_accountOne :
    ∃ nep6Account restored,
      accountOne.toNep6 nep2Host .ample = .ok nep6Account ∧
        fromNep6 nep2Host .ample nep6Account = .ok restored ∧
        Agrees nep2Host restored accountOne := by
  have serves : Allocator.ample.Serves accountOne.nep6Bound :=
    Allocator.ample_serves (by decide +kernel)
  rcases nep6_agrees_iff construct_accountOne serves serves with
    ⟨nep6Account, restored, written, read, agrees⟩
  refine ⟨nep6Account, restored, written, read, agrees.mpr ⟨rfl, ?_⟩⟩
  rintro label ⟨⟩
  decide +kernel

/-- An account for the address of the private key one, as if of one of one. -/
def multisigOne : WalletAccount Transaction.baseCurve :=
  { accountOne with
    keyPair := none
    verificationScript := .null 0
    extra :=
      some
        (.multisigInfo
          { threshold := 1, nrParticipants := 1, isAddressOnly := true }) }

/-- A multi-signature account is read as one that is not. -/
theorem nep6_loses_multisig :
    ∃ account nep6Account restored,
      createMultisigWithAddress nep2Host .ample addressOne 1 1 =
          .ok (account : WalletAccount Transaction.baseCurve) ∧
        account.toNep6 nep2Host .ample = .ok nep6Account ∧
        fromNep6 nep2Host .ample nep6Account = .ok restored ∧
        account.isMultisigInternal = true ∧
        (restored : WalletAccount Transaction.baseCurve).isMultisigInternal =
          false := by
  have copied :
      copyAddress .ample addressOne = .ok addressOne := by
    decide +kernel
  have parsed :
      Hash160.fromAddress nep2Host .ample addressOne =
        .ok Transaction.baseScriptHash.reverse := by
    decide +kernel
  have labelled : makeLabel .ample addressOne = .ok addressOne := by
    decide +kernel
  have made :
      createMultisigWithAddress nep2Host .ample addressOne 1 1 =
        .ok multisigOne := by
    rw [createMultisigWithAddress, if_neg (by decide), if_neg (by decide),
      if_neg (by decide)]
    refine Except.bind_eq_ok_iff.mpr ⟨_, copied, ?_⟩
    refine Except.bind_eq_ok_iff.mpr ⟨_, parsed, ?_⟩
    rw [if_neg (by decide)]
    exact Except.bind_eq_ok_iff.mpr ⟨_, labelled, rfl⟩
  have fresh : Fresh baseDerivation nep2Host multisigOne :=
    createMultisigWithAddress_fresh made
  have serves : Allocator.ample.Serves multisigOne.nep6Bound :=
    Allocator.ample_serves (by decide +kernel)
  refine
    ⟨multisigOne, _, _, made, fresh.toNep6_eq serves,
      fromNep6_of_serves fresh.initialized rfl serves (by decide +kernel)
        nofun,
      by decide, rfl⟩

/-! ## The accounts that a NEP-6 wallet makes -/

section

variable {derivation : KeyDerivation curve} {cipher : Cipher} {host : Host}
  {alloc : Allocator} {scrypt : Nep2Params} {privateKey : Bytes 32}
  {password : CString} {label : Option CString} {isDefault : Bool}
  {nep6Account : Nep6Account}

/-- What a wallet owes to the owner of a key that it has taken. -/
structure Recovers (derivation : KeyDerivation curve) (cipher : Cipher)
    (host : Host) (privateKey : Bytes 32) (password : CString)
    (nep6Account : Nep6Account) : Prop where
  key :
    ∀ alloc : Allocator,
      alloc.Serves 1024 →
        nep6Account.decryptPrivateKey derivation cipher host alloc
            password =
          .ok privateKey
  account :
    ∀ alloc : Allocator,
      alloc.Serves 1024 →
        ∃ restored : WalletAccount curve,
          fromNep6 host alloc nep6Account = .ok restored ∧
            (∃ script,
              restored.getVerificationScript host alloc = .ok script ∧
                Hash160.fromScript host script =
                  .ok restored.scriptHash) ∧
            ∃ keyPair own,
              EcKeyPair.createFromPrivateKey derivation alloc privateKey =
                  .ok keyPair ∧
                createFromKeyPairWithLabel derivation host alloc none
                    keyPair =
                  .ok own ∧
                restored.address = own.address

/-- The script in its contract is not base64. -/
theorem contractBytes_made (memory : Allocator)
    (made :
      Nep6Wallet.makeAccount derivation cipher host alloc scrypt privateKey
          password label isDefault =
        .ok nep6Account) :
    contractBytes memory nep6Account.contract = none := by
  rcases Nep6Wallet.makeAccount_eq_ok made with
    ⟨keyPair, address, key, contract, -, -, script, rfl⟩
  have length :
      (Hex.text (Nep6Wallet.contractScript keyPair.getPublicKey) false
        false).strlen = 70 := by
    have size := keyPair.getPublicKey.property
    rw [CString.strlen, Hex.characters_text, Hex.length_digits,
      Nep6Wallet.contractScript, List.length_cons, List.length_append,
      size]
    rfl
  rw [contractBytes, script]
  exact Base64.decodeAlloc_eq_none (by rw [length]; decide)

/-- So an account that is read from it has no verification script. -/
theorem not_recovers_made
    (made :
      Nep6Wallet.makeAccount derivation cipher host alloc scrypt privateKey
          password label isDefault =
        .ok nep6Account) :
    ¬ Recovers derivation cipher host privateKey password nep6Account := by
  intro recovers
  have serves : Allocator.ample.Serves 1024 :=
    Allocator.ample_serves (by decide)
  rcases recovers.account .ample serves with
    ⟨restored, read, ⟨script, given, -⟩, -⟩
  rcases fromNep6_eq_ok read with ⟨address, scriptHash, -, -, rfl⟩
  rw [getVerificationScript_read, contractBytes_made _ made] at given
  cases given.1

/--
A key that was taken under the default parameters is decrypted again; but no
account that was added is read with the script of its key, so the owner of the
key never recovers it.
-/
theorem addAccount_never_recovers
    {wallet added : Nep6Wallet}
    (ran :
      Nep6Wallet.addAccount derivation cipher host alloc privateKey password
          label isDefault wallet =
        (.ok (), added)) :
    ∃ before nep6Account,
      added.accounts = before ++ [nep6Account] ∧
        (wallet.scrypt = Nep2.defaultParams →
          ∀ memory : Allocator,
            memory.Serves 120 →
              nep6Account.decryptPrivateKey derivation cipher host memory
                  password =
                .ok privateKey) ∧
        ¬ Recovers derivation cipher host privateKey password
          nep6Account := by
  rcases Nep6Wallet.addAccount_eq_ok ran with ⟨account, made, accounts⟩
  refine ⟨_, account, accounts, ?_, not_recovers_made made⟩
  intro standard memory serves
  rcases Nep6Wallet.makeAccount_eq_ok made with
    ⟨keyPair, address, key, contract, -, encrypted, -, rfl⟩
  rw [standard] at encrypted
  exact Nep2.decrypt_encrypt encrypted serves

end

/-- A wallet takes the private key one. -/
theorem addAccount_keyOne :
    ∃ added,
      Nep6Wallet.addAccount baseDerivation neoCipher nep2Host
          .ample privateKeyOne neoPassword none true
          Nep6Wallet.newWallet =
        (.ok (), added) := by
  have succeeds :
      (Nep6Wallet.addAccount baseDerivation neoCipher nep2Host
        .ample privateKeyOne neoPassword none true
        Nep6Wallet.newWallet).1.toBool = true := by
    decide +kernel
  rcases ran :
      Nep6Wallet.addAccount baseDerivation neoCipher nep2Host
        .ample privateKeyOne neoPassword none true
        Nep6Wallet.newWallet with
    ⟨reason | value, added⟩
  · rw [ran] at succeeds
    cases succeeds
  · exact ⟨added, rfl⟩

/-- The key is not recovered. -/
theorem keyOne_not_recovered :
    ∃ added nep6Account,
      Nep6Wallet.create .ample none none =
          .ok Nep6Wallet.newWallet ∧
        Nep6Wallet.addAccount baseDerivation neoCipher nep2Host
            .ample privateKeyOne neoPassword none true
            Nep6Wallet.newWallet =
          (.ok (), added) ∧
        added.accounts = [nep6Account] ∧
        ¬ Recovers baseDerivation neoCipher nep2Host privateKeyOne
          neoPassword nep6Account := by
  rcases addAccount_keyOne with ⟨added, ran⟩
  rcases Nep6Wallet.addAccount_eq_ok ran with ⟨account, made, accounts⟩
  have first :
      Nep6Wallet.clearDefaults account Nep6Wallet.newWallet.accounts =
        [] := by
    unfold Nep6Wallet.clearDefaults
    split
    · rfl
    · rfl
  rw [first] at accounts
  exact
    ⟨added, account, by decide +kernel, ran, accounts,
      not_recovers_made made⟩

theorem addAccount_never_recovers_keyOne :
    ∃ added before nep6Account,
      Nep6Wallet.addAccount baseDerivation neoCipher nep2Host
            .ample privateKeyOne neoPassword none true
            Nep6Wallet.newWallet =
          (.ok (), added) ∧
        added.accounts = before ++ [nep6Account] ∧
        nep6Account.decryptPrivateKey baseDerivation neoCipher nep2Host
            .ample neoPassword =
          .ok privateKeyOne ∧
        ¬ Recovers baseDerivation neoCipher nep2Host privateKeyOne
          neoPassword nep6Account := by
  rcases addAccount_keyOne with ⟨added, ran⟩
  rcases addAccount_never_recovers ran with
    ⟨before, nep6Account, accounts, decrypted, lost⟩
  exact
    ⟨added, before, nep6Account, ran, accounts,
      decrypted rfl .ample (Allocator.ample_serves (by decide)),
      lost⟩

end WalletAccount

end NeoC
