import NeoC.Foundation.Run
import NeoC.Wallet.AccountNep6

/-!
# Histories of an account

An account comes from a constructor or from a wallet file, and is then changed
by any sequence of calls, successful or not, each with its own memory.  Two
things are asked of every state that is reached.  A locked account should give
out nothing; but the lock is looked at by one function only.  And the address,
the scripts and the key of an account should belong together; but what is put
into an account from outside is not compared with what is there.
-/

namespace NeoC

open Foundation NeoVm

namespace WalletAccount

variable {curve : Curve}

/-- Where the account of a history comes from. -/
inductive Source (curve : Curve) where
  | constructed (origin : AccountOrigin curve)
  | imported (nep6Account : Nep6Account)

/-- The call that makes the account. -/
def Source.load (derivation : KeyDerivation curve) (cipher : Cipher)
    (host : Host) (alloc : Allocator) :
    Source curve → Outcome (WalletAccount curve)
  | .constructed origin => origin.construct derivation cipher host alloc
  | .imported nep6Account => fromNep6 host alloc nep6Account

/-- The calls of a history, with the memory that each of them finds. -/
inductive Operation where
  | setLabel (alloc : Allocator) (label : Option CString)
  | setDefault (isDefault : Bool)
  | lock
  | unlock
  | encrypt (alloc : Allocator) (password : CString)
      (params : Option ScryptParams)
  | decrypt (alloc : Allocator) (password : CString)
      (params : Option ScryptParams)
  | setEncryptedPrivateKey (alloc : Allocator) (encryptedKey : Buffer)

section

variable (derivation : KeyDerivation curve) (cipher : Cipher) (host : Host)

/-- Make one call. -/
def perform : Operation → Routine (WalletAccount curve) Unit
  | .setLabel alloc label => setLabel alloc label
  | .setDefault isDefault => setDefault isDefault
  | .lock => lockInternal
  | .unlock => unlockInternal
  | .encrypt alloc password params =>
      encryptPrivateKeyWithParams derivation cipher host alloc password
        params
  | .decrypt alloc password params =>
      decryptPrivateKeyWithParams derivation cipher host alloc password
        params
  | .setEncryptedPrivateKey alloc encryptedKey =>
      setEncryptedPrivateKey alloc encryptedKey

/-- The account after a call. -/
def next (account : WalletAccount curve) (operation : Operation) :
    WalletAccount curve :=
  (perform derivation cipher host operation account).2

end

/-! ## What a locked account gives out -/

section Lock

/-- No signature and no key is to be had from the account. -/
structure GivesNothing (derivation : KeyDerivation curve) (host : Host)
    (account : WalletAccount curve) : Prop where
  sign :
    ∀ alloc data, ∃ reason, account.signData alloc data = .error reason
  signHash :
    ∀ alloc hash, ∃ reason, account.signHash host alloc hash = .error reason
  exportWif :
    ∀ alloc,
      ∃ reason, account.exportWif derivation host alloc = .error reason
  signTransaction :
    ∀ alloc transaction,
      ∃ reason left,
        Transaction.sign host alloc account.toAccount transaction =
          (.error reason, left)

/-- A locked account gives out nothing. -/
def Guarded (derivation : KeyDerivation curve) (host : Host)
    (account : WalletAccount curve) : Prop :=
  account.isLocked = true → GivesNothing derivation host account

/-- The call does not lock an account that holds a key pair. -/
def LocksNoKey (derivation : KeyDerivation curve) (cipher : Cipher)
    (host : Host) (account : WalletAccount curve) :
    Operation → Prop
  | .lock => account.keyPair = none
  | .encrypt alloc password params =>
      ∃ reason left,
        encryptPrivateKeyWithParams derivation cipher host alloc password
            params account =
          (.error reason, left)
  | _ => True

variable {derivation : KeyDerivation curve} {cipher : Cipher} {host : Host}
  {account : WalletAccount curve}

theorem sign_of_keyless (keyless : account.keyPair = none)
    (alloc : Allocator) (data : Bytes 32) :
    account.sign alloc data =
      .error (.error .invalidState "Account has no key pair for signing") := by
  rw [Account.sign, keyless]

/-- Without a key pair there is nothing to give. -/
theorem givesNothing_of_keyless (keyless : account.keyPair = none) :
    GivesNothing derivation host account := by
  refine ⟨?_, ?_, ?_, ?_⟩
  · intro alloc data
    unfold signData
    split
    · exact ⟨_, rfl⟩
    · rw [keyless]
      exact ⟨_, rfl⟩
  · intro alloc hash
    rw [signHash, sign_of_keyless keyless]
    exact ⟨_, rfl⟩
  · intro alloc
    rw [exportWif]
    split
    · exact ⟨_, rfl⟩
    · rw [keyless]
      exact ⟨_, rfl⟩
  · intro alloc transaction
    rcases @Transaction.calculateHash_cases host alloc transaction with
      ⟨reason, failed⟩ | hashed
    · exact ⟨reason, _, Transaction.sign_of_failed failed _⟩
    · rcases Transaction.sign_of_hashed hashed account.toAccount with
        ⟨reason, failed⟩ | ⟨keyPair, signature, has, -⟩
      · exact ⟨reason, _, failed⟩
      · rw [keyless] at has
        cases has

/-- With a key pair, the account signs whether it is locked or not. -/
theorem not_givesNothing_of_keyPair {keyPair : EcKeyPair curve}
    (signs :
      ∀ (key : curve.PrivateKey) (hash : Bytes 32),
        (curve.ecdsaDoSign key hash).isSome = true)
    (held : account.keyPair = some keyPair) :
    ¬ GivesNothing derivation host account := by
  intro nothing
  rcases nothing.sign .ample (.items (Bytes.zero 32).val) with
    ⟨reason, failed⟩
  rcases Option.isSome_iff_exists.mp
      (signs keyPair.privateKey (Bytes.zero 32)) with
    ⟨signature, signed⟩
  rw [signData, held] at failed
  dsimp only at failed
  rw [dif_pos (Bytes.zero 32).property, Account.sign, held] at failed
  dsimp only at failed
  rw [EcKeyPair.sign, if_neg (by decide), signed] at failed
  change ecdsaSignatureToBytes .ample signature = _ at failed
  rw [ecdsaSignatureToBytes, if_pos (by decide)] at failed
  cases failed

theorem guarded_iff
    (signs :
      ∀ (key : curve.PrivateKey) (hash : Bytes 32),
        (curve.ecdsaDoSign key hash).isSome = true) :
    Guarded derivation host account ↔
      (account.isLocked = true → account.keyPair = none) := by
  constructor
  · intro guarded locked
    cases held : account.keyPair with
    | none => rfl
    | some keyPair =>
        exact
          absurd (guarded locked) (not_givesNothing_of_keyPair signs held)
  · intro keyless locked
    exact givesNothing_of_keyless (keyless locked)

/-- An account is not locked with a key when it is made. -/
theorem load_keyless {alloc : Allocator} {source : Source curve}
    (loaded :
      source.load derivation cipher host alloc = .ok account) :
    account.isLocked = true → account.keyPair = none := by
  intro locked
  cases source with
  | constructed origin =>
      rw [(AccountOrigin.construct_fresh loaded).isLocked] at locked
      cases locked
  | imported nep6Account =>
      rcases fromNep6_eq_ok loaded with ⟨address, scriptHash, -, -, rfl⟩
      rfl

/-- A call locks a key in exactly where the condition says. -/
theorem next_keyless_iff (operation : Operation)
    (keyless : account.isLocked = true → account.keyPair = none) :
    ((next derivation cipher host account operation).isLocked = true →
        (next derivation cipher host account operation).keyPair = none) ↔
      LocksNoKey derivation cipher host account operation := by
  cases operation with
  | setLabel alloc label =>
      rcases @setLabel_cases curve alloc label account with
        ⟨outcome, stored, ran⟩
      rw [next, perform, ran]
      exact iff_of_true keyless trivial
  | setDefault isDefault => exact iff_of_true keyless trivial
  | lock =>
      constructor
      · intro holds
        exact holds rfl
      · intro holds _
        exact holds
  | unlock => exact iff_of_true nofun trivial
  | encrypt alloc password params =>
      rw [next, perform, LocksNoKey]
      rcases @encryptPrivateKeyWithParams_cases curve derivation cipher host
          alloc password params account with
        ⟨reason, failed⟩ | ⟨reason, failed⟩ | ⟨keyPair, text, held, -, ran⟩
      · rw [failed]
        exact iff_of_true keyless ⟨_, _, rfl⟩
      · rw [failed]
        exact iff_of_true keyless ⟨_, _, rfl⟩
      · rw [ran]
        refine iff_of_false ?_ ?_
        · intro holds
          have none := holds rfl
          change account.keyPair = _ at none
          rw [held] at none
          cases none
        · rintro ⟨reason, left, impossible⟩
          cases impossible
  | decrypt alloc password params =>
      rw [next, perform]
      rcases @decryptPrivateKeyWithParams_cases curve derivation cipher host
          alloc password params account with
        ⟨reason, failed⟩ | ⟨content, privateKey, keyPair, -, -, -, ran⟩
      · rw [failed]
        exact iff_of_true keyless trivial
      · rw [ran]
        exact iff_of_true nofun trivial
  | setEncryptedPrivateKey alloc encryptedKey =>
      rcases @setEncryptedPrivateKey_cases curve alloc encryptedKey
          account with
        ⟨outcome, stored, ran⟩
      rw [next, perform, ran]
      exact iff_of_true keyless trivial

/--
Every locked account of a history gives out nothing exactly when no call of
the history locks an account that holds a key pair.
-/
theorem locked_gives_nothing_iff
    {alloc : Allocator}
    {source : Source curve}
    (signs :
      ∀ (key : curve.PrivateKey) (hash : Bytes 32),
        (curve.ecdsaDoSign key hash).isSome = true)
    (loaded : source.load derivation cipher host alloc = .ok account)
    (operations : List Operation) :
    (Guarded derivation host account ∧
        Along (next derivation cipher host)
          (fun account operation =>
            Guarded derivation host
              (next derivation cipher host account operation))
          account operations) ↔
      Along (next derivation cipher host)
        (LocksNoKey derivation cipher host) account operations := by
  have start := load_keyless loaded
  have along :
      Along (next derivation cipher host)
          (fun account operation =>
            Guarded derivation host
              (next derivation cipher host account operation))
          account operations ↔
        Along (next derivation cipher host)
          (LocksNoKey derivation cipher host) account operations :=
    along_iff_of_invariant
      (fun account : WalletAccount curve =>
        account.isLocked = true → account.keyPair = none)
      (fun account operation keyless allowed =>
        (next_keyless_iff operation keyless).mpr allowed)
      (fun account operation keyless =>
        (guarded_iff signs).trans (next_keyless_iff operation keyless))
      start operations
  constructor
  · rintro ⟨-, guarded⟩
    exact along.mp guarded
  · intro allowed
    exact ⟨(guarded_iff signs).mpr start, along.mpr allowed⟩

end Lock

/-- The curve signs everything, with one signature. -/
theorem baseCurve_signs (key : Transaction.baseCurve.PrivateKey)
    (hash : Bytes 32) :
    (Transaction.baseCurve.ecdsaDoSign key hash).isSome = true :=
  rfl

/-- Locked, the account of the private key one still signs. -/
theorem accountOne_signs_locked :
    ∃ account locked signature,
      (AccountOrigin.fromKeyPair none Transaction.baseKeyPair).construct
            baseDerivation neoCipher nep2Host .ample =
          .ok account ∧
        lockInternal account = (.ok (), locked) ∧
        locked.isLocked = true ∧
        locked.signData .ample (.items (Bytes.zero 32).val) =
          .ok signature := by
  have signed :
      ((lockInternal accountOne).2.signData .ample
        (.items (Bytes.zero 32).val)).toBool = true := by
    decide +kernel
  rcases exists_of_toBool signed with ⟨signature, given⟩
  exact ⟨_, _, signature, construct_accountOne, rfl, rfl, given⟩

/-- An account that is locked while it has only its address gives nothing. -/
theorem locked_gives_nothing_address :
    ∃ account : WalletAccount Transaction.baseCurve,
      (Source.constructed (.fromAddress addressOne)).load baseDerivation
            neoCipher nep2Host .ample =
          .ok account ∧
        Along (next baseDerivation neoCipher nep2Host)
          (fun account operation =>
            Guarded baseDerivation nep2Host
              (next baseDerivation neoCipher nep2Host account operation))
          account [.lock] := by
  have made :
      (createFromAddress nep2Host .ample addressOne :
        Outcome (WalletAccount Transaction.baseCurve)).toBool = true := by
    decide +kernel
  rcases exists_of_toBool made with ⟨account, created⟩
  refine ⟨account, created, ?_⟩
  have loaded :
      (Source.constructed (.fromAddress addressOne)).load baseDerivation
          neoCipher nep2Host .ample =
        .ok account :=
    created
  have keyless : account.keyPair = none :=
    (@createFromAddress_fresh _ baseDerivation _ _ _ _ created).2.2.1
  exact
    ((locked_gives_nothing_iff baseCurve_signs loaded [.lock]).mpr
      ⟨keyless, trivial⟩).2

/-! ## What belongs together -/

section Consistency

/-- The address, the scripts and the key pair belong to the script hash. -/
structure Consistent (host : Host) (account : WalletAccount curve) :
    Prop where
  address :
    ∃ address,
      account.address = some address ∧
        ∀ alloc : Allocator,
          alloc.Serves 64 →
            account.scriptHash.toAddress host alloc addressLength =
              .ok address
  scripts :
    ∀ alloc script,
      account.getVerificationScript host alloc = .ok script →
        Hash160.fromScript host script = .ok account.scriptHash
  owner :
    ∀ keyPair,
      account.keyPair = some keyPair →
        keyPair.ownHash host = .ok account.scriptHash

/-- What keeps an account consistent when its cache is cleared. -/
structure Sound (host : Host) (account : WalletAccount curve) : Prop where
  initialized : host.cryptoInitialized = true
  address : account.address = some (account.scriptHash.addressText host)
  cached :
    ∀ script,
      account.verificationScript = .items script →
        script ≠ [] →
          Hash160.fromScript host script = .ok account.scriptHash
  multisig :
    ∀ multisig,
      account.extra = some (.multisig multisig) →
        Hash160.fromScript host multisig.verificationScript =
          .ok account.scriptHash
  owner :
    ∀ keyPair,
      account.keyPair = some keyPair →
        keyPair.ownHash host = .ok account.scriptHash

/-- The contract of an account that is read belongs to its address. -/
def Source.Matching (host : Host) (alloc : Allocator) :
    Source curve → Prop
  | .constructed _ => True
  | .imported nep6Account =>
      ∀ address scriptHash script,
        nep6Account.address = some address →
          Hash160.fromAddress host alloc address = .ok scriptHash →
            contractBytes alloc nep6Account.contract = some script →
              script ≠ [] →
                Hash160.fromScript host script = .ok scriptHash

/-- A key that the call decrypts is the one of the account. -/
def FindsOwnKey (derivation : KeyDerivation curve) (cipher : Cipher)
    (host : Host) (account : WalletAccount curve) : Operation → Prop
  | .decrypt alloc password params =>
      ∀ content privateKey keyPair,
        account.encryptedKey = .items content →
          Nep2.decrypt derivation cipher host alloc
                (CString.ofBuffer content) password
                (params.map ScryptParams.toNep2) =
              .ok privateKey →
            EcKeyPair.createFromPrivateKey derivation alloc privateKey =
                .ok keyPair →
              keyPair.ownHash host = .ok account.scriptHash
  | _ => True

variable {derivation : KeyDerivation curve} {cipher : Cipher} {host : Host}
  {account : WalletAccount curve}

theorem Sound.made_scripts (sound : Sound host account)
    {alloc : Allocator} {script : List UInt8}
    (made : makeVerificationScript host alloc account = .ok script) :
    Hash160.fromScript host script = .ok account.scriptHash := by
  unfold makeVerificationScript at made
  split at made
  · rename_i multisig kind
    split at made
    · cases made
    · injection made with same
      rw [← same]
      exact sound.multisig multisig kind
  · cases made
  · split at made
    · rename_i keyPair held
      rw [ScriptHelper.createSingleSigVerification_eq_ok made]
      exact sound.owner keyPair held
    · cases made

theorem Sound.consistent (sound : Sound host account) :
    Consistent host account := by
  refine ⟨⟨_, sound.address, ?_⟩, ?_, sound.owner⟩
  · intro alloc serves
    exact Hash160.toAddress_eq sound.initialized serves (by decide)
  · intro alloc script given
    unfold getVerificationScript at given
    split at given
    · exact sound.made_scripts given
    · rename_i content cache
      split at given
      · exact sound.made_scripts given
      rename_i filled
      split at given
      · cases given
      · injection given with same
        subst same
        apply sound.cached content cache
        rintro rfl
        exact filled rfl

theorem Fresh.sound (fresh : Fresh derivation host account) :
    Sound host account where
  initialized := fresh.initialized
  address := fresh.address
  cached script cache _ := (fresh.cached script cache).2
  multisig multisig kind := (fresh.multisig multisig kind).2
  owner := fresh.owned

/-- An account is consistent at the start when its source matches. -/
theorem load_consistent_iff {alloc : Allocator} {source : Source curve}
    (loaded : source.load derivation cipher host alloc = .ok account) :
    (Consistent host account ↔ source.Matching host alloc) ∧
      (source.Matching host alloc → Sound host account) := by
  cases source with
  | constructed origin =>
      have sound := (AccountOrigin.construct_fresh loaded).sound
      exact ⟨iff_of_true sound.consistent trivial, fun _ => sound⟩
  | imported nep6Account =>
      rcases fromNep6_eq_ok loaded with
        ⟨address, scriptHash, has, parsed, rfl⟩
      rcases Hash160.fromAddress_eq_ok parsed with ⟨text, initialized⟩
      have sound :
          (Source.imported nep6Account : Source curve).Matching host
              alloc →
            Sound host
              (readAccount alloc nep6Account address scriptHash :
                WalletAccount curve) := by
        intro matching
        refine
          { initialized, address := congrArg some text, cached := ?_,
            multisig := nofun, owner := nofun }
        intro script cache filled
        rw [readAccount] at cache
        dsimp only at cache
        cases found : contractBytes alloc nep6Account.contract with
        | none =>
            rw [found] at cache
            cases cache
        | some decoded =>
            rw [found] at cache
            injection cache with same
            subst same
            exact matching address scriptHash decoded has parsed found filled
      refine ⟨⟨?_, fun matching => (sound matching).consistent⟩, sound⟩
      intro consistent other hash script same parsed' found filled
      rw [has] at same
      injection same with same
      subst same
      rw [parsed] at parsed'
      injection parsed' with same
      subst same
      apply consistent.scripts .ample script
      rw [getVerificationScript_read]
      refine ⟨found, ?_⟩
      have bounded : script.length ≤ ptrdiffMax := by
        unfold contractBytes at found
        split at found
        · cases found
        split at found
        · cases found
        · exact Base64.length_decodeAlloc found
      exact
        (Allocator.ample_serves bounded).neocGrants
          (List.length_pos_iff.mpr filled) le_rfl

/-- A buffer that was cleared holds nothing. -/
theorem clearBuffer_ne_items (buffer : Buffer) (content : List UInt8) :
    clearBuffer buffer ≠ .items content := by
  cases buffer with
  | null count => nofun
  | items other => nofun

/-- Clearing the key and the cache keeps an account sound. -/
theorem Sound.stripped (sound : Sound host account) :
    Sound host account.stripped where
  initialized := sound.initialized
  address := sound.address
  cached _ cache _ := absurd cache (clearBuffer_ne_items _ _)
  multisig := sound.multisig
  owner := sound.owner

/-- A call keeps an account consistent exactly where the condition says. -/
theorem next_consistent_iff (sound : Sound host account)
    (operation : Operation) :
    (Consistent host (next derivation cipher host account operation) ↔
        FindsOwnKey derivation cipher host account operation) ∧
      (FindsOwnKey derivation cipher host account operation →
        Sound host (next derivation cipher host account operation)) := by
  have kept
      (still : Sound host (next derivation cipher host account operation))
      (allowed : FindsOwnKey derivation cipher host account operation) :
      (Consistent host (next derivation cipher host account operation) ↔
          FindsOwnKey derivation cipher host account operation) ∧
        (FindsOwnKey derivation cipher host account operation →
          Sound host (next derivation cipher host account operation)) :=
    ⟨iff_of_true still.consistent allowed, fun _ => still⟩
  cases operation with
  | setLabel alloc label =>
      refine kept ?_ trivial
      rcases @setLabel_cases curve alloc label account with
        ⟨outcome, stored, ran⟩
      rw [next, perform, ran]
      exact { sound with }
  | setDefault isDefault => exact kept { sound with } trivial
  | lock => exact kept { sound with } trivial
  | unlock => exact kept { sound with } trivial
  | encrypt alloc password params =>
      refine kept ?_ trivial
      rw [next, perform]
      rcases @encryptPrivateKeyWithParams_cases curve derivation cipher host
          alloc password params account with
        ⟨reason, failed⟩ | ⟨reason, failed⟩ | ⟨keyPair, text, -, -, ran⟩
      · rw [failed]
        exact sound
      · rw [failed]
        exact sound.stripped
      · rw [ran]
        exact { sound.stripped with }
  | decrypt alloc password params =>
      rcases @decryptPrivateKeyWithParams_cases curve derivation cipher host
          alloc password params account with
        ⟨reason, failed⟩ |
          ⟨content, privateKey, keyPair, stored, decrypted, created, ran⟩
      · have unable :
            FindsOwnKey derivation cipher host account
              (.decrypt alloc password params) := by
          intro content privateKey keyPair stored decrypted created
          have ran :=
            decryptPrivateKeyWithParams_eq stored decrypted created
          rw [failed] at ran
          cases ran
        refine kept ?_ unable
        rw [next, perform, failed]
        exact sound
      · rw [next, perform, ran]
        have finds :
            FindsOwnKey derivation cipher host account
                (.decrypt alloc password params) ↔
              keyPair.ownHash host = .ok account.scriptHash := by
          constructor
          · intro found
            exact found content privateKey keyPair stored decrypted created
          · intro own other key pair stored' decrypted' created'
            rw [stored] at stored'
            injection stored' with same
            subst same
            rw [decrypted] at decrypted'
            injection decrypted' with same
            subst same
            rw [created] at created'
            injection created' with same
            rw [← same]
            exact own
        have still :
            keyPair.ownHash host = .ok account.scriptHash →
              Sound host
                { account with
                  keyPair := some keyPair
                  isLocked := false } := by
          intro own
          refine { sound with owner := ?_ }
          rintro pair ⟨⟩
          exact own
        refine ⟨⟨?_, ?_⟩, fun found => still (finds.mp found)⟩
        · intro consistent
          exact finds.mpr (consistent.owner keyPair rfl)
        · intro found
          exact (still (finds.mp found)).consistent
  | setEncryptedPrivateKey alloc encryptedKey =>
      refine kept ?_ trivial
      rcases @setEncryptedPrivateKey_cases curve alloc encryptedKey
          account with
        ⟨outcome, stored, ran⟩
      rw [next, perform, ran]
      exact { sound with }

/--
Every account of a history is consistent exactly when the contract it was
read with belongs to its address and every key that is decrypted is its own.
-/
theorem consistent_iff
    {alloc : Allocator}
    {source : Source curve}
    (loaded : source.load derivation cipher host alloc = .ok account)
    (operations : List Operation) :
    (Consistent host account ∧
        Along (next derivation cipher host)
          (fun account operation =>
            Consistent host
              (next derivation cipher host account operation))
          account operations) ↔
      source.Matching host alloc ∧
        Along (next derivation cipher host)
          (FindsOwnKey derivation cipher host) account operations := by
  rcases load_consistent_iff loaded with ⟨start, sound⟩
  have along (holds : Sound host account) :
      Along (next derivation cipher host)
          (fun account operation =>
            Consistent host
              (next derivation cipher host account operation))
          account operations ↔
        Along (next derivation cipher host)
          (FindsOwnKey derivation cipher host) account operations :=
    along_iff_of_invariant (Sound host)
      (fun account operation held =>
        (next_consistent_iff held operation).2)
      (fun account operation held =>
        (next_consistent_iff held operation).1)
      holds operations
  constructor
  · rintro ⟨consistent, later⟩
    have matching := start.mp consistent
    exact ⟨matching, (along (sound matching)).mp later⟩
  · rintro ⟨matching, later⟩
    exact ⟨start.mpr matching, (along (sound matching)).mpr later⟩

end Consistency

/-- The key in an encrypted text is found under its password. -/
theorem decrypt_encryptedOne :
    Nep2.decrypt baseDerivation neoCipher nep2Host .ample
        (CString.ofBuffer encryptedOne.characters) neoPassword none =
      .ok privateKeyOne := by
  decide +kernel

/-- Another address, of the script hash read backwards. -/
def addressOther : CString :=
  CString.ofString "NXVTCbJAfDYk34mWBhfeYuR4aLdg9Rkjfe"

/-- The account of that address. -/
def accountOther : WalletAccount Transaction.baseCurve where
  scriptHash := Transaction.baseScriptHash
  keyPair := none
  label := some addressOther
  address := some addressOther
  isLocked := false
  isDefault := false
  encryptedKey := .null 0
  verificationScript := .null 0
  extra := none

/-- The account is made from its address. -/
theorem construct_accountOther :
    (AccountOrigin.fromAddress addressOther).construct baseDerivation
        neoCipher nep2Host .ample =
      .ok accountOther := by
  have copied :
      copyAddress .ample addressOther = .ok addressOther := by
    decide +kernel
  have parsed :
      Hash160.fromAddress nep2Host .ample addressOther =
        .ok Transaction.baseScriptHash := by
    decide +kernel
  have labelled :
      makeLabel .ample addressOther = .ok addressOther := by
    decide +kernel
  rw [AccountOrigin.construct, createFromAddress, if_neg (by decide)]
  refine Except.bind_eq_ok_iff.mpr ⟨_, copied, ?_⟩
  refine Except.bind_eq_ok_iff.mpr ⟨_, parsed, ?_⟩
  exact Except.bind_eq_ok_iff.mpr ⟨_, labelled, rfl⟩

/-- A key that is not the one of the account is put into it. -/
theorem accountOther_takes_key :
    ∃ account found opened,
      (AccountOrigin.fromAddress addressOther).construct baseDerivation
            neoCipher nep2Host .ample =
          .ok account ∧
        setEncryptedPrivateKey .ample
            (.items encryptedOne.characters) account =
          (.ok (), found) ∧
        decryptPrivateKeyWithParams baseDerivation neoCipher nep2Host
            .ample neoPassword none found =
          (.ok (), opened) ∧
        ¬ Consistent nep2Host opened := by
  have stored :
      setEncryptedPrivateKey .ample
          (.items encryptedOne.characters) accountOther =
        (.ok (),
          { accountOther with
            encryptedKey := .items encryptedOne.characters }) := by
    rw [setEncryptedPrivateKey, if_neg (by decide +kernel),
      if_neg (by decide +kernel)]
    rfl
  refine
    ⟨_, _, _, construct_accountOther, stored,
      decryptPrivateKeyWithParams_eq rfl decrypt_encryptedOne rfl, ?_⟩
  intro consistent
  have own := consistent.owner Transaction.baseKeyPair rfl
  revert own
  decide +kernel

/-- The key that belongs to an account is put into it. -/
theorem consistent_accountOne :
    Along (next baseDerivation neoCipher nep2Host)
      (fun account operation =>
        Consistent nep2Host
          (next baseDerivation neoCipher nep2Host account operation))
      accountOne
      [.setEncryptedPrivateKey .ample
          (.items encryptedOne.characters),
        .decrypt .ample neoPassword none] := by
  have loaded :
      (Source.constructed
            (.fromKeyPair none Transaction.baseKeyPair)).load
          baseDerivation neoCipher nep2Host .ample =
        .ok accountOne :=
    construct_accountOne
  have own :
      Along (next baseDerivation neoCipher nep2Host)
        (FindsOwnKey baseDerivation neoCipher nep2Host) accountOne
        [.setEncryptedPrivateKey .ample
            (.items encryptedOne.characters),
          .decrypt .ample neoPassword none] := by
    refine ⟨trivial, ?_, trivial⟩
    intro content privateKey keyPair stored decrypted created
    have state :
        next baseDerivation neoCipher nep2Host accountOne
            (.setEncryptedPrivateKey .ample
              (.items encryptedOne.characters)) =
          { accountOne with
            encryptedKey := .items encryptedOne.characters } := by
      rw [next, perform, setEncryptedPrivateKey,
        if_neg (by decide +kernel), if_neg (by decide +kernel)]
      rfl
    rw [state] at stored ⊢
    have same := Slice.items.inj stored
    subst same
    change Nep2.decrypt _ _ _ _ _ _ none = _ at decrypted
    rw [decrypt_encryptedOne] at decrypted
    have same := Except.ok.inj decrypted
    subst same
    have again :
        EcKeyPair.createFromPrivateKey baseDerivation .ample
            privateKeyOne =
          .ok Transaction.baseKeyPair := by
      rfl
    rw [again] at created
    have same := Except.ok.inj created
    rw [← same]
    decide +kernel
  exact ((consistent_iff loaded _).mpr ⟨trivial, own⟩).2

end WalletAccount

end NeoC
