import NeoC.Crypto.AddressInversion
import NeoC.Crypto.Bip39Seed
import NeoC.Wallet.AccountOrigin

/-!
# Accounts with a mnemonic

An account with a mnemonic is made from the words and a password: the private
key is the SHA-256 of the seed that belongs to them.  The account keeps both
texts, and a copy is made by deriving everything again.

The account that is kept inside is the one that the wallet makes of the key
pair.  Whoever has the mnemonic and the password can make it again.
-/

namespace NeoC.Bip39

open Foundation
open Foundation.BitString

/-! ## Mnemonics and seeds -/

/-- `neoc_bip39_mnemonic_to_seed_len`. -/
def mnemonicToSeedLen (derive : Pbkdf2) (alloc : Allocator)
    (mnemonic : Option CString) (passphrase : Option CString)
    (seedLen : Nat) : Outcome (List UInt8) :=
  if seedLen < 64 then
    .error (.error .invalidArgument "Seed buffer must be at least 64 bytes")
  else
    pbkdf2 derive alloc mnemonic passphrase seedLen

/-- `RAND_bytes`; `none` is a result other than 1. -/
abbrev Random :=
  (size : Nat) → Option (Bytes size)

/-- `neoc_bip39_generate_mnemonic`. -/
def generateMnemonic (host : Host) (alloc : Allocator) (random : Random)
    (strength : Nat) (language : Language) : Outcome CString :=
  let entropyBytes := strength / 8
  if entropyBytes < 16 ∨ entropyBytes > 32 ∨ entropyBytes % 4 ≠ 0 then
    .error (.error .invalidArgument "Invalid entropy strength")
  else if alloc.neocGrants entropyBytes = false then
    .error (.error .outOfMemory "Failed to allocate entropy")
  else
    match random entropyBytes with
    | none => .error (.error .crypto "Failed to generate random bytes")
    | some entropy =>
        mnemonicFromEntropy host alloc (.items entropy.val) language

end NeoC.Bip39

namespace NeoC

open Foundation
open Foundation.BitString
open Bip39

/-- A `neoc_bip39_account_t`. -/
structure Bip39Account (curve : Curve) where
  baseAccount : WalletAccount curve
  mnemonic : Option CString
  mnemonicLength : Nat
  wordCount : Int
  password : Option CString
  isPasswordProtected : Bool

namespace Bip39Account

variable {curve : Curve}

/-- `sizeof(neoc_bip39_account_t)`. -/
def structSize : Nat := 48

/-- `strength_from_word_count`. -/
def strengthFromWordCount (wordCount : Int) : Nat :=
  if wordCount = 12 then 128
  else if wordCount = 15 then 160
  else if wordCount = 18 then 192
  else if wordCount = 21 then 224
  else if wordCount = 24 then 256
  else 0

/-- The loop of `count_words`: `count++` for every space. -/
def countLoop : List UInt8 → Int → Outcome Int
  | [], count => .ok count
  | character :: rest, count =>
      if character = 0x20 then
        if count = 0x7FFFFFFF then .error .signedOverflow
        else countLoop rest (count + 1)
      else
        countLoop rest count

/-- `count_words`. -/
def countWords (mnemonic : Option CString) : Outcome Int :=
  match mnemonic with
  | none => .ok 0
  | some mnemonic =>
      if mnemonic.characters = [] then .ok 0
      else countLoop mnemonic.characters 1

/-- The copy of a password that is not empty. -/
def copyPassword (alloc : Allocator) (password : Option CString) :
    Outcome (Option CString) :=
  match password with
  | none => .ok none
  | some password =>
      if password.characters = [] then .ok none
      else
        match WalletAccount.strdup alloc password with
        | none => .error (.error .outOfMemory "Failed to copy password")
        | some copy => .ok (some copy)

/-- `password && password[0] != '\0'`. -/
def protects (password : Option CString) : Bool :=
  match password with
  | none => false
  | some password => password.characters ≠ []

/-- The outside world of the functions below. -/
structure World (curve : Curve) where
  derivation : KeyDerivation curve
  host : Host
  derive : Pbkdf2

variable (world : World curve) (alloc : Allocator)

/-- `build_base_account_from_seed`. -/
def buildBaseAccountFromSeed (password mnemonic : Option CString)
    (wordCount : Int) (passwordProtected : Bool) :
    Outcome (Bip39Account curve) :=
  match mnemonic with
  | none => .error (.error .invalidArgument "Invalid arguments")
  | some mnemonic => do
      if (← validateMnemonic world.host alloc (some mnemonic) .english) =
          false then
        .error (.error .invalidArgument "Invalid BIP-39 mnemonic")
      else do
        let derivedWordCount ← countWords (some mnemonic)
        let seed ←
          mnemonicToSeedLen world.derive alloc (some mnemonic)
            (some (password.getD (CString.ofBuffer []))) 64
        let privateKey ← world.host.sha256 seed
        let keyPair ←
          EcKeyPair.createFromPrivateKey world.derivation alloc privateKey
        let baseAccount ←
          WalletAccount.createFromKeyPairWithLabel world.derivation
            world.host alloc none keyPair
        if alloc.neocGrants structSize = false then
          .error (.error .outOfMemory "Failed to allocate bip39 account")
        else
          match WalletAccount.strdup alloc mnemonic with
          | none => .error (.error .outOfMemory "Failed to copy mnemonic")
          | some copy => do
              let password ← copyPassword alloc password
              .ok
                { baseAccount
                  mnemonic := some copy
                  mnemonicLength := mnemonic.strlen
                  wordCount :=
                    if wordCount = 0 then derivedWordCount else wordCount
                  password
                  isPasswordProtected := passwordProtected }

/-- `neoc_bip39_account_create`. -/
def create (random : Random) (password : Option CString) (wordCount : Int) :
    Outcome (Bip39Account curve) :=
  if strengthFromWordCount wordCount = 0 then
    .error (.error .invalidArgument "Unsupported word count")
  else do
    let mnemonic ←
      generateMnemonic world.host alloc random
        (strengthFromWordCount wordCount) .english
    buildBaseAccountFromSeed world alloc password (some mnemonic) wordCount
      (protects password)

/-- `neoc_bip39_account_create_random`. -/
def createRandom (random : Random) (wordCount : Int) :
    Outcome (Bip39Account curve) :=
  create world alloc random none wordCount

/-- `neoc_bip39_account_from_mnemonic`. -/
def fromMnemonic (password mnemonic : Option CString) :
    Outcome (Bip39Account curve) :=
  buildBaseAccountFromSeed world alloc password mnemonic 0
    (protects password)

/-- `neoc_bip39_account_from_mnemonic_no_password`. -/
def fromMnemonicNoPassword (mnemonic : Option CString) :
    Outcome (Bip39Account curve) :=
  fromMnemonic world alloc (some (CString.ofBuffer [])) mnemonic

/-- `neoc_bip39_account_copy`. -/
def copy (source : Bip39Account curve) : Outcome (Bip39Account curve) :=
  buildBaseAccountFromSeed world alloc
    (some (source.password.getD (CString.ofBuffer []))) source.mnemonic
    source.wordCount source.isPasswordProtected

/-- `neoc_account_get_address_copy`. -/
def getAddressCopy (alloc : Allocator)
    (account : WalletAccount curve) : Outcome CString :=
  match account.address with
  | none =>
      .error (.error .invalidState "Account has no address")
  | some address =>
      match WalletAccount.strdup alloc address with
      | none => .error (.error .outOfMemory "Failed to allocate address")
      | some copy => .ok copy

/-- `neoc_bip39_account_get_address`. -/
def getAddress (account : Bip39Account curve) : Outcome CString :=
  getAddressCopy alloc account.baseAccount

/-- The two mnemonics are both missing or the same text. -/
def sameMnemonic (first second : Option CString) : Bool :=
  match first, second with
  | none, none => true
  | some first, some second => first.characters = second.characters
  | _, _ => false

/-- `neoc_bip39_account_equals`. -/
def equals (account1 account2 : Bip39Account curve) : Bool :=
  if account1.wordCount ≠ account2.wordCount then false
  else if sameMnemonic account1.mnemonic account2.mnemonic = false then false
  else
    match account1.getAddress alloc, account2.getAddress alloc with
    | .ok addr1, .ok addr2 => addr1.characters = addr2.characters
    | _, _ => false

/-! ## Counting words -/

theorem countLoop_eq_ok {text : List UInt8} {count total : Int}
    (counted : countLoop text count = .ok total) :
    total = count + text.count 0x20 := by
  induction text generalizing count with
  | nil =>
      injection counted with same
      rw [← same, List.count_nil, Nat.cast_zero, add_zero]
  | cons character rest induction =>
      rw [countLoop] at counted
      split at counted
      · rename_i space
        split at counted
        · cases counted
        · rw [induction counted, space, List.count_cons_self]
          push_cast
          ring
      · rename_i letter
        rw [induction counted, List.count_cons_of_ne letter]

/-- The words that are counted are one more than the spaces. -/
theorem countWords_eq_ok {mnemonic : CString} {count : Int}
    (written : mnemonic.characters ≠ [])
    (counted : countWords (some mnemonic) = .ok count) :
    count = mnemonic.characters.count 0x20 + 1 := by
  unfold countWords at counted
  dsimp only at counted
  rw [if_neg written] at counted
  rw [countLoop_eq_ok counted, add_comm]

/-! ## What an account is made from -/

/-- A password that is not kept if it is empty. -/
def kept (password : Option CString) : Option CString :=
  password.filter fun password => password.characters ≠ []

theorem kept_kept (password : Option CString) :
    kept (kept password) = kept password := by
  rw [kept, kept, Option.filter_filter]
  simp

/-- A missing password and an empty one are the same. -/
theorem getD_kept (password : Option CString) :
    ((kept password).getD (CString.ofBuffer [])).characters =
      (password.getD (CString.ofBuffer [])).characters := by
  cases password with
  | none => rfl
  | some password =>
      rw [kept, Option.filter_some]
      split
      · rfl
      · rename_i empty
        rw [decide_eq_true_eq, not_not] at empty
        exact empty.symm

theorem kept_getD (password : Option CString) :
    kept (some (password.getD (CString.ofBuffer []))) = kept password := by
  cases password with
  | none => rfl
  | some password => rfl

theorem protects_eq (password : Option CString) :
    protects password = (kept password).isSome := by
  cases password with
  | none => rfl
  | some password =>
      rw [kept, Option.filter_some, protects]
      split <;> simp_all

/-- A mnemonic whose words spell an entropy and its checksum. -/
def Accepted (host : Host) (mnemonic : CString) : Prop :=
  ∃ entropy indexes,
    ValidLength entropy ∧
      pieces 0x20 mnemonic.characters = indexes.map wordOf ∧
      Spells host indexes entropy

/-- The account that belongs to a mnemonic and a password. -/
structure Grounded (world : World curve) (password : Option CString)
    (mnemonic : CString) (baseAccount : WalletAccount curve) : Prop where
  initialized : world.host.cryptoInitialized = true
  accepted : Accepted world.host mnemonic
  key :
    ∃ seed keyPair alloc alloc',
      world.derive
            (passed mnemonic.characters (intOf mnemonic.strlen))
            (intOf mnemonic.strlen)
            (passed (saltOf (some (password.getD (CString.ofBuffer []))))
              (intOf
                (saltOf
                  (some (password.getD (CString.ofBuffer [])))).length))
            (intOf
              (saltOf (some (password.getD (CString.ofBuffer [])))).length)
            2048 (intOf 64) =
          some seed ∧
        EcKeyPair.createFromPrivateKey world.derivation alloc
            (world.host.sha256Digest seed) =
          .ok keyPair ∧
        WalletAccount.createFromKeyPairWithLabel world.derivation world.host
            alloc' none keyPair =
          .ok baseAccount

/-- The account with the texts it was made from. -/
def assemble (baseAccount : WalletAccount curve) (mnemonic : CString)
    (wordCount : Int) (password : Option CString)
    (isPasswordProtected : Bool) : Bip39Account curve where
  baseAccount := baseAccount
  mnemonic := some mnemonic
  mnemonicLength := mnemonic.strlen
  wordCount := wordCount
  password := kept password
  isPasswordProtected := isPasswordProtected

/-- More memory than the largest request on the way to an account. -/
def needed (password : Option CString) (mnemonic : CString) : Nat :=
  (password.getD (CString.ofBuffer [])).strlen + mnemonic.strlen + 256

section Making

variable {world : World curve} {alloc : Allocator}
variable {password : Option CString} {mnemonic : CString}
variable {baseAccount : WalletAccount curve}

/-- Only the salt depends on the password. -/
theorem Grounded.kept
    (grounded : Grounded world password mnemonic baseAccount) :
    Grounded world (kept password) mnemonic baseAccount := by
  refine ⟨grounded.initialized, grounded.accepted, ?_⟩
  have salt :
      saltOf (some ((Bip39Account.kept password).getD (CString.ofBuffer []))) =
        saltOf (some (password.getD (CString.ofBuffer []))) := by
    simp only [saltOf, getD_kept]
  rw [salt]
  exact grounded.key

/-- A text that is found valid is the sentence of an entropy. -/
theorem accepted_of_valid
    (validated :
      validateMnemonic world.host alloc (some mnemonic) .english =
        .ok true) :
    world.host.cryptoInitialized = true ∧ Accepted world.host mnemonic := by
  rw [validateMnemonic] at validated
  split at validated
  · rename_i entropy accepted
    rcases mnemonicToEntropy_eq_ok_iff.mp accepted with
      ⟨-, initialized, -, proper, indexes, cut, spelled⟩
    exact ⟨initialized, entropy, indexes, proper, cut, spelled⟩
  · cases validated
  · cases validated

/-- A seed is what PBKDF2 makes of the two texts. -/
theorem pbkdf2_of_ok {seed : List UInt8} {passphrase : Option CString}
    (derived :
      mnemonicToSeedLen world.derive alloc (some mnemonic) passphrase 64 =
        .ok seed) :
    world.derive (passed mnemonic.characters (intOf mnemonic.strlen))
        (intOf mnemonic.strlen)
        (passed (saltOf passphrase) (intOf (saltOf passphrase).length))
        (intOf (saltOf passphrase).length) 2048 (intOf 64) =
      some seed := by
  rw [mnemonicToSeedLen, if_neg (by decide), pbkdf2] at derived
  dsimp only at derived
  rw [if_neg (by decide)] at derived
  split at derived
  · cases derived
  split at derived
  · cases derived
  · rename_i found
    injection derived with same
    rw [found, same]

theorem copyPassword_eq_ok {copy : Option CString}
    (copied : copyPassword alloc password = .ok copy) :
    copy = kept password := by
  cases password with
  | none =>
      injection copied with same
      exact same.symm
  | some password =>
      rw [copyPassword] at copied
      rw [kept, Option.filter_some]
      split at copied
      · rename_i empty
        injection copied with same
        rw [if_neg (by simp [empty]), same]
      · rename_i some
        rw [if_pos (by simp [some])]
        split at copied
        · cases copied
        · rename_i duplicated
          injection copied with same
          rw [← same, WalletAccount.strdup_eq_some duplicated]

theorem strdup_eq {text : CString} (serves : alloc.Serves (text.strlen + 1)) :
    WalletAccount.strdup alloc text = some text := by
  rw [WalletAccount.strdup,
    if_pos (serves.neocGrants (Nat.succ_pos _) le_rfl)]

/-- With memory, a password is copied. -/
theorem copyPassword_eq
    (serves :
      alloc.Serves ((password.getD (CString.ofBuffer [])).strlen + 1)) :
    copyPassword alloc password = .ok (kept password) := by
  cases password with
  | none => rfl
  | some password =>
      rw [copyPassword, kept, Option.filter_some]
      split
      · rename_i empty
        rw [if_neg (by simp [empty])]
      · rename_i written
        have duplicated :
            WalletAccount.strdup alloc password = some password :=
          strdup_eq serves
        rw [if_pos (by simp [written]), duplicated]

/-- What is made of a mnemonic and a password, and which those are. -/
theorem buildBaseAccountFromSeed_eq_ok {text : Option CString}
    {wordCount : Int} {passwordProtected : Bool}
    {account : Bip39Account curve}
    (built :
      buildBaseAccountFromSeed world alloc password text wordCount
          passwordProtected =
        .ok account) :
    ∃ mnemonic baseAccount count,
      text = some mnemonic ∧
        Grounded world password mnemonic baseAccount ∧
        countWords (some mnemonic) = .ok count ∧
        account =
          assemble baseAccount mnemonic
            (if wordCount = 0 then count else wordCount) password
            passwordProtected := by
  cases text with
  | none => cases built
  | some mnemonic =>
      rw [buildBaseAccountFromSeed] at built
      rcases Except.bind_eq_ok_iff.mp built with ⟨valid, validated, rest⟩
      split at rest
      · cases rest
      rename_i accepted
      rw [Bool.not_eq_false] at accepted
      subst accepted
      rcases Except.bind_eq_ok_iff.mp rest with ⟨count, counted, rest⟩
      rcases Except.bind_eq_ok_iff.mp rest with ⟨seed, derived, rest⟩
      rcases Except.bind_eq_ok_iff.mp rest with ⟨privateKey, hashed, rest⟩
      rcases Except.bind_eq_ok_iff.mp rest with ⟨keyPair, made, rest⟩
      rcases Except.bind_eq_ok_iff.mp rest with ⟨baseAccount, based, rest⟩
      split at rest
      · cases rest
      split at rest
      · cases rest
      rename_i copy duplicated
      rcases Except.bind_eq_ok_iff.mp rest with ⟨stored, copied, rest⟩
      injection rest with same
      refine
        ⟨mnemonic, baseAccount, count, rfl, ?_, counted, ?_⟩
      · rcases accepted_of_valid validated with ⟨initialized, accepted⟩
        refine ⟨initialized, accepted, seed, keyPair, alloc, alloc, ?_⟩
        rw [Host.sha256, if_pos initialized] at hashed
        injection hashed with digest
        rw [digest]
        exact ⟨pbkdf2_of_ok derived, made, based⟩
      · rw [← same, copyPassword_eq_ok copied,
            WalletAccount.strdup_eq_some duplicated]
        rfl

/-- With memory, an account that was made of a key pair is made again. -/
theorem createFromKeyPairWithLabel_again {alloc' : Allocator}
    {keyPair : EcKeyPair curve} {account : WalletAccount curve}
    (made :
      WalletAccount.createFromKeyPairWithLabel world.derivation world.host
          alloc' none keyPair =
        .ok account)
    (initialized : world.host.cryptoInitialized = true)
    (serves : alloc.Serves 256) :
    WalletAccount.createFromKeyPairWithLabel world.derivation world.host
        alloc none keyPair =
      .ok account := by
  rw [WalletAccount.createFromKeyPairWithLabel] at made
  split at made
  · cases made
  rcases Except.bind_eq_ok_iff.mp made with ⟨copy, copied, rest⟩
  rcases Except.bind_eq_ok_iff.mp rest with ⟨script, built, rest⟩
  rcases Except.bind_eq_ok_iff.mp rest with ⟨scriptHash, hashed, rest⟩
  rcases Except.bind_eq_ok_iff.mp rest with ⟨address, addressed, rest⟩
  rcases Except.bind_eq_ok_iff.mp rest with ⟨label, labelled, rest⟩
  have written := WalletAccount.makeAddress_eq_ok addressed
  have again :
      Hash160.toAddress world.host alloc scriptHash
          WalletAccount.addressLength =
        .ok (Hash160.addressText world.host scriptHash) :=
    Hash160.toAddress_eq initialized (serves.mono (by decide)) (by decide)
  have text := Hash160.toAddress_unique written again
  have short := Hash160.strlen_addressText_le world.host scriptHash
  rw [← text] at short again
  rw [WalletAccount.makeLabel] at labelled
  split at labelled
  · cases labelled
  rename_i duplicate duplicated
  injection labelled with same
  have copyLabel : label = address := by
    rw [← same]
    exact WalletAccount.strdup_eq_some duplicated
  rw [WalletAccount.createFromKeyPairWithLabel,
    serves.neocGrants (by decide) (by decide), if_neg (by decide)]
  refine
    Except.bind_eq_ok_iff.mpr
      ⟨copy,
        EcKeyPair.createFromPrivateKey_eq copied
          (serves.mono (by decide)), ?_⟩
  refine
    Except.bind_eq_ok_iff.mpr
      ⟨script, ?_,
        Except.bind_eq_ok_iff.mpr
          ⟨scriptHash, hashed,
            Except.bind_eq_ok_iff.mpr
              ⟨address, ?_,
                Except.bind_eq_ok_iff.mpr ⟨label, ?_, rest⟩⟩⟩⟩
  · rw [ScriptHelper.createSingleSigVerification_eq_ok built]
    exact
      ScriptHelper.createSingleSigVerification_eq copy.getPublicKey.property
        serves
  · rw [WalletAccount.makeAddress,
      serves.neocGrants (by decide) (by decide), if_neg (by decide)]
    exact again
  · rw [WalletAccount.makeLabel, Option.getD_none,
      strdup_eq (serves.mono (by omega)), copyLabel]

/-- With memory, an accepted mnemonic is found valid again. -/
theorem validateMnemonic_again
    (initialized : world.host.cryptoInitialized = true)
    (accepted : Accepted world.host mnemonic)
    (serves : alloc.Serves (mnemonic.strlen + 256)) :
    validateMnemonic world.host alloc (some mnemonic) .english =
      .ok true := by
  rcases accepted with ⟨entropy, indexes, proper, cut, spelled⟩
  have enough := proper.1
  have bounded := proper.2.1
  apply validateMnemonic_of_accepted
  apply mnemonicToEntropy_eq_ok_iff.mpr
  have fits := serves.bound_le
  refine
    ⟨Option.some_ne_none _, initialized, ⟨?_, ?_, ?_⟩, proper, indexes, cut,
      spelled⟩
  · rw [sizeAdd_of_lt (lt_sizeModulus (by omega))]
    exact serves.neocGrants (Nat.succ_pos _) (by omega)
  · apply serves.neocGrants
    · rw [totalBytes]
      omega
    · rw [totalBytes, checksumBits]
      omega
  · exact serves.neocGrants (by omega) (by omega)

/-- With memory, what was made of a mnemonic is made of it again. -/
theorem buildBaseAccountFromSeed_eq {wordCount : Int}
    {passwordProtected : Bool} {count : Int}
    (grounded : Grounded world password mnemonic baseAccount)
    (counted : countWords (some mnemonic) = .ok count)
    (serves : alloc.Serves (needed password mnemonic)) :
    buildBaseAccountFromSeed world alloc password (some mnemonic) wordCount
        passwordProtected =
      .ok
        (assemble baseAccount mnemonic
          (if wordCount = 0 then count else wordCount) password
          passwordProtected) := by
  rcases grounded.key with
    ⟨seed, keyPair, alloc₁, alloc₂, derived, made, based⟩
  rw [needed] at serves
  have initialized := grounded.initialized
  have fits := serves.bound_le
  have validated :
      validateMnemonic world.host alloc (some mnemonic) .english =
        .ok true :=
    validateMnemonic_again initialized grounded.accepted
      (serves.mono (by omega))
  have salted :
      mnemonicToSeedLen world.derive alloc (some mnemonic)
          (some (password.getD (CString.ofBuffer []))) 64 =
        .ok seed := by
    have length :
        (saltOf (some (password.getD (CString.ofBuffer [])))).length =
          8 + (password.getD (CString.ofBuffer [])).strlen := by
      rw [saltOf, List.length_append]
      rfl
    rw [mnemonicToSeedLen, if_neg (by decide), pbkdf2]
    dsimp only
    rw [if_neg (by decide), derived, length,
      sizeAdd_of_lt (lt_sizeModulus (by omega)),
      serves.neocGrants (Nat.succ_pos _) (by omega), if_neg (by decide)]
  rw [buildBaseAccountFromSeed]
  refine Except.bind_eq_ok_iff.mpr ⟨true, validated, ?_⟩
  rw [if_neg (by decide)]
  refine Except.bind_eq_ok_iff.mpr ⟨count, counted, ?_⟩
  refine Except.bind_eq_ok_iff.mpr ⟨seed, salted, ?_⟩
  refine
    Except.bind_eq_ok_iff.mpr ⟨world.host.sha256Digest seed, ?_, ?_⟩
  · rw [Host.sha256, if_pos initialized]
  refine
    Except.bind_eq_ok_iff.mpr
      ⟨keyPair,
        EcKeyPair.createFromPrivateKey_eq made (serves.mono (by omega)), ?_⟩
  refine
    Except.bind_eq_ok_iff.mpr
      ⟨baseAccount,
        createFromKeyPairWithLabel_again based initialized
          (serves.mono (by omega)), ?_⟩
  rw [serves.neocGrants (by decide) (by rw [structSize]; omega),
    if_neg (by decide), strdup_eq (serves.mono (by omega))]
  refine
    Except.bind_eq_ok_iff.mpr
      ⟨kept password, copyPassword_eq (serves.mono (by omega)), rfl⟩

end Making

/-! ## Every account that is made -/

section Made

variable {world : World curve} {account : Bip39Account curve}

/-- The accounts that the constructors make, with any memory. -/
inductive Made (world : World curve) : Bip39Account curve → Prop where
  | create {account : Bip39Account curve} (alloc : Allocator)
      (random : Random) (password : Option CString) (wordCount : Int)
      (made : create world alloc random password wordCount = .ok account) :
      Made world account
  | fromMnemonic {account : Bip39Account curve} (alloc : Allocator)
      (password mnemonic : Option CString)
      (made : fromMnemonic world alloc password mnemonic = .ok account) :
      Made world account
  | copy {source account : Bip39Account curve} (alloc : Allocator)
      (origin : Made world source)
      (made : copy world alloc source = .ok account) :
      Made world account

/-- What is true of every account that was made. -/
structure WellMade (world : World curve) (account : Bip39Account curve)
    (mnemonic : CString) : Prop where
  mnemonic_eq : account.mnemonic = some mnemonic
  length_eq : account.mnemonicLength = mnemonic.strlen
  password_eq : kept account.password = account.password
  protected_eq : account.isPasswordProtected = account.password.isSome
  counted : countWords (some mnemonic) = .ok account.wordCount
  grounded :
    Grounded world account.password mnemonic account.baseAccount

/-- What is granted by some allocator is granted by an ample one. -/
theorem neocGrants_ample {alloc : Allocator} {size : Nat}
    (granted : alloc.neocGrants size = true) :
    Allocator.ample.neocGrants size = true := by
  rw [Allocator.neocGrants, Bool.and_eq_true, decide_eq_true_eq] at granted
  exact
    (Allocator.ample_serves (alloc.grants_le size granted.2)).neocGrants
      (Nat.pos_of_ne_zero granted.1) le_rfl

/-- The mnemonic of an entropy does not depend on the memory. -/
theorem mnemonicFromEntropy_eq_ok {host : Host} {alloc : Allocator}
    {entropy : List UInt8} {mnemonic : CString}
    (initialized : host.cryptoInitialized = true)
    (proper : ValidLength entropy)
    (written :
      mnemonicFromEntropy host alloc (.items entropy) .english =
        .ok mnemonic) :
    ∃ indexes,
      Spells host indexes entropy ∧
        mnemonic = CString.ofBuffer (sentence indexes) := by
  rcases exists_spells host proper with ⟨indexes, spelled⟩
  have ample :
      mnemonicFromEntropy host .ample (.items entropy) .english =
        .ok mnemonic := by
    rw [mnemonicFromEntropy] at written ⊢
    split at written
    · cases written
    split at written
    · cases written
    rcases Except.bind_eq_ok_iff.mp written with ⟨hash, hashed, rest⟩
    split at rest
    · cases rest
    rename_i valid supported stream
    rw [if_neg valid, if_neg supported]
    refine Except.bind_eq_ok_iff.mpr ⟨hash, hashed, ?_⟩
    rw [neocGrants_ample (Bool.not_eq_false _ ▸ stream), if_neg (by decide)]
    rcases Except.bind_eq_ok_iff.mp rest with ⟨stream', appended, rest⟩
    rcases Except.bind_eq_ok_iff.mp rest with ⟨chars, counted, rest⟩
    split at rest
    · cases rest
    rename_i output
    refine Except.bind_eq_ok_iff.mpr ⟨stream', appended, ?_⟩
    refine Except.bind_eq_ok_iff.mpr ⟨chars, counted, ?_⟩
    rw [neocGrants_ample (Bool.not_eq_false _ ▸ output), if_neg (by decide)]
    exact rest
  have made :
      mnemonicFromEntropy host .ample (.items entropy) .english =
        .ok (CString.ofBuffer (sentence indexes)) :=
    mnemonicFromEntropy_eq initialized (Allocator.ample_serves (by decide))
      (Option.some_ne_none _) proper spelled
  rw [ample] at made
  injection made with same
  exact ⟨indexes, spelled, same⟩

/-- The words of a mnemonic that was generated are those asked for. -/
theorem countWords_generated {alloc : Allocator} {random : Random}
    {wordCount count : Int} {mnemonic : CString}
    (initialized : world.host.cryptoInitialized = true)
    (strong : strengthFromWordCount wordCount ≠ 0)
    (generated :
      generateMnemonic world.host alloc random
          (strengthFromWordCount wordCount) .english =
        .ok mnemonic)
    (counted : countWords (some mnemonic) = .ok count) :
    count = wordCount := by
  have sized :
      ¬ (strengthFromWordCount wordCount / 8 < 16 ∨
        strengthFromWordCount wordCount / 8 > 32 ∨
        strengthFromWordCount wordCount / 8 % 4 ≠ 0) := by
    rw [strengthFromWordCount] at strong ⊢
    split_ifs <;> simp_all
  rw [generateMnemonic, if_neg sized] at generated
  split at generated
  · cases generated
  split at generated
  · cases generated
  rename_i entropy drawn
  have proper : ValidLength entropy.val := by
    rw [ValidLength, entropy.property]
    omega
  rcases mnemonicFromEntropy_eq_ok initialized proper generated with
    ⟨indexes, spelled, rfl⟩
  have length := spelled.length_eq proper
  have small := spelled.1
  have bytes := entropy.property
  rw [checksumBits, bytes] at length
  have written : indexes ≠ [] := by
    rintro rfl
    rw [List.length_nil] at length
    omega
  have words :
      (indexes.map wordOf).length =
        (sentence indexes).count 0x20 + 1 := by
    rw [← pieces_sentence small, length_pieces_eq_iff]
    · rw [pieces_sentence small]
      rfl
    · rw [pieces_sentence small]
      exact fun none => written (List.map_eq_nil_iff.mp none)
  have text : (CString.ofBuffer (sentence indexes)).characters ≠ [] := by
    rw [characters_sentence small]
    intro none
    rw [none, List.length_map, List.count_nil] at words
    omega
  have total := countWords_eq_ok text counted
  rw [characters_sentence small] at total
  rw [List.length_map] at words
  rw [strengthFromWordCount] at length strong
  split_ifs at length strong <;> omega

theorem Made.wellMade (made : Made world account) :
    ∃ mnemonic, WellMade world account mnemonic := by
  have shaped {baseAccount : WalletAccount curve} {mnemonic : CString}
      {count : Int} {password : Option CString}
      (grounded : Grounded world password mnemonic baseAccount)
      (counted : countWords (some mnemonic) = .ok count) :
      WellMade world
        (assemble baseAccount mnemonic count password
          (kept password).isSome)
        mnemonic :=
    { mnemonic_eq := rfl
      length_eq := rfl
      password_eq := kept_kept password
      protected_eq := rfl
      counted := counted
      grounded := grounded.kept }
  induction made with
  | create alloc random password wordCount made =>
      rw [Bip39Account.create] at made
      split at made
      · cases made
      rename_i strong
      rcases Except.bind_eq_ok_iff.mp made with ⟨text, generated, built⟩
      rcases buildBaseAccountFromSeed_eq_ok built with
        ⟨mnemonic, baseAccount, count, same, grounded, counted, rfl⟩
      injection same with same
      subst same
      have words :=
        countWords_generated grounded.initialized strong generated counted
      have positive : wordCount ≠ 0 := by
        rintro rfl
        exact strong rfl
      rw [if_neg positive, protects_eq]
      rw [words] at counted
      exact ⟨text, shaped grounded counted⟩
  | fromMnemonic alloc password mnemonic made =>
      rcases buildBaseAccountFromSeed_eq_ok made with
        ⟨mnemonic, baseAccount, count, same, grounded, counted, rfl⟩
      rw [if_pos rfl, protects_eq]
      exact ⟨mnemonic, shaped grounded counted⟩
  | @copy source account alloc origin made induction =>
      rcases induction with ⟨mnemonic, wellMade⟩
      rcases buildBaseAccountFromSeed_eq_ok made with
        ⟨text, baseAccount, count, same, grounded, counted, rfl⟩
      rw [wellMade.mnemonic_eq] at same
      injection same with same
      subst same
      rw [wellMade.counted] at counted
      injection counted with counts
      have protection :
          source.isPasswordProtected =
            (kept
              (some (source.password.getD (CString.ofBuffer [])))).isSome := by
        rw [kept_getD, wellMade.password_eq, wellMade.protected_eq]
      have whole := shaped grounded wellMade.counted
      rw [counts] at whole
      rw [protection, counts, ite_self]
      exact ⟨mnemonic, whole⟩

/-! ## Making an account again -/

/-- More memory than making the account again takes. -/
def memory (account : Bip39Account curve) : Nat :=
  needed account.password (account.mnemonic.getD (CString.ofBuffer []))

/-- What was kept is enough to make the account again. -/
theorem WellMade.remade {alloc : Allocator} {mnemonic : CString}
    {password : Option CString} {wordCount : Int}
    (wellMade : WellMade world account mnemonic)
    (same : kept password = account.password)
    (counted : wordCount = 0 ∨ wordCount = account.wordCount)
    (serves : alloc.Serves (needed password mnemonic)) :
    buildBaseAccountFromSeed world alloc password (some mnemonic) wordCount
        account.isPasswordProtected =
      .ok account := by
  have grounded :
      Grounded world password mnemonic account.baseAccount := by
    refine
      ⟨wellMade.grounded.initialized, wellMade.grounded.accepted, ?_⟩
    have salt :
        saltOf (some (password.getD (CString.ofBuffer []))) =
          saltOf (some (account.password.getD (CString.ofBuffer []))) := by
      rw [← same]
      simp only [saltOf, getD_kept]
    rw [salt]
    exact wellMade.grounded.key
  have total :
      (if wordCount = 0 then account.wordCount else wordCount) =
        account.wordCount := by
    rcases counted with none | taken
    · rw [if_pos none]
    · rw [taken, ite_self]
  rw [buildBaseAccountFromSeed_eq grounded wellMade.counted serves, total,
    assemble, same, ← wellMade.mnemonic_eq, ← wellMade.length_eq]

/-- Texts with the same characters are the same. -/
theorem eq_of_characters {first second : CString}
    (same : first.characters = second.characters) :
    first = second := by
  rw [← CString.ofBuffer_characters first, same,
    CString.ofBuffer_characters]

/-- The address of an account that was made. -/
theorem WellMade.getAddress_eq {alloc : Allocator} {mnemonic : CString}
    (wellMade : WellMade world account mnemonic)
    (serves : alloc.Serves 64) :
    account.getAddress alloc =
      .ok (account.baseAccount.scriptHash.addressText world.host) := by
  rcases wellMade.grounded.key with
    ⟨seed, keyPair, -, alloc', -, -, based⟩
  have fresh := WalletAccount.createFromKeyPairWithLabel_fresh based
  have short :=
    Hash160.strlen_addressText_le world.host
      account.baseAccount.scriptHash
  rw [getAddress, getAddressCopy, fresh.address]
  dsimp only
  rw [strdup_eq (serves.mono (by omega))]

/-- Two accounts that were made are compared by mnemonic and script hash. -/
theorem WellMade.equals_iff {alloc : Allocator}
    {other : Bip39Account curve} {mnemonic mnemonic' : CString}
    (wellMade : WellMade world account mnemonic)
    (wellMade' : WellMade world other mnemonic')
    (serves : alloc.Serves 64) :
    equals alloc account other = true ↔
      account.mnemonic = other.mnemonic ∧
        account.baseAccount.scriptHash = other.baseAccount.scriptHash := by
  have initialized := wellMade.grounded.initialized
  rw [equals, wellMade.getAddress_eq serves,
    wellMade'.getAddress_eq serves]
  rw [wellMade.mnemonic_eq, wellMade'.mnemonic_eq, sameMnemonic]
  constructor
  · intro equal
    split at equal
    · cases equal
    split at equal
    · cases equal
    rename_i texts
    rw [decide_eq_false_iff_not, not_not] at texts
    rw [decide_eq_true_eq] at equal
    refine ⟨congrArg some (eq_of_characters texts), ?_⟩
    exact
      Hash160.addressText_injective initialized (eq_of_characters equal)
  · rintro ⟨same, hash⟩
    injection same with same
    subst same
    have counted := wellMade'.counted
    rw [wellMade.counted] at counted
    injection counted with counts
    rw [hash, counts]
    simp

/-- The words of an account are those of an entropy. -/
theorem WellMade.words {mnemonic : CString}
    (wellMade : WellMade world account mnemonic) :
    (pieces 0x20 mnemonic.characters).length ∈ [12, 15, 18, 21, 24] := by
  rcases wellMade.grounded.accepted with
    ⟨entropy, indexes, ⟨enough, bounded, whole⟩, cut, spelled⟩
  have length := spelled.length_eq ⟨enough, bounded, whole⟩
  rw [checksumBits] at length
  rw [cut, List.length_map]
  simp only [List.mem_cons, List.not_mem_nil, or_false]
  omega

end Made

/-! ## Two accounts of sixteen zeros -/

/-- The mnemonic of sixteen zeros with two spaces behind the first word. -/
def doubledMnemonic : CString :=
  CString.ofBuffer
    (wordOf 0 ++ 0x20 :: 0x20 :: sentence (List.replicate 10 0 ++ [3]))

theorem characters_doubledMnemonic :
    doubledMnemonic.characters =
      wordOf 0 ++ 0x20 :: 0x20 :: sentence (List.replicate 10 0 ++ [3]) := by
  apply CString.characters_ofBuffer
  simp only [List.mem_append, List.mem_cons, not_or]
  exact
    ⟨by decide, by decide, by decide, nul_free_sentence (by decide)⟩

theorem pieces_doubledMnemonic :
    pieces 0x20 doubledMnemonic.characters = zerosIndexes.map wordOf := by
  rw [characters_doubledMnemonic,
    pieces_append_cons (by decide) (by decide), pieces_cons_self,
    pieces_sentence (by decide)]
  rfl

/-- What the world below knows of a mnemonic without a password. -/
structure KnownMnemonic where
  mnemonic : CString
  seedFront : Bytes 32
  seedBack : Bytes 32
  /-- SHA-256 of the seed. -/
  privateKey : Bytes 32
  compressed : Bytes 33
  ordinate : Bytes 32
  /-- SHA-256 of the script that asks for a signature of the key. -/
  scriptDigest : Bytes 32
  scriptHash : Bytes 20
  /-- SHA-256, once and twice, of the bytes of the address. -/
  addressOnce : Nat
  addressTwice : Nat

/-- The mnemonic of sixteen zeros, with two spaces or without. -/
def knownZeros : Bool → KnownMnemonic
  | false =>
      { mnemonic := zerosMnemonic
        seedFront :=
          .ofNat 32
            0x5EB00BBDDCF069084889A8AB9155568165F5C453CCB85E70811AAED6F6DA5FC1
        seedBack :=
          .ofNat 32
            0x9A5AC40B389CD370D086206DEC8AA6C43DAEA6690F20AD3D8D48B2D2CE9E38E4
        privateKey :=
          .ofNat 32
            0x62A772F85E4BE6226108B56C0B1CF935C2490E434ADEC864FE47B189F1ED517D
        compressed :=
          .ofNat 33
            0x0358DBD787CE6CE717C3718F95EBD527C97D2B6E7CBDE02C034B1CF5882A18F2FB
        ordinate :=
          .ofNat 32
            0x01A758365A3C8292052CE7AEF59745A7F6996C0659C8D5F5C61EA88AB238906B
        scriptDigest :=
          .ofNat 32
            0x2711ECB71305584A53F78F62CE2DF2CDD5E31B6399CAD4039043EA8D4C5D28A1
        scriptHash := .ofNat 20 0xEC88285BCFB390D048B0E485426907D885D5DDA8
        addressOnce :=
          0xBB69D1A5FD85280E70443E941AF0BD226D3277DE840FA71C22A997B688D6EE96
        addressTwice :=
          0xCC35A839F110EDB05B78BEF9795F525AE33BC6F39ED440EEF2479E8A6D05E2CF }
  | true =>
      { mnemonic := doubledMnemonic
        seedFront :=
          .ofNat 32
            0x1525A8D0B3E08E7BC38044293B6C7CE3E82CD344F27F294976C5179BC0505C42
        seedBack :=
          .ofNat 32
            0x30F55DFA9BB326D89F1D7E8931D3C70E2DC2EBE808D8FBB32923A747D0860379
        privateKey :=
          .ofNat 32
            0x3B88A2427659560F36F85784BEC9887C589197A9648B2F808482F39F45827C6F
        compressed :=
          .ofNat 33
            0x03B5A10083D37DCD3D7C9D94679ADB842B3077116B17D9EA48EB6C224D951B6F46
        ordinate :=
          .ofNat 32
            0x16B372E7A66E1E9490A8CE2155452A5B93BC7900FA78C6E6DAF0523E9075036B
        scriptDigest :=
          .ofNat 32
            0x907684FC46BCB78B609292C2E46DCA5D961965B99DB065B8BE553C826B8E0EFD
        scriptHash := .ofNat 20 0xE1AFB41902A2F9987300F8627857AA19D1BEE3FC
        addressOnce :=
          0x31A40A3CB26A2E63D9118959EA015C9927833B3ADAF76ABB15E7A979C861B002
        addressTwice :=
          0x731FFCFA3A7889E9625295340AD1C583C2153669BCE91D46664A330366250F56 }

/-- The seed of the mnemonic without a password. -/
def KnownMnemonic.seed (known : KnownMnemonic) : List UInt8 :=
  known.seedFront.val ++ known.seedBack.val

/-- The uncompressed form of the public key. -/
def KnownMnemonic.uncompressed (known : KnownMnemonic) : Bytes 65 :=
  ⟨0x04 :: known.compressed.val.drop 1 ++ known.ordinate.val, by
    simp [known.compressed.property, known.ordinate.property]⟩

/-- The script that asks for a signature of the key. -/
def KnownMnemonic.script (known : KnownMnemonic) : List UInt8 :=
  [0x0C, 0x21] ++ known.compressed.val ++ [0x41, 0x56, 0xE7, 0xB3, 0x27]

/-- The digests that the account of the mnemonic takes. -/
def KnownMnemonic.digests (known : KnownMnemonic) :
    List (List UInt8 × Bytes 32) :=
  [(known.seed, known.privateKey), (known.script, known.scriptDigest)] ++
    Host.twiceDigests (Hash160.addressVersion :: known.scriptHash.val)
      known.addressOnce known.addressTwice

/-- The curve reduced to the points of both. -/
def zerosCurve : Curve where
  Point := Bool
  PrivateKey := Bool
  compressed doubled := (knownZeros doubled).compressed
  uncompressed doubled := (knownZeros doubled).uncompressed
  decode encoded :=
    [false, true].find? fun doubled =>
      encoded = (knownZeros doubled).compressed.val ∨
        encoded = (knownZeros doubled).uncompressed.val
  ecdsaDoSign _ _ := none
  decode_compressed := by decide

/-- The private keys belong to these points. -/
def zerosDerivation : KeyDerivation zerosCurve where
  derive bytes :=
    match
      [false, true].find? fun doubled =>
        bytes = (knownZeros doubled).privateKey with
    | some doubled => .ok (doubled, some doubled)
    | none => .error "Failed to set private key"
  privateBytes doubled := (knownZeros doubled).privateKey
  privateBytes_derive := by
    intro bytes key point derived
    split at derived
    · rename_i doubled found
      injection derived with same
      injection same with same _
      rw [← same]
      have held := List.find?_some found
      exact (of_decide_eq_true held).symm
    · cases derived

/-- PBKDF2 of these mnemonics without a password. -/
def zerosPbkdf2 : Pbkdf2 :=
  fun pass _ salt _ iter keyLen =>
    if salt = ascii "mnemonic" ∧ iter = 2048 ∧ keyLen = 64 then
      ([false, true].find? fun doubled =>
        pass = (knownZeros doubled).mnemonic.characters).map
        fun doubled => (knownZeros doubled).seed
    else
      none

/-- A world that knows these digests and keys and no others. -/
def zerosWorld : World zerosCurve where
  derivation := zerosDerivation
  host :=
    Host.ofTables
      (serviceDigests ++
        (List.replicate 16 0, zerosHost.sha256Digest (List.replicate 16 0)) ::
          [false, true].flatMap fun doubled => (knownZeros doubled).digests)
      ([false, true].map fun doubled =>
        ((knownZeros doubled).scriptDigest.val,
          (knownZeros doubled).scriptHash))
  derive := zerosPbkdf2

theorem accepted_zeros (doubled : Bool) :
    Accepted zerosWorld.host (knownZeros doubled).mnemonic := by
  refine
    ⟨List.replicate 16 0, zerosIndexes, validLength_zeros, ?_,
      spells_zeros.1, ?_⟩
  · cases doubled with
    | false =>
        change pieces 0x20 zerosMnemonic.characters = _
        rw [zerosMnemonic, characters_sentence spells_zeros.1,
          pieces_sentence spells_zeros.1]
    | true => exact pieces_doubledMnemonic
  · have digest :
        zerosWorld.host.sha256Digest (List.replicate 16 0) =
          zerosHost.sha256Digest (List.replicate 16 0) := by
      decide +kernel
    have sums :
        checksum zerosWorld.host (List.replicate 16 0) =
          checksum zerosHost (List.replicate 16 0) := by
      rw [checksum, checksum, digest]
    rw [sums]
    exact spells_zeros.2

theorem baseAccount_zeros (doubled : Bool) :
    ∃ baseAccount,
      Grounded zerosWorld none (knownZeros doubled).mnemonic baseAccount := by
  have succeeds :
      ∀ doubled : Bool,
        (WalletAccount.createFromKeyPairWithLabel zerosDerivation
            zerosWorld.host .ample none
            { privateKey := doubled
              publicKey := .ofPoint doubled true }).isOk =
          true := by
    decide +kernel
  have seeded :
      ∀ doubled : Bool,
        zerosWorld.derive
            (passed (knownZeros doubled).mnemonic.characters
              (intOf (knownZeros doubled).mnemonic.strlen))
            (intOf (knownZeros doubled).mnemonic.strlen)
            (passed (saltOf (some (Option.getD none (CString.ofBuffer []))))
              (intOf
                (saltOf
                  (some (Option.getD none (CString.ofBuffer [])))).length))
            (intOf
              (saltOf (some (Option.getD none (CString.ofBuffer [])))).length)
            2048 (intOf 64) =
          some (knownZeros doubled).seed := by
    decide +kernel
  have keyed :
      ∀ doubled : Bool,
        zerosWorld.host.sha256Digest (knownZeros doubled).seed =
            (knownZeros doubled).privateKey ∧
          ([false, true].find? fun known =>
              (knownZeros doubled).privateKey =
                (knownZeros known).privateKey) =
            some doubled := by
    decide +kernel
  rcases made :
      WalletAccount.createFromKeyPairWithLabel zerosDerivation
        zerosWorld.host .ample none
        { privateKey := doubled, publicKey := .ofPoint doubled true } with
    reason | baseAccount
  · have impossible := succeeds doubled
    rw [made] at impossible
    cases impossible
  · have paired :
        EcKeyPair.createFromPrivateKey zerosDerivation .ample
            (zerosWorld.host.sha256Digest (knownZeros doubled).seed) =
          .ok
            { privateKey := doubled
              publicKey := .ofPoint doubled true } := by
      rw [(keyed doubled).1]
      apply EcKeyPair.createFromPrivateKey_eq_ok_iff.mpr
      refine ⟨by decide, doubled, ?_, rfl⟩
      simp only [zerosDerivation, (keyed doubled).2]
    exact
      ⟨baseAccount, rfl, accepted_zeros doubled, (knownZeros doubled).seed, _,
        .ample, .ample, seeded doubled, paired, made⟩

theorem made_zeros (doubled : Bool) :
    ∃ account : Bip39Account zerosCurve,
      Made zerosWorld account ∧
        account.mnemonic = some (knownZeros doubled).mnemonic ∧
        Allocator.ample.Serves account.memory := by
  rcases baseAccount_zeros doubled with ⟨baseAccount, grounded⟩
  have counted :
      ∀ doubled : Bool,
        countWords (some (knownZeros doubled).mnemonic) =
          .ok (if doubled then 13 else 12) := by
    decide +kernel
  have small :
      ∀ doubled : Bool,
        needed none (knownZeros doubled).mnemonic ≤ 0x10000 := by
    decide +kernel
  have serves :
      Allocator.ample.Serves (needed none (knownZeros doubled).mnemonic) :=
    Allocator.ample_serves ((small doubled).trans (by decide))
  exact
    ⟨_,
      .fromMnemonic .ample none (some (knownZeros doubled).mnemonic)
        (buildBaseAccountFromSeed_eq grounded (counted doubled) serves),
      rfl, serves⟩

/-! ## What accounts stand for -/

section Standing

variable {world : World curve} {account : Bip39Account curve}

/--
Two accounts are found equal if and only if they have the same mnemonic and
the same script hash.  The password does not take part, and the number of
words never decides.
-/
theorem equals_iff_hash {alloc : Allocator} {other : Bip39Account curve}
    (made : Made world account) (made' : Made world other)
    (serves : alloc.Serves 64) :
    equals alloc account other = true ↔
      account.mnemonic = other.mnemonic ∧
        account.baseAccount.scriptHash = other.baseAccount.scriptHash := by
  rcases made.wellMade with ⟨mnemonic, wellMade⟩
  rcases made'.wellMade with ⟨mnemonic', wellMade'⟩
  exact wellMade.equals_iff wellMade' serves

/-- The accounts of both mnemonics differ, and each is equal to itself. -/
theorem equals_iff_hash_zeros :
    ∃ account other : Bip39Account zerosCurve,
      Made zerosWorld account ∧
        Made zerosWorld other ∧
          equals .ample account other = false ∧
            equals .ample other other = true := by
  rcases made_zeros false with ⟨account, made, mnemonic, -⟩
  rcases made_zeros true with ⟨other, made', mnemonic', -⟩
  have serves : Allocator.ample.Serves 64 :=
    Allocator.ample_serves (by decide)
  refine
    ⟨account, other, made, made', ?_,
      (equals_iff_hash made' made' serves).mpr ⟨rfl, rfl⟩⟩
  apply Bool.eq_false_of_not_eq_true
  intro equal
  have same := ((equals_iff_hash made made' serves).mp equal).1
  rw [mnemonic, mnemonic'] at same
  injection same with same
  have lengths := congrArg CString.strlen same
  exact absurd lengths (by decide)

/--
An account is made again from the mnemonic and the password it keeps, and a
copy of it is the same account, which is found equal to it.
-/
theorem restored {alloc : Allocator} (made : Made world account)
    (serves : alloc.Serves account.memory) :
    fromMnemonic world alloc account.password account.mnemonic =
        .ok account ∧
      copy world alloc account = .ok account ∧
        equals alloc account account = true := by
  rcases made.wellMade with ⟨mnemonic, wellMade⟩
  rw [memory, wellMade.mnemonic_eq, Option.getD_some] at serves
  refine ⟨?_, ?_, ?_⟩
  · rw [fromMnemonic, protects_eq, wellMade.password_eq,
      ← wellMade.protected_eq, wellMade.mnemonic_eq]
    exact wellMade.remade wellMade.password_eq (.inl rfl) serves
  · rw [copy, wellMade.mnemonic_eq]
    refine wellMade.remade ?_ (.inr rfl) serves
    rw [kept_getD, wellMade.password_eq]
  · apply (wellMade.equals_iff wellMade (serves.mono _)).mpr ⟨rfl, rfl⟩
    rw [needed]
    omega

theorem restored_zeros :
    ∃ account : Bip39Account zerosCurve,
      fromMnemonic zerosWorld .ample account.password
            account.mnemonic =
          .ok account ∧
        copy zerosWorld .ample account = .ok account ∧
          equals .ample account account = true := by
  rcases made_zeros false with ⟨account, made, -, serves⟩
  exact ⟨account, restored made serves⟩

/--
The number of words that an account states is at least that of the words of
its mnemonic, of which there are 12, 15, 18, 21 or 24.  The two are the same
if and only if the mnemonic is its words with one space between them.
-/
theorem wordCount_iff (made : Made world account) :
    ∃ mnemonic,
      account.mnemonic = some mnemonic ∧
        (pieces 0x20 mnemonic.characters).length ∈ [12, 15, 18, 21, 24] ∧
        (pieces 0x20 mnemonic.characters).length ≤ account.wordCount ∧
        (account.wordCount = (pieces 0x20 mnemonic.characters).length ↔
          joined mnemonic.characters = mnemonic.characters) := by
  rcases made.wellMade with ⟨mnemonic, wellMade⟩
  have words := wellMade.words
  have some : pieces 0x20 mnemonic.characters ≠ [] := by
    intro none
    rw [none] at words
    simp at words
  have written : mnemonic.characters ≠ [] := by
    intro none
    rw [none] at some
    exact some rfl
  have total := countWords_eq_ok written wellMade.counted
  have most := @length_pieces_le _ _ (0x20 : UInt8) mnemonic.characters
  refine ⟨mnemonic, wellMade.mnemonic_eq, words, by omega, ?_⟩
  rw [joined, ← length_pieces_eq_iff some]
  omega

/-- Twelve words are stated to be more where two spaces follow one. -/
theorem wordCount_iff_doubled :
    ∃ account : Bip39Account zerosCurve,
      account.mnemonic = some doubledMnemonic ∧
        (pieces 0x20 doubledMnemonic.characters).length = 12 ∧
        (12 : Int) < account.wordCount := by
  rcases made_zeros true with ⟨account, made, mnemonic, -⟩
  have twelve : (pieces 0x20 doubledMnemonic.characters).length = 12 := by
    rw [pieces_doubledMnemonic]
    rfl
  rcases wordCount_iff made with ⟨found, same, -, most, spaced⟩
  have found_eq : found = doubledMnemonic :=
    Option.some.inj (same.symm.trans mnemonic)
  have different :
      joined doubledMnemonic.characters ≠ doubledMnemonic.characters := by
    rw [joined, pieces_doubledMnemonic, characters_doubledMnemonic]
    decide
  rw [found_eq, twelve] at most spaced
  have more := mt spaced.mp different
  exact ⟨account, mnemonic, twelve, by omega⟩

end Standing

end Bip39Account

end NeoC
