import NeoC.Runtime.Hex
import NeoC.Wallet.AccountOps

/-!
# NEP-6 wallets

A NEP-6 wallet is what a wallet file holds: accounts by their address, each
with its encrypted key and the contract that the address stands for.  The
accounts are in an array that grows when it is full.  The number of slots
that were allocated for it is not a member of the struct; it is kept here
beside the capacity that the struct records, because the two need not agree.
-/

namespace NeoC

open Foundation

/-- The values of `neoc_contract_parameter_type_t`. -/
inductive ContractParameterType where
  | any
  | boolean
  | integer
  | byteArray
  | string
  | hash160
  | hash256
  | publicKey
  | signature
  | array
  | map
  | interopInterface
  | void
deriving DecidableEq, Repr

/-- The number that stands for a type. -/
def ContractParameterType.value : ContractParameterType → UInt32
  | .any => 0x00
  | .boolean => 0x10
  | .integer => 0x11
  | .byteArray => 0x12
  | .string => 0x13
  | .hash160 => 0x14
  | .hash256 => 0x15
  | .publicKey => 0x16
  | .signature => 0x17
  | .array => 0x20
  | .map => 0x22
  | .interopInterface => 0x30
  | .void => 0xFF

/--
A `neoc_nep6_parameter_t`.  Its type is a number; nothing keeps it among those
of the enumeration.
-/
structure Nep6Parameter where
  name : Option CString
  type : UInt32
deriving DecidableEq

/-- A `neoc_nep6_contract_t`. -/
structure Nep6Contract where
  script : Option CString
  parameters : List Nep6Parameter
  isDeployed : Bool
deriving DecidableEq

/-- A `neoc_nep6_account_t`. -/
structure Nep6Account where
  address : Option CString
  label : Option CString
  isDefault : Bool
  lock : Bool
  key : Option CString
  contract : Option Nep6Contract
deriving DecidableEq

/-- A `neoc_nep6_wallet_t`, with the number of slots behind `accounts`. -/
structure Nep6Wallet where
  name : Option CString
  version : Option CString
  scrypt : Nep2Params
  accounts : List Nep6Account
  accountCapacity : Nat
  slots : Nat
deriving DecidableEq

/-! ## Contracts and accounts -/

/-- The copy of a text that may be absent, or the error without memory. -/
def copyText (alloc : Allocator) (text : Option CString)
    (message : String) : Outcome (Option CString) :=
  match text with
  | none => .ok none
  | some text =>
      match WalletAccount.strdup alloc text with
      | none => .error (.error .outOfMemory message)
      | some copy => .ok (some copy)

theorem copyText_eq_ok {alloc : Allocator} {text copy : Option CString}
    {message : String}
    (copied : copyText alloc text message = .ok copy) :
    copy = text := by
  unfold copyText at copied
  split at copied
  · injection copied with same
    exact same.symm
  · split at copied
    · cases copied
    · rename_i made
      injection copied with same
      rw [← same, WalletAccount.strdup_eq_some made]

theorem copyText_of_serves {alloc : Allocator} {text : Option CString}
    {bound : Nat} (serves : alloc.Serves bound)
    (bounded : ∀ copy, text = some copy → copy.strlen + 1 ≤ bound)
    (message : String) :
    copyText alloc text message = .ok text := by
  cases text with
  | none => rfl
  | some text =>
      have granted :=
        serves.neocGrants (Nat.succ_pos _) (bounded text rfl)
      rw [copyText, WalletAccount.strdup, if_pos granted]

namespace Nep6Contract

/-- `sizeof(neoc_nep6_contract_t)`. -/
def structSize : Nat := 32

/-- `sizeof(neoc_nep6_parameter_t)`. -/
def parameterSize : Nat := 16

/-- The copies of the parameters. -/
def copyParameters (alloc : Allocator) :
    List Nep6Parameter → Outcome (List Nep6Parameter)
  | [] => .ok []
  | parameter :: rest => do
      let name ←
        copyText alloc parameter.name "Failed to copy parameter name"
      let others ← copyParameters alloc rest
      .ok ({ name, type := parameter.type } :: others)

/-- `neoc_nep6_contract_create`. -/
def create (alloc : Allocator) (script : Option CString)
    (parameters : List Nep6Parameter) (isDeployed : Bool) :
    Outcome Nep6Contract :=
  if alloc.neocGrants structSize = false then
    .error (.error .outOfMemory "Failed to allocate NEP-6 contract")
  else do
    let script ← copyText alloc script "Failed to copy contract script"
    if 0 < parameters.length ∧
        alloc.neocGrants (parameters.length * parameterSize) = false then
      .error (.error .outOfMemory "Failed to allocate contract parameters")
    else
      let parameters ← copyParameters alloc parameters
      .ok { script, parameters, isDeployed }

/-- The parameter of a contract that asks for one signature. -/
def signatureParameter : Nep6Parameter where
  name := some (CString.ofString "signature")
  type := ContractParameterType.signature.value

theorem create_eq_ok {alloc : Allocator} {script : Option CString}
    {parameters : List Nep6Parameter} {isDeployed : Bool}
    {contract : Nep6Contract}
    (created :
      create alloc script parameters isDeployed = .ok contract) :
    contract.script = script ∧ contract.isDeployed = isDeployed := by
  rw [create] at created
  split at created
  · cases created
  rcases Except.bind_eq_ok_iff.mp created with ⟨copy, copied, rest⟩
  split at rest
  · cases rest
  rcases Except.bind_eq_ok_iff.mp rest with ⟨copies, -, rest⟩
  injection rest with same
  subst same
  exact ⟨copyText_eq_ok copied, rfl⟩

end Nep6Contract

namespace Nep6Account

/-- `sizeof(neoc_nep6_account_t)`. -/
def structSize : Nat := 56

/-- `neoc_nep6_account_create`. -/
def create (alloc : Allocator) (address : CString)
    (label : Option CString) (isDefault lock : Bool)
    (key : Option CString) (contract : Option Nep6Contract) :
    Outcome Nep6Account :=
  if alloc.neocGrants structSize = false then
    .error (.error .outOfMemory "")
  else do
    let address ← copyText alloc (some address) ""
    let label ← copyText alloc label ""
    let key ← copyText alloc key ""
    .ok { address, label, isDefault, lock, key, contract }

/-- `neoc_nep6_account_set_contract`. -/
def setContract (contract : Option Nep6Contract) (account : Nep6Account) :
    Nep6Account :=
  { account with contract }

theorem create_eq_ok {alloc : Allocator} {address : CString}
    {label key : Option CString} {isDefault lock : Bool}
    {contract : Option Nep6Contract} {account : Nep6Account}
    (created :
      create alloc address label isDefault lock key contract =
        .ok account) :
    account =
      { address := some address, label, isDefault, lock, key,
        contract } := by
  rw [create] at created
  split at created
  · cases created
  rcases Except.bind_eq_ok_iff.mp created with ⟨copy, copied, rest⟩
  rcases Except.bind_eq_ok_iff.mp rest with ⟨text, labelled, rest⟩
  rcases Except.bind_eq_ok_iff.mp rest with ⟨encrypted, keyed, rest⟩
  injection rest with same
  rw [← same, copyText_eq_ok copied, copyText_eq_ok labelled,
    copyText_eq_ok keyed]

/-- With memory, an account is made. -/
theorem create_of_serves {alloc : Allocator} {bound : Nat}
    (serves : alloc.Serves bound) (struct : structSize ≤ bound)
    {address : CString} (addressed : address.strlen + 1 ≤ bound)
    {label : Option CString}
    (labelled : ∀ text, label = some text → text.strlen + 1 ≤ bound)
    (isDefault lock : Bool) {key : Option CString}
    (keyed : ∀ text, key = some text → text.strlen + 1 ≤ bound)
    (contract : Option Nep6Contract) :
    create alloc address label isDefault lock key contract =
      .ok
        { address := some address, label, isDefault, lock, key,
          contract } := by
  have granted : alloc.neocGrants structSize = true :=
    serves.neocGrants (by decide) struct
  have copied : copyText alloc (some address) "" = .ok (some address) := by
    apply copyText_of_serves serves
    rintro text ⟨⟩
    exact addressed
  rw [create, granted, if_neg (by decide)]
  refine Except.bind_eq_ok_iff.mpr ⟨_, copied, ?_⟩
  refine Except.bind_eq_ok_iff.mpr
    ⟨_, copyText_of_serves serves labelled "", ?_⟩
  exact Except.bind_eq_ok_iff.mpr
    ⟨_, copyText_of_serves serves keyed "", rfl⟩

/-- `neoc_nep6_account_decrypt_private_key` into a buffer of 32 bytes. -/
def decryptPrivateKey {curve : Curve} (derivation : KeyDerivation curve)
    (cipher : Cipher) (host : Host) (alloc : Allocator)
    (password : CString) (account : Nep6Account) : Outcome (Bytes 32) :=
  match account.key with
  | none => .error (.error .invalidState "No encrypted key")
  | some key =>
      -- Whatever the wallet's parameters are, the default ones are used.
      Nep2.decrypt derivation cipher host alloc key password none

end Nep6Account

/-! ## Wallets -/

namespace Nep6Wallet

/-- `sizeof(neoc_nep6_wallet_t)`. -/
def structSize : Nat := 64

/-- The size of a pointer in the array of accounts. -/
def pointerSize : Nat := 8

/-- `neoc_nep6_wallet_create`. -/
def create (alloc : Allocator) (name version : Option CString) :
    Outcome Nep6Wallet :=
  if alloc.neocGrants structSize = false then
    .error (.error .outOfMemory "Failed to allocate wallet")
  else if alloc.neocGrants (10 * pointerSize) = false then
    .error (.error .outOfMemory "Failed to allocate accounts")
  else
    .ok
      { name :=
          WalletAccount.strdup alloc
            (name.getD (CString.ofString "NeoC Wallet"))
        version :=
          WalletAccount.strdup alloc
            (version.getD (CString.ofString "1.0"))
        scrypt := Nep2.defaultParams
        accounts := []
        accountCapacity := 10
        slots := 10 }

/-- The wallet that is made without a name and a version. -/
def newWallet : Nep6Wallet where
  name := some (CString.ofString "NeoC Wallet")
  version := some (CString.ofString "1.0")
  scrypt := Nep2.defaultParams
  accounts := []
  accountCapacity := 10
  slots := 10

/-- The capacity that a full array is given. -/
def newCapacity (wallet : Nep6Wallet) : Nat :=
  if wallet.accountCapacity = 0 then 4 else wallet.accountCapacity * 2

/-- `neoc_realloc` of the array, when it is full. -/
def grow (alloc : Allocator) : Routine Nep6Wallet Unit :=
  fun wallet =>
    if wallet.accountCapacity ≤ wallet.accounts.length then
      if alloc.neocGrants (wallet.newCapacity * pointerSize) = false then
        errorSet .outOfMemory "wallet_add_account: resize failed" wallet
      else
        (.ok (),
          { wallet with
            accountCapacity := wallet.newCapacity
            slots := wallet.newCapacity })
    else
      (.ok (), wallet)

/-- The flags of the accounts before one that may be the default. -/
def clearDefaults (account : Nep6Account) (accounts : List Nep6Account) :
    List Nep6Account :=
  if account.isDefault then
    accounts.map fun existing => { existing with isDefault := false }
  else
    accounts

/--
`neoc_nep6_wallet_add_account_existing`.  The last write goes to the slot
behind the accounts.
-/
def addAccountExisting (alloc : Allocator) (account : Nep6Account) :
    Routine Nep6Wallet Unit :=
  match account.address with
  | none =>
      errorSet .invalidArgument "wallet_add_account: account missing address"
  | some address => do
      let accounts ← Call.read fun wallet => wallet.accounts
      if accounts.any (fun existing => existing.address = some address) then
        errorSet .invalidState "wallet_add_account: account already present"
      else do
        grow alloc
        let slots ← Call.read fun wallet => wallet.slots
        if slots ≤ accounts.length then
          Call.halt .illegalAccess
        else
          Call.update fun wallet =>
            { wallet with
              accounts := clearDefaults account accounts ++ [account] }

/-- The bytes that `add_account` takes for the script of a key. -/
def contractScript (publicKey : Bytes 33) : List UInt8 :=
  0x21 :: (publicKey.val ++ [0xAC])

/-- The account that `add_account` makes. -/
def makeAccount {curve : Curve} (derivation : KeyDerivation curve)
    (cipher : Cipher) (host : Host) (alloc : Allocator)
    (scrypt : Nep2Params) (privateKey : Bytes 32) (password : CString)
    (label : Option CString) (isDefault : Bool) : Outcome Nep6Account := do
  let keyPair ← EcKeyPair.createFromPrivateKey derivation alloc privateKey
  let addressPtr ← keyPair.getAddress host alloc
  let encryptedKey ←
    Nep2.encrypt derivation cipher host alloc privateKey password
      (some scrypt) 64
  let account ←
    Nep6Account.create alloc
      (CString.ofBuffer (addressPtr.characters.take 63)) label isDefault
      false (some encryptedKey) none
  let contract ←
    Nep6Contract.create alloc
      (some (Hex.text (contractScript keyPair.getPublicKey) false false))
      [Nep6Contract.signatureParameter] false
  .ok (account.setContract (some contract))

/-- `neoc_nep6_wallet_add_account`. -/
def addAccount {curve : Curve} (derivation : KeyDerivation curve)
    (cipher : Cipher) (host : Host) (alloc : Allocator)
    (privateKey : Bytes 32) (password : CString) (label : Option CString)
    (isDefault : Bool) : Routine Nep6Wallet Unit := do
  let scrypt ← Call.read fun wallet => wallet.scrypt
  let account ←
    Call.lift
      (makeAccount derivation cipher host alloc scrypt privateKey password
        label isDefault)
  addAccountExisting alloc account

/--
The accounts without the first one at an address.  An account without an
address is compared through `NULL`.
-/
def removeFrom (address : CString) :
    List Nep6Account → Outcome (List Nep6Account)
  | [] => .error (.error .notFound "Account not found")
  | account :: rest =>
      match account.address with
      | none => .error .illegalAccess
      | some found =>
          if found = address then
            .ok rest
          else do
            let others ← removeFrom address rest
            .ok (account :: others)

/-- `neoc_nep6_wallet_remove_account`. -/
def removeAccount (address : CString) : Routine Nep6Wallet Unit :=
  fun wallet =>
    match removeFrom address wallet.accounts with
    | .error reason => Call.halt reason wallet
    | .ok accounts => (.ok (), { wallet with accounts })

/-- `neoc_nep6_wallet_set_version`. -/
def setVersion (alloc : Allocator) (version : Option CString) :
    Routine Nep6Wallet Unit :=
  fun wallet =>
    match version with
    | none => (.ok (), { wallet with version := none })
    | some text =>
        -- The old version is gone when the copy is refused.
        match WalletAccount.strdup alloc text with
        | none =>
            errorSet .outOfMemory "wallet_set_version: allocation failed"
              { wallet with version := none }
        | some copy => (.ok (), { wallet with version := some copy })

/-- `neoc_nep6_wallet_set_scrypt`. -/
def setScrypt (params : ScryptParams) : Routine Nep6Wallet Unit :=
  Call.update fun wallet => { wallet with scrypt := params.toNep2 }

/-! ## What adding does -/

section

variable {alloc : Allocator}

/-- The wallet when a slot for another account is asked for. -/
def roomy (wallet : Nep6Wallet) : Nep6Wallet :=
  if wallet.accountCapacity ≤ wallet.accounts.length then
    { wallet with
      accountCapacity := wallet.newCapacity
      slots := wallet.newCapacity }
  else
    wallet

theorem accounts_roomy (wallet : Nep6Wallet) :
    wallet.roomy.accounts = wallet.accounts := by
  rw [roomy]
  split
  · rfl
  · rfl

theorem grow_cases (wallet : Nep6Wallet) :
    (∃ code text, grow alloc wallet = (.error (.error code text), wallet)) ∨
      (wallet.accountCapacity ≤ wallet.accounts.length →
          alloc.neocGrants (wallet.newCapacity * pointerSize) = true) ∧
        grow alloc wallet = (.ok (), wallet.roomy) := by
  unfold grow roomy
  split
  · split
    · exact .inl ⟨_, _, rfl⟩
    · rename_i granted
      exact .inr ⟨fun _ => Bool.eq_true_of_not_eq_false granted, rfl⟩
  · rename_i room
    exact .inr ⟨fun full => absurd full room, rfl⟩

/-- Everything that adding an account can do. -/
theorem addAccountExisting_cases (account : Nep6Account)
    (wallet : Nep6Wallet) :
    (∃ code text,
        addAccountExisting alloc account wallet =
          (.error (.error code text), wallet)) ∨
      ∃ address,
        account.address = some address ∧
          (∀ existing ∈ wallet.accounts, existing.address ≠ some address) ∧
          (wallet.accountCapacity ≤ wallet.accounts.length →
            alloc.neocGrants (wallet.newCapacity * pointerSize) = true) ∧
          ((wallet.roomy.slots ≤ wallet.accounts.length ∧
              addAccountExisting alloc account wallet =
                (.error .illegalAccess, wallet.roomy)) ∨
            (wallet.accounts.length < wallet.roomy.slots ∧
              addAccountExisting alloc account wallet =
                (.ok (),
                  { wallet.roomy with
                    accounts :=
                      clearDefaults account wallet.accounts ++
                        [account] }))) := by
  generalize ran : addAccountExisting alloc account wallet = result
  rw [addAccountExisting] at ran
  cases has : account.address with
  | none =>
      rw [has] at ran
      exact .inl ⟨_, _, ran.symm⟩
  | some address =>
      rw [has] at ran
      dsimp only at ran
      rw [Call.bind_of_ok (Call.read_run _ _)] at ran
      split at ran
      · exact .inl ⟨_, _, ran.symm⟩
      rename_i unique
      rcases @grow_cases alloc wallet with
        ⟨code, text, refused⟩ | ⟨granted, grown⟩
      · rw [Call.bind_of_error refused] at ran
        exact .inl ⟨code, text, ran.symm⟩
      refine .inr ⟨address, rfl, ?_, granted, ?_⟩
      · intro existing member same
        exact
          unique (List.any_eq_true.mpr ⟨existing, member, by simp [same]⟩)
      rw [Call.bind_of_ok grown, Call.bind_of_ok (Call.read_run _ _)] at ran
      split at ran
      · rename_i full
        exact .inl ⟨full, ran.symm⟩
      · rename_i room
        exact .inr ⟨Nat.lt_of_not_le room, ran.symm⟩

/-- An account at a new address is added where there is a slot for it. -/
theorem addAccountExisting_eq {account : Nep6Account} {address : CString}
    {wallet : Nep6Wallet} (has : account.address = some address)
    (missing :
      ∀ existing ∈ wallet.accounts, existing.address ≠ some address)
    (granted :
      wallet.accountCapacity ≤ wallet.accounts.length →
        alloc.neocGrants (wallet.newCapacity * pointerSize) = true)
    (slot : wallet.accounts.length < wallet.roomy.slots) :
    addAccountExisting alloc account wallet =
      (.ok (),
        { wallet.roomy with
          accounts :=
            clearDefaults account wallet.accounts ++ [account] }) := by
  have absent :
      ¬ wallet.accounts.any
          (fun existing => existing.address = some address) = true := by
    intro present
    rcases List.any_eq_true.mp present with ⟨existing, member, same⟩
    exact missing existing member (by simpa using same)
  have grown : grow alloc wallet = (.ok (), wallet.roomy) := by
    unfold grow roomy
    split
    · rename_i full
      rw [granted full]
      rfl
    · rfl
  rw [addAccountExisting, has]
  dsimp only
  rw [Call.bind_of_ok (Call.read_run _ _), if_neg absent,
    Call.bind_of_ok grown, Call.bind_of_ok (Call.read_run _ _),
    if_neg (Nat.not_le.mpr slot)]
  rfl

/-- What a successful call leaves. -/
theorem addAccount_eq_ok {curve : Curve} {derivation : KeyDerivation curve}
    {cipher : Cipher} {host : Host} {privateKey : Bytes 32}
    {password : CString} {label : Option CString} {isDefault : Bool}
    {wallet added : Nep6Wallet}
    (ran :
      addAccount derivation cipher host alloc privateKey password label
          isDefault wallet =
        (.ok (), added)) :
    ∃ account,
      makeAccount derivation cipher host alloc wallet.scrypt privateKey
            password label isDefault =
          .ok account ∧
        added.accounts =
          clearDefaults account wallet.accounts ++ [account] := by
  rw [addAccount, Call.bind_of_ok (Call.read_run _ _)] at ran
  cases made :
      makeAccount derivation cipher host alloc wallet.scrypt privateKey
        password label isDefault with
  | error reason =>
      rw [made] at ran
      cases ran
  | ok account =>
      rw [made, Call.lift_ok_bind] at ran
      refine ⟨account, rfl, ?_⟩
      rcases @addAccountExisting_cases alloc account wallet with
        ⟨code, text, failed⟩ |
          ⟨address, -, -, -, ⟨-, failed⟩ | ⟨-, appended⟩⟩
      · rw [failed] at ran
        cases ran
      · rw [failed] at ran
        cases ran
      · rw [appended] at ran
        injection ran with _ same
        rw [← same]

/-- What an account that was made consists of. -/
theorem makeAccount_eq_ok {curve : Curve}
    {derivation : KeyDerivation curve} {cipher : Cipher} {host : Host}
    {scrypt : Nep2Params} {privateKey : Bytes 32} {password : CString}
    {label : Option CString} {isDefault : Bool} {account : Nep6Account}
    (made :
      makeAccount derivation cipher host alloc scrypt privateKey password
          label isDefault =
        .ok account) :
    ∃ keyPair address encryptedKey contract,
      EcKeyPair.createFromPrivateKey derivation alloc privateKey =
          .ok keyPair ∧
        Nep2.encrypt derivation cipher host alloc privateKey password
            (some scrypt) 64 =
          .ok encryptedKey ∧
        contract.script =
          some
            (Hex.text (contractScript keyPair.getPublicKey) false false) ∧
        account =
          { address := some address, label, isDefault, lock := false,
            key := some encryptedKey, contract := some contract } := by
  rcases Except.bind_eq_ok_iff.mp made with ⟨keyPair, created, rest⟩
  rcases Except.bind_eq_ok_iff.mp rest with ⟨address, -, rest⟩
  rcases Except.bind_eq_ok_iff.mp rest with ⟨key, encrypted, rest⟩
  rcases Except.bind_eq_ok_iff.mp rest with ⟨bare, started, rest⟩
  rcases Except.bind_eq_ok_iff.mp rest with ⟨contract, wrapped, rest⟩
  injection rest with same
  refine
    ⟨keyPair, CString.ofBuffer (address.characters.take 63), key, contract,
      created, encrypted, (Nep6Contract.create_eq_ok wrapped).1, ?_⟩
  rw [← same, Nep6Account.create_eq_ok started]
  rfl

end

end Nep6Wallet

end NeoC
