import NeoC.Wallet.AccountNep6

/-!
# Wallets

A wallet is an array of pointers to accounts and a pointer to the default one
among them.  An account is kept here together with the place it is at, so
that the default account is a place; places that are in use are below the
next free one.  The account that a caller hands over becomes the wallet's own.
Whether an account is the default one is also a flag of the account, which
the wallet sets and clears on its own.
-/

namespace NeoC

open Foundation

/-- An account and the place it is at. -/
structure HeldAccount (curve : Curve) where
  pointer : Nat
  account : WalletAccount curve

namespace HeldAccount

variable {curve : Curve}

/-- The address of the account. -/
def address (held : HeldAccount curve) : Option CString :=
  held.account.address

/-- The account with its flag set or cleared. -/
def flagged (isDefault : Bool) (held : HeldAccount curve) :
    HeldAccount curve :=
  { held with account := { held.account with isDefault } }

end HeldAccount

/-- A `neoc_wallet_t`. -/
structure Wallet (curve : Curve) where
  name : Option CString
  version : Option CString
  accounts : List (HeldAccount curve)
  accountCapacity : Nat
  defaultAccount : Option Nat
  /-- The next place that `malloc` gives out. -/
  nextPointer : Nat

namespace Wallet

variable {curve : Curve}

/-! ## Making wallets -/

/-- `sizeof(neoc_wallet_t)`. -/
def structSize : Nat := 56

/-- `INITIAL_ACCOUNT_CAPACITY`. -/
def initialAccountCapacity : Nat := 10

/-- The size of a pointer in the array of accounts. -/
def pointerSize : Nat := 8

/-- The name; without memory for the default one it is left out. -/
def makeName (alloc : Allocator) (name : Option CString) :
    Outcome (Option CString) :=
  match name with
  | none => .ok (alloc.strdup (CString.ofString "NeoC Wallet"))
  | some name =>
      match alloc.strdup name with
      | none =>
          .error (.error .outOfMemory "Failed to allocate wallet name")
      | some copy => .ok (some copy)

/-- `neoc_wallet_create`. -/
def create (alloc : Allocator) (name : Option CString) :
    Outcome (Wallet curve) :=
  if alloc.grants structSize = false then
    .error (.error .outOfMemory "Failed to allocate wallet")
  else do
    let name ← makeName alloc name
    match alloc.strdup (CString.ofString "1.0") with
    | none => .error (.error .outOfMemory "Failed to allocate version")
    | some version =>
        if alloc.grants (initialAccountCapacity * pointerSize) = false then
          .error (.error .outOfMemory "Failed to allocate account array")
        else
          .ok
            { name
              version := some version
              accounts := []
              accountCapacity := initialAccountCapacity
              defaultAccount := none
              nextPointer := 0 }

/-! ## Looking accounts up -/

/-- The first account at an address; a missing address is compared too. -/
def findAddress (address : CString) :
    List (HeldAccount curve) → Outcome (Option (HeldAccount curve))
  | [] => .ok none
  | held :: rest =>
      match held.address with
      | none => .error .illegalAccess
      | some found =>
          if found = address then
            .ok (some held)
          else
            findAddress address rest

/-- `neoc_wallet_get_account_by_address`. -/
def getAccountByAddress (wallet : Wallet curve) (address : CString) :
    Outcome (Option (HeldAccount curve)) :=
  findAddress address wallet.accounts

/-- `neoc_wallet_get_account_by_script_hash`. -/
def getAccountByScriptHash (wallet : Wallet curve)
    (scriptHash : Hash160) : Option (HeldAccount curve) :=
  wallet.accounts.find? fun held => held.account.scriptHash = scriptHash

/-- `neoc_wallet_get_default_account_ptr`, with the account behind it. -/
def getDefaultAccount (wallet : Wallet curve) :
    Option (HeldAccount curve) :=
  wallet.defaultAccount.bind fun pointer =>
    wallet.accounts.find? fun held => held.pointer = pointer

/-! ## Adding accounts -/

/-- No account of the wallet is at the address of the new one. -/
def checkAbsent (account : WalletAccount curve)
    (accounts : List (HeldAccount curve)) : Outcome Unit :=
  match accounts, account.address with
  | [], _ => .ok ()
  | _ :: _, none => .error .illegalAccess
  | accounts, some address => do
      match ← findAddress address accounts with
      | none => .ok ()
      | some _ =>
          .error (.error .invalidState "Account already exists in wallet")

/-- `realloc` of the array, when it is full. -/
def grow (alloc : Allocator) : Routine (Wallet curve) Unit :=
  fun wallet =>
    if wallet.accountCapacity ≤ wallet.accounts.length then
      if alloc.grants (wallet.accountCapacity * 2 * pointerSize) = false then
        errorSet .outOfMemory "Failed to resize account array" wallet
      else
        (.ok (),
          { wallet with accountCapacity := wallet.accountCapacity * 2 })
    else
      (.ok (), wallet)

/-- The account behind the others; the first one becomes the default. -/
def push (account : WalletAccount curve) (wallet : Wallet curve) :
    Wallet curve :=
  let held : HeldAccount curve := { pointer := wallet.nextPointer, account }
  let pushed :=
    { wallet with
      accounts := wallet.accounts ++ [held]
      nextPointer := wallet.nextPointer + 1 }
  if pushed.accounts.length = 1 then
    { pushed with
      accounts := wallet.accounts ++ [held.flagged true]
      defaultAccount := some held.pointer }
  else
    pushed

/--
`neoc_wallet_add_account`.  An account that is in the wallet already is
refused for its address.
-/
def addAccount (alloc : Allocator) (account : WalletAccount curve) :
    Routine (Wallet curve) Unit := do
  let accounts ← Call.read fun wallet => wallet.accounts
  Call.lift (checkAbsent account accounts)
  grow alloc
  Call.update (push account)

/--
What the callers of `add_account` that return an account or `NULL` do with
an account they were to make.
-/
def adopt (alloc : Allocator) (made : Outcome (WalletAccount curve)) :
    Routine (Wallet curve) Bool :=
  fun wallet =>
    match made with
    | .error (.error _ _) => (.ok false, wallet)
    | .error reason => (.error reason, wallet)
    | .ok account =>
        match addAccount alloc account wallet with
        | (.ok (), added) => (.ok true, added)
        | (.error (.error _ _), left) => (.ok false, left)
        | (.error reason, left) => (.error reason, left)

section

variable (derivation : KeyDerivation curve) (cipher : Cipher) (host : Host)
  (alloc : Allocator)

/-- `neoc_wallet_create_account`. -/
def createAccount (random : Option (Bytes 32)) (label : Option CString) :
    Routine (Wallet curve) Bool :=
  adopt alloc
    (WalletAccount.createWithLabel derivation host alloc random label)

/-- `neoc_wallet_import_from_wif`. -/
def importFromWif (wif : CString) (label : Option CString) :
    Routine (Wallet curve) Bool :=
  adopt alloc
    (WalletAccount.createFromWifWithLabel derivation host alloc label wif)

/-- `neoc_wallet_import_from_nep2`. -/
def importFromNep2 (nep2 passphrase : CString) (label : Option CString) :
    Routine (Wallet curve) Bool :=
  adopt alloc
    (WalletAccount.createFromNep2WithLabel derivation cipher host alloc
      label nep2 passphrase)

end

/-! ## Removing accounts -/

/-- The accounts before the first one at an address, it, and those behind. -/
def splitAddress (address : CString) :
    List (HeldAccount curve) →
      Outcome
        (List (HeldAccount curve) × HeldAccount curve ×
          List (HeldAccount curve))
  | [] => .error (.error .invalidArgument "Account not found")
  | held :: rest =>
      match held.address with
      | none => .error .illegalAccess
      | some found =>
          if found = address then
            .ok ([], held, rest)
          else do
            let (earlier, account, later) ← splitAddress address rest
            .ok (held :: earlier, account, later)

/--
The default account that takes the place of a removed one: the first account
of the array, or the second one when the first is removed.
-/
def inherit (others : List (HeldAccount curve)) (wallet : Wallet curve) :
    Wallet curve :=
  match others with
  | [] => { wallet with accounts := [], defaultAccount := none }
  | first :: rest =>
      { wallet with
        accounts := first.flagged true :: rest
        defaultAccount := some first.pointer }

/-- `neoc_wallet_remove_account`. -/
def removeAccount (address : CString) : Routine (Wallet curve) Unit :=
  fun wallet =>
    match splitAddress address wallet.accounts with
    | .error reason => (.error reason, wallet)
    | .ok (earlier, held, later) =>
        if wallet.defaultAccount = some held.pointer then
          (.ok (), inherit (earlier ++ later) wallet)
        else
          (.ok (), { wallet with accounts := earlier ++ later })

/-! ## The default account -/

/-- The accounts with the flag of the one at a place set or cleared. -/
def setFlag (pointer : Nat) (isDefault : Bool)
    (accounts : List (HeldAccount curve)) : List (HeldAccount curve) :=
  accounts.map fun held =>
    if held.pointer = pointer then held.flagged isDefault else held

/-- The flag of the old default account is cleared, wherever it points. -/
def clearDefault : Routine (Wallet curve) Unit :=
  fun wallet =>
    match wallet.defaultAccount with
    | none => (.ok (), wallet)
    | some pointer =>
        if wallet.accounts.any fun held => held.pointer = pointer then
          (.ok (),
            { wallet with
              accounts := setFlag pointer false wallet.accounts })
        else
          Call.halt .illegalAccess wallet

/-- `neoc_wallet_set_default_account_str`. -/
def setDefaultAccountStr (address : CString) :
    Routine (Wallet curve) Unit := do
  let accounts ← Call.read fun wallet => wallet.accounts
  let account ← Call.lift (findAddress address accounts)
  match account with
  | none => errorSet .invalidArgument "Account not found"
  | some held => do
      clearDefault
      Call.update fun wallet =>
        { wallet with
          accounts := setFlag held.pointer true wallet.accounts
          defaultAccount := some held.pointer }

/-- `neoc_wallet_set_default_account_hash`. -/
def setDefaultAccountHash (host : Host) (alloc : Allocator)
    (scriptHash : Hash160) : Routine (Wallet curve) Unit := do
  let address ←
    Call.lift
      (Hash160.toAddress host alloc scriptHash WalletAccount.addressLength)
  setDefaultAccountStr address

/-- `neoc_wallet_set_default_account_account`. -/
def setDefaultAccountAccount (host : Host) (alloc : Allocator)
    (account : WalletAccount curve) : Routine (Wallet curve) Unit :=
  match account.address with
  | none => setDefaultAccountHash host alloc account.scriptHash
  | some address => setDefaultAccountStr address

/-! ## NEP-6 wallets -/

/-- `neoc_wallet_to_nep6`. -/
def toNep6 (host : Host) (alloc : Allocator) (wallet : Wallet curve) :
    Outcome Nep6Wallet := do
  let name := wallet.name.getD (CString.ofString "NeoC Wallet")
  let version := wallet.version.getD (CString.ofString "1.0")
  let nep6Wallet ← Nep6Wallet.create alloc (some name) (some version)
  -- The version is set once more, and a refusal is not looked at.
  let nep6Wallet :=
    match wallet.version with
    | none => nep6Wallet
    | some version =>
        (Nep6Wallet.setVersion alloc (some version) nep6Wallet).2
  let (_, nep6Wallet) ←
    (Call.forEach
      (fun held : HeldAccount curve => do
        let nep6Account ← Call.lift (held.account.toNep6 host alloc)
        Nep6Wallet.addAccountExisting alloc nep6Account)
      wallet.accounts).eval nep6Wallet
  .ok nep6Wallet

/-- A call whose error code is not looked at. -/
def ignoring (call : Routine (Wallet curve) Unit) :
    Routine (Wallet curve) Unit :=
  fun wallet =>
    match call wallet with
    | (.error (.error _ _), left) => (.ok (), left)
    | result => result

/-- One account of a NEP-6 wallet, which may become the default one. -/
def loadAccount (host : Host) (alloc : Allocator)
    (nep6Account : Nep6Account) : Routine (Wallet curve) Unit := do
  let account ←
    Call.lift
      (WalletAccount.fromNep6 host alloc nep6Account :
        Outcome (WalletAccount curve))
  addAccount alloc account
  let added ← Call.read fun wallet => wallet.accounts.getLast?
  match added with
  | none => pure ()
  | some held =>
      -- The first account is flagged by now, whatever its file says.
      if held.account.isDefault then
        ignoring (setDefaultAccountAccount host alloc held.account)
      else
        pure ()

/-- `neoc_wallet_from_nep6`. -/
def fromNep6 (host : Host) (alloc : Allocator) (nep6Wallet : Nep6Wallet) :
    Outcome (Wallet curve) := do
  let wallet ← create alloc nep6Wallet.name
  let versionCopy :=
    nep6Wallet.version.bind (WalletAccount.strdup alloc)
  let wallet :=
    match versionCopy with
    | none => wallet
    | some version => { wallet with version := some version }
  let (_, wallet) ←
    (Call.forEach (loadAccount host alloc) nep6Wallet.accounts).eval wallet
  .ok wallet

end Wallet

end NeoC
