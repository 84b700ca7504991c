import NeoC.Runtime.JsonGrammar
import NeoC.Wallet.Nep6AccountJson

/-!
# The JSON form and the copy of NEP-6 wallet structures

A wallet structure is written with its accounts and its extra fields.  A
missing name is written as one of its own.  The reader ignores the extra
fields of the wallet, as the reader of accounts ignores theirs; a copy goes
through the text of every account and takes the rest over directly.  Accounts
that fail on the way are left out without an error.

So a wallet comes back as it was exactly where no account has extra fields
and, through its text, where it has a name and no extra fields itself; all of
this as long as an `int` counts what is read.
-/

namespace NeoC

open Foundation JsonGrammar

namespace Nep6WalletStruct

/-! ## Building -/

/-- `sizeof(neoc_nep6_wallet_struct_t)`. -/
def structSize : Nat := 64

/-- The size of a pointer in the array of accounts. -/
def pointerSize : Nat := 8

/-- `sizeof(neoc_nep6_wallet_extra_t)`. -/
def extraSize : Nat := 16

/-- The version of a wallet that is made without one. -/
def defaultVersion : CString := CString.ofString "3.0"

/-- The copy of a text, where a `NULL` from `strdup` is an error. -/
def copyText (alloc : Allocator) (text : CString) : Outcome CString :=
  match alloc.strdup text with
  | none => .error (.error .outOfMemory "")
  | some copy => .ok copy

/-- The copy of a text that may be absent. -/
def copyOption (alloc : Allocator) :
    Option CString → Outcome (Option CString)
  | none => .ok none
  | some text => do
      let copy ← copyText alloc text
      .ok (some copy)

theorem copyText_eq {alloc : Allocator} {text : CString}
    (granted : alloc.grants (text.strlen + 1) = true) :
    copyText alloc text = .ok text := by
  rw [copyText, Allocator.strdup, if_pos granted]

/-- `neoc_nep6_wallet_struct_create`. -/
def create (alloc : Allocator) (name version : Option CString) :
    Outcome (Nep6WalletStruct ExtendedAccount) :=
  if alloc.neocGrants structSize = false then
    .error (.error .outOfMemory "")
  else do
    let name ← copyOption alloc name
    let version ← copyText alloc (version.getD defaultVersion)
    .ok
      { name
        version
        scrypt := { n := 16384, r := 8, p := 8 }
        accounts := []
        extra := [] }

/-- `neoc_nep6_wallet_struct_add_account`. -/
def addAccount (alloc : Allocator)
    (wallet : Nep6WalletStruct ExtendedAccount)
    (account : ExtendedAccount) :
    Outcome (Nep6WalletStruct ExtendedAccount) :=
  if alloc.neocGrants ((wallet.accounts.length + 1) * pointerSize) then
    .ok { wallet with accounts := wallet.accounts ++ [account] }
  else
    .error (.error .outOfMemory "")

/-- `neoc_nep6_wallet_struct_add_extra`. -/
def addExtra (alloc : Allocator)
    (wallet : Nep6WalletStruct ExtendedAccount) (key value : CString) :
    Outcome (Nep6WalletStruct ExtendedAccount) :=
  if alloc.neocGrants ((wallet.extra.length + 1) * extraSize) = false then
    .error (.error .outOfMemory "")
  else do
    let key ← copyText alloc key
    let value ← copyText alloc value
    .ok { wallet with extra := wallet.extra ++ [(key, value)] }

/-! ## Writing -/

def nameKey : CString := CString.ofString "name"

def versionKey : CString := CString.ofString "version"

def scryptKey : CString := CString.ofString "scrypt"

def accountsKey : CString := CString.ofString "accounts"

def nKey : CString := CString.ofString "n"

def rKey : CString := CString.ofString "r"

def pKey : CString := CString.ofString "p"

/-- The name that is written for a wallet without one. -/
def unnamed : CString := CString.ofString "MyWallet"

/--
The member for the scrypt parameters.  Without memory for their object
nothing is added.
-/
def writeScrypt (alloc : Allocator) (json : List (CString × JsonTree))
    (params : Nep2Params) : Outcome (List (CString × JsonTree)) :=
  if alloc.grants JsonTree.structSize = false then .ok json
  else do
    let scrypt ←
      unchecked [] (JsonTree.addNumber alloc [] nKey params.n.toNat)
    let scrypt ←
      unchecked scrypt (JsonTree.addNumber alloc scrypt rKey params.r.toNat)
    let scrypt ←
      unchecked scrypt (JsonTree.addNumber alloc scrypt pKey params.p.toNat)
    .ok (JsonTree.addItem alloc json scryptKey (.object scrypt))

/-- The item of an account that is converted and parsed. -/
def accountItem (library : JsonLibrary) (alloc : Allocator)
    (account : ExtendedAccount) : Outcome (Option JsonTree) := do
  let accountJson ← account.toJson library alloc
  .ok (library.parse accountJson)

/-- The items of the accounts that are converted and parsed. -/
def accountItems (library : JsonLibrary) (alloc : Allocator) :
    List ExtendedAccount → Outcome (List JsonTree)
  | [] => .ok []
  | account :: rest => do
      let accountObj ← unchecked none (accountItem library alloc account)
      let others ← accountItems library alloc rest
      .ok (accountObj.toList ++ others)

/-- The member for the accounts, if there is memory for their array. -/
def writeAccounts (library : JsonLibrary) (alloc : Allocator)
    (json : List (CString × JsonTree)) (accounts : List ExtendedAccount) :
    Outcome (List (CString × JsonTree)) := do
  let items ← accountItems library alloc accounts
  if alloc.grants JsonTree.structSize then
    .ok (JsonTree.addItem alloc json accountsKey (.array items))
  else
    .ok json

/-- `neoc_nep6_wallet_struct_to_json`. -/
def toJson (library : JsonLibrary) (alloc : Allocator)
    (wallet : Nep6WalletStruct ExtendedAccount) : Outcome CString := do
  let json ← JsonTree.createObject alloc "Failed to create JSON object"
  let json ←
    unchecked json
      (JsonTree.addString alloc json nameKey (wallet.name.getD unnamed))
  let json ←
    unchecked json (JsonTree.addString alloc json versionKey wallet.version)
  let json ← writeScrypt alloc json wallet.scrypt
  let json ← writeAccounts library alloc json wallet.accounts
  let json ← ExtraFields.write alloc json wallet.extra
  library.serialize alloc (.object json) ""

/-! ## Reading and copying -/

/-- A number of the scrypt parameters, or what it was before. -/
def readNumber (library : JsonLibrary) (scrypt : JsonTree)
    (name : CString) (before : UInt32) : Outcome UInt32 :=
  unchecked before do
    let value ← library.getNumber scrypt name
    let whole ← JsonTree.convert 0 0xFFFFFFFF value
    .ok (UInt32.ofNat whole.toNat)

/-- The scrypt parameters, where there is an object for them. -/
def readScrypt (library : JsonLibrary) (scrypt : Option JsonTree)
    (before : Nep2Params) : Outcome Nep2Params :=
  match scrypt with
  | none => .ok before
  | some scrypt => do
      let n ← readNumber library scrypt nKey before.n
      let r ← readNumber library scrypt rKey before.r
      let p ← readNumber library scrypt pKey before.p
      .ok { n, r, p }

/-- An account is added to the wallet if it is made. -/
def addMade (alloc : Allocator)
    (wallet : Nep6WalletStruct ExtendedAccount)
    (made : Outcome ExtendedAccount) :
    Outcome (Nep6WalletStruct ExtendedAccount) :=
  unchecked wallet do
    let account ← made
    addAccount alloc wallet account

/-- One item of the array of accounts. -/
def loadAccount (library : JsonLibrary) (alloc : Allocator)
    (wallet : Nep6WalletStruct ExtendedAccount) (accountJson : JsonTree) :
    Outcome (Nep6WalletStruct ExtendedAccount) :=
  match library.toText alloc accountJson with
  | none => .ok wallet
  | some accountStr =>
      addMade alloc wallet
        (ExtendedAccount.fromJson library alloc accountStr)

/-- The accounts, where there is an array for them. -/
def loadAccounts (library : JsonLibrary) (alloc : Allocator)
    (wallet : Nep6WalletStruct ExtendedAccount)
    (accounts : Option (List JsonTree)) :
    Outcome (Nep6WalletStruct ExtendedAccount) :=
  match accounts with
  | none => .ok wallet
  | some items => do
      let _ ← JsonLibrary.getArraySize items
      items.foldlM (loadAccount library alloc) wallet

/-- `neoc_nep6_wallet_struct_from_json`. -/
def fromJson (library : JsonLibrary) (alloc : Allocator)
    (jsonStr : CString) : Outcome (Nep6WalletStruct ExtendedAccount) :=
  match library.parse jsonStr with
  | none => .error (.error .invalidFormat "")
  | some json => do
      let wallet ←
        create alloc (library.getString json nameKey)
          (library.getString json versionKey)
      let scrypt ←
        readScrypt library (library.getObject json scryptKey) wallet.scrypt
      -- The object of the extra fields is looked up and left alone.
      loadAccounts library alloc { wallet with scrypt }
        (library.getArray json accountsKey)

/-- One account of the wallet that is copied. -/
def copyAccount (library : JsonLibrary) (alloc : Allocator)
    (dest : Nep6WalletStruct ExtendedAccount) (account : ExtendedAccount) :
    Outcome (Nep6WalletStruct ExtendedAccount) :=
  addMade alloc dest do
    let accountJson ← account.toJson library alloc
    ExtendedAccount.fromJson library alloc accountJson

/-- One extra field of the wallet that is copied. -/
def copyExtra (alloc : Allocator)
    (dest : Nep6WalletStruct ExtendedAccount)
    (field : CString × CString) :
    Outcome (Nep6WalletStruct ExtendedAccount) :=
  unchecked dest (addExtra alloc dest field.1 field.2)

/-- `neoc_nep6_wallet_struct_copy`. -/
def copy (library : JsonLibrary) (alloc : Allocator)
    (src : Nep6WalletStruct ExtendedAccount) :
    Outcome (Nep6WalletStruct ExtendedAccount) := do
  let dest ← create alloc src.name (some src.version)
  let dest ←
    src.accounts.foldlM (copyAccount library alloc)
      { dest with scrypt := src.scrypt }
  src.extra.foldlM (copyExtra alloc) dest

/-! ## What is written -/

/-- The members of the scrypt parameters. -/
def scryptFields (params : Nep2Params) :
    List (CString × Option JsonTree) :=
  [(nKey, some (.number (some params.n.toNat))),
    (rKey, some (.number (some params.r.toNat))),
    (pKey, some (.number (some params.p.toNat)))]

/-- The members of a wallet. -/
def fields (wallet : Nep6WalletStruct ExtendedAccount) :
    List (CString × Option JsonTree) :=
  [(nameKey, some (.string (wallet.name.getD unnamed))),
    (versionKey, some (.string wallet.version)),
    (scryptKey,
      some (.object (JsonTree.present (scryptFields wallet.scrypt)))),
    (accountsKey,
      some (.array (wallet.accounts.map ExtendedAccount.tree))),
    (ExtraFields.extraKey, wallet.extra.item)]

/-- The object that a wallet is written as. -/
def tree (wallet : Nep6WalletStruct ExtendedAccount) : JsonTree :=
  .object (JsonTree.present wallet.fields)

theorem apart_scryptFields (params : Nep2Params) :
    JsonTree.Apart ((scryptFields params).map Prod.fst) := by
  change JsonTree.Apart [nKey, rKey, pKey]
  decide +kernel

theorem apart_fields (wallet : Nep6WalletStruct ExtendedAccount) :
    JsonTree.Apart (wallet.fields.map Prod.fst) := by
  change
    JsonTree.Apart
      [nameKey, versionKey, scryptKey, accountsKey, ExtraFields.extraKey]
  decide +kernel

/--
There is room for a wallet, and the library keeps its object and those of its
accounts and contracts.
-/
structure Written (library : JsonLibrary) (bound : Nat)
    (wallet : Nep6WalletStruct ExtendedAccount) : Prop where
  name : ∀ text, wallet.name = some text → text.strlen + 1 ≤ bound
  version : wallet.version.strlen + 1 ≤ bound
  accounts : ∀ account ∈ wallet.accounts, account.Written library bound
  pointers : wallet.accounts.length * pointerSize ≤ bound
  extra : wallet.extra.Fit bound
  entries : wallet.extra.length * extraSize ≤ bound
  kept : library.Holds bound wallet.tree

section

variable {library : JsonLibrary} {alloc : Allocator} {bound : Nat}
  {wallet : Nep6WalletStruct ExtendedAccount}

theorem Written.nameText (written : wallet.Written library bound)
    (roomy : 128 ≤ bound) :
    (wallet.name.getD unnamed).strlen + 1 ≤ bound := by
  cases has : wallet.name with
  | none =>
      exact (by decide +kernel : unnamed.strlen + 1 ≤ 128).trans roomy
  | some text => exact written.name text has

theorem writeScrypt_present (serves : alloc.Serves bound)
    (roomy : 128 ≤ bound) (params : Nep2Params)
    (fields : List (CString × Option JsonTree)) :
    writeScrypt alloc (JsonTree.present fields) params =
      .ok
        (JsonTree.present
          (fields ++
            [(scryptKey,
              some
                (.object (JsonTree.present (scryptFields params))))])) := by
  have node : JsonTree.structSize ≤ bound :=
    (by decide : JsonTree.structSize ≤ 128).trans roomy
  have addNumber (fields : List (CString × Option JsonTree))
      (name : CString) (named : name.strlen + 1 ≤ 128) (value : Rat) :
      unchecked (JsonTree.present fields)
          (JsonTree.addNumber alloc (JsonTree.present fields) name value) =
        .ok
          (JsonTree.present
            (fields ++ [(name, some (.number (some value)))])) := by
    rw [JsonTree.addNumber_present serves node fields (named.trans roomy)
      value, unchecked_ok]
  rw [writeScrypt, serves _ node, if_neg (by decide)]
  refine Except.bind_eq_ok_iff.mpr
    ⟨_, addNumber [] nKey (by decide +kernel) _, ?_⟩
  refine Except.bind_eq_ok_iff.mpr
    ⟨_, addNumber _ rKey (by decide +kernel) _, ?_⟩
  refine Except.bind_eq_ok_iff.mpr
    ⟨_, addNumber _ pKey (by decide +kernel) _, ?_⟩
  rw [JsonTree.addItem_present serves fields
    ((by decide +kernel : scryptKey.strlen + 1 ≤ 128).trans roomy)]
  rfl

theorem accountItems_eq (serves : alloc.Serves bound)
    (roomy : 128 ≤ bound) {accounts : List ExtendedAccount}
    (written : ∀ account ∈ accounts, account.Written library bound) :
    accountItems library alloc accounts =
      .ok (accounts.map ExtendedAccount.tree) := by
  induction accounts with
  | nil => rfl
  | cons account rest induction =>
      obtain ⟨whole, later⟩ := List.forall_mem_cons.mp written
      obtain ⟨text, keeps, fits⟩ := whole.kept
      have made :
          accountItem library alloc account = .ok (some account.tree) := by
        refine Except.bind_eq_ok_iff.mpr
          ⟨_, ExtendedAccount.toJson_eq serves roomy whole keeps fits, ?_⟩
        rw [keeps.2]
      rw [accountItems, made, unchecked_ok]
      refine Except.bind_eq_ok_iff.mpr ⟨_, rfl, ?_⟩
      exact Except.bind_eq_ok_iff.mpr ⟨_, induction later, rfl⟩

/-- A wallet is written as its object. -/
theorem toJson_eq (serves : alloc.Serves bound) (roomy : 128 ≤ bound)
    (written : wallet.Written library bound) {text : CString}
    (keeps : library.Keeps wallet.tree text)
    (fits : text.strlen + 1 ≤ bound) :
    wallet.toJson library alloc = .ok text := by
  have node : JsonTree.structSize ≤ bound :=
    (by decide : JsonTree.structSize ≤ 128).trans roomy
  have addString (fields : List (CString × Option JsonTree))
      (name : CString) (named : name.strlen + 1 ≤ 128) (value : CString)
      (valued : value.strlen + 1 ≤ bound) :
      unchecked (JsonTree.present fields)
          (JsonTree.addString alloc (JsonTree.present fields) name value) =
        .ok (JsonTree.present (fields ++ [(name, some (.string value))])) := by
    have added :=
      JsonTree.addText_present serves node fields (named.trans roomy)
        (some value) (by rintro text ⟨⟩; exact valued)
    exact congrArg (unchecked _) added
  have accounts (fields : List (CString × Option JsonTree)) :
      writeAccounts library alloc (JsonTree.present fields)
          wallet.accounts =
        .ok
          (JsonTree.present
            (fields ++
              [(accountsKey,
                some
                  (.array
                    (wallet.accounts.map ExtendedAccount.tree)))])) := by
    refine Except.bind_eq_ok_iff.mpr
      ⟨_, accountItems_eq serves roomy written.accounts, ?_⟩
    rw [if_pos (serves _ node), JsonTree.addItem_present serves fields
      ((by decide +kernel : accountsKey.strlen + 1 ≤ 128).trans roomy)]
  refine Except.bind_eq_ok_iff.mpr
    ⟨_, JsonTree.createObject_present serves node _, ?_⟩
  refine Except.bind_eq_ok_iff.mpr
    ⟨_, addString _ nameKey (by decide +kernel) _ (written.nameText roomy),
      ?_⟩
  refine Except.bind_eq_ok_iff.mpr
    ⟨_, addString _ versionKey (by decide +kernel) _ written.version, ?_⟩
  refine Except.bind_eq_ok_iff.mpr
    ⟨_, writeScrypt_present serves roomy wallet.scrypt _, ?_⟩
  refine Except.bind_eq_ok_iff.mpr ⟨_, accounts _, ?_⟩
  refine Except.bind_eq_ok_iff.mpr
    ⟨_, ExtraFields.write_present serves node written.extra _, ?_⟩
  exact JsonLibrary.serialize_keeps keeps (serves.mono fits) _

/-! ## What is read and copied -/

theorem create_eq (serves : alloc.Serves bound) (roomy : 128 ≤ bound)
    {name : Option CString} {version : CString}
    (named : ∀ text, name = some text → text.strlen + 1 ≤ bound)
    (versioned : version.strlen + 1 ≤ bound) :
    create alloc name (some version) =
      .ok
        { name
          version
          scrypt := { n := 16384, r := 8, p := 8 }
          accounts := []
          extra := [] } := by
  have granted : alloc.neocGrants structSize = true :=
    serves.neocGrants (by decide)
      ((by decide : structSize ≤ 128).trans roomy)
  have copied : copyText alloc version = .ok version :=
    copyText_eq (serves _ versioned)
  have copiedName : copyOption alloc name = .ok name := by
    cases name with
    | none => rfl
    | some text =>
        rw [copyOption, copyText_eq (serves _ (named text rfl))]
        rfl
  rw [create, granted, if_neg (by decide)]
  refine Except.bind_eq_ok_iff.mpr ⟨_, copiedName, ?_⟩
  exact Except.bind_eq_ok_iff.mpr ⟨_, copied, rfl⟩

theorem readNumber_eq {scrypt : JsonTree} {name : CString}
    (value before : UInt32)
    (found :
      library.getItem scrypt name =
        some (.number (some (value.toNat : Rat)))) :
    readNumber library scrypt name before = .ok value := by
  have bounded := value.toNat_lt
  have high : (value.toNat : Int) ≤ 0xFFFFFFFF := by omega
  have read :
      (do
        let value ← library.getNumber scrypt name
        let whole ← JsonTree.convert 0 0xFFFFFFFF value
        .ok (UInt32.ofNat whole.toNat)) =
        (.ok value : Outcome UInt32) := by
    refine Except.bind_eq_ok_iff.mpr
      ⟨_, JsonLibrary.getNumber_of_item found, ?_⟩
    refine Except.bind_eq_ok_iff.mpr
      ⟨_, JsonTree.convert_natCast le_rfl high, ?_⟩
    rw [Int.toNat_natCast, UInt32.ofNat_toNat]
  rw [readNumber, read]
  rfl

theorem readScrypt_eq (params before : Nep2Params) :
    readScrypt library
        (some (.object (JsonTree.present (scryptFields params)))) before =
      .ok params := by
  have item {name : CString} {value : Option JsonTree}
      (listed : (name, value) ∈ scryptFields params) :
      library.getItem (.object (JsonTree.present (scryptFields params)))
          name =
        value :=
    JsonTree.getItem_present (apart_scryptFields params) listed
  refine Except.bind_eq_ok_iff.mpr
    ⟨_, readNumber_eq params.n _ (item (by simp [scryptFields])), ?_⟩
  refine Except.bind_eq_ok_iff.mpr
    ⟨_, readNumber_eq params.r _ (item (by simp [scryptFields])), ?_⟩
  exact Except.bind_eq_ok_iff.mpr
    ⟨_, readNumber_eq params.p _ (item (by simp [scryptFields])), rfl⟩

theorem addAccount_eq (serves : alloc.Serves bound)
    (pointers : (wallet.accounts.length + 1) * pointerSize ≤ bound)
    (account : ExtendedAccount) :
    addAccount alloc wallet account =
      .ok { wallet with accounts := wallet.accounts ++ [account] } := by
  have granted :=
    serves.neocGrants
      (Nat.mul_pos (Nat.succ_pos _) (by decide : 0 < pointerSize)) pointers
  rw [addAccount, if_pos granted]

/-- An account that is converted is added without its extra fields. -/
theorem addMade_eq (serves : alloc.Serves bound)
    (pointers : (wallet.accounts.length + 1) * pointerSize ≤ bound)
    {account : ExtendedAccount} {made : Outcome ExtendedAccount}
    (converted :
      made =
        if account.Countable then .ok account.bare
        else .error .signedOverflow) :
    addMade alloc wallet made =
      if account.Countable then
        .ok { wallet with accounts := wallet.accounts ++ [account.bare] }
      else .error .signedOverflow := by
  rw [addMade, converted]
  by_cases countable : account.Countable
  · rw [if_pos countable, if_pos countable]
    exact congrArg (unchecked _) (addAccount_eq serves pointers account.bare)
  · rw [if_neg countable, if_neg countable]
    rfl

/-- The accounts that are converted one by one. -/
theorem foldlM_accounts
    {add : Nep6WalletStruct ExtendedAccount → ExtendedAccount →
      Outcome (Nep6WalletStruct ExtendedAccount)}
    {accounts : List ExtendedAccount}
    (adds :
      ∀ account ∈ accounts, ∀ wallet,
        (wallet.accounts.length + 1) * pointerSize ≤ bound →
          add wallet account =
            if account.Countable then
              .ok
                { wallet with
                  accounts := wallet.accounts ++ [account.bare] }
            else .error .signedOverflow)
    (wallet : Nep6WalletStruct ExtendedAccount)
    (pointers :
      (wallet.accounts.length + accounts.length) * pointerSize ≤ bound) :
    accounts.foldlM add wallet =
      if ∀ account ∈ accounts, account.Countable then
        .ok
          { wallet with
            accounts :=
              wallet.accounts ++ accounts.map ExtendedAccount.bare }
      else .error .signedOverflow := by
  induction accounts generalizing wallet with
  | nil =>
      rw [if_pos (by intro account member; cases member), List.map_nil,
        List.append_nil]
      rfl
  | cons account rest induction =>
      obtain ⟨first, later⟩ := List.forall_mem_cons.mp adds
      rw [List.length_cons] at pointers
      have fits :
          (wallet.accounts.length + 1) * pointerSize ≤ bound :=
        le_trans (Nat.mul_le_mul_right _ (by omega)) pointers
      rw [List.foldlM_cons, first wallet fits]
      by_cases countable : account.Countable
      · rw [if_pos countable]
        refine (induction later _ ?_).trans ?_
        · rw [List.length_append, List.length_singleton, Nat.add_assoc,
            Nat.add_comm 1]
          exact pointers
        · simp only [List.forall_mem_cons, countable, true_and,
            List.append_assoc, List.singleton_append, List.map_cons]
      · rw [if_neg countable, if_neg]
        · rfl
        · intro all
          exact countable (all account List.mem_cons_self)

/-- Everything that is counted when the accounts are converted. -/
def AccountsCountable (wallet : Nep6WalletStruct ExtendedAccount) : Prop :=
  ∀ account ∈ wallet.accounts, account.Countable

instance (wallet : Nep6WalletStruct ExtendedAccount) :
    Decidable wallet.AccountsCountable :=
  inferInstanceAs (Decidable (∀ account ∈ wallet.accounts, _))

/-- What is read of the text of a wallet. -/
def readBack (wallet : Nep6WalletStruct ExtendedAccount) :
    Nep6WalletStruct ExtendedAccount where
  name := some (wallet.name.getD unnamed)
  version := wallet.version
  scrypt := wallet.scrypt
  accounts := wallet.accounts.map ExtendedAccount.bare
  extra := []

theorem loadAccount_eq (serves : alloc.Serves bound)
    (roomy : 128 ≤ bound) {account : ExtendedAccount}
    (written : account.Written library bound)
    (wallet : Nep6WalletStruct ExtendedAccount)
    (pointers : (wallet.accounts.length + 1) * pointerSize ≤ bound) :
    loadAccount library alloc wallet account.tree =
      if account.Countable then
        .ok { wallet with accounts := wallet.accounts ++ [account.bare] }
      else .error .signedOverflow := by
  obtain ⟨text, keeps, fits⟩ := written.kept
  rw [loadAccount, JsonLibrary.toText_keeps keeps (serves.mono fits)]
  exact addMade_eq serves pointers
    (ExtendedAccount.fromJson_eq serves roomy written keeps)

theorem loadAccounts_eq (serves : alloc.Serves bound)
    (roomy : 128 ≤ bound) {accounts : List ExtendedAccount}
    (written : ∀ account ∈ accounts, account.Written library bound)
    (wallet : Nep6WalletStruct ExtendedAccount)
    (pointers :
      (wallet.accounts.length + accounts.length) * pointerSize ≤ bound) :
    loadAccounts library alloc wallet
        (some (accounts.map ExtendedAccount.tree)) =
      if (accounts.length : Int) ≤ intMax ∧
          ∀ account ∈ accounts, account.Countable then
        .ok
          { wallet with
            accounts :=
              wallet.accounts ++ accounts.map ExtendedAccount.bare }
      else .error .signedOverflow := by
  have loaded :=
    foldlM_accounts
      (fun account member wallet =>
        loadAccount_eq serves roomy (written account member) wallet)
      wallet pointers
  rw [loadAccounts, JsonLibrary.getArraySize, List.length_map]
  by_cases counted : (accounts.length : Int) ≤ intMax
  · rw [if_pos counted, Except.bind_of_ok rfl, List.foldlM_map, loaded]
    simp only [counted, true_and]
  · rw [if_neg counted, if_neg (fun both => counted both.1)]
    rfl

/-- Its object is read as the wallet with a name and without extra fields. -/
theorem fromJson_eq (serves : alloc.Serves bound) (roomy : 128 ≤ bound)
    (written : wallet.Written library bound) {text : CString}
    (keeps : library.Keeps wallet.tree text) :
    fromJson library alloc text =
      if (wallet.accounts.length : Int) ≤ intMax ∧
          wallet.AccountsCountable then
        .ok wallet.readBack
      else .error .signedOverflow := by
  have item {name : CString} {value : Option JsonTree}
      (listed : (name, value) ∈ wallet.fields) :
      library.getItem wallet.tree name = value :=
    JsonTree.getItem_present wallet.apart_fields listed
  have named :
      library.getString wallet.tree nameKey =
        some (wallet.name.getD unnamed) :=
    JsonLibrary.getString_of_item (item (by simp [fields]))
  have versioned :
      library.getString wallet.tree versionKey = some wallet.version :=
    JsonLibrary.getString_of_item (item (by simp [fields]))
  have scrypt :
      library.getObject wallet.tree scryptKey =
        some
          (.object (JsonTree.present (scryptFields wallet.scrypt))) := by
    have found :
        library.getItem wallet.tree scryptKey =
          some
            (.object (JsonTree.present (scryptFields wallet.scrypt))) :=
      item (by simp [fields])
    exact @JsonLibrary.getObject_of_item _ _ _ (some _) found
  have accounts :
      library.getArray wallet.tree accountsKey =
        some (wallet.accounts.map ExtendedAccount.tree) :=
    JsonLibrary.getArray_of_item (item (by simp [fields]))
  have created :
      create alloc (some (wallet.name.getD unnamed)) (some wallet.version) =
        .ok
          { name := some (wallet.name.getD unnamed)
            version := wallet.version
            scrypt := { n := 16384, r := 8, p := 8 }
            accounts := []
            extra := [] } := by
    refine create_eq serves roomy ?_ written.version
    intro text same
    injection same with same
    rw [← same]
    exact written.nameText roomy
  rw [fromJson, keeps.2]
  dsimp only
  rw [named, versioned, scrypt, accounts, Except.bind_of_ok created,
    Except.bind_of_ok (readScrypt_eq wallet.scrypt _),
    loadAccounts_eq serves roomy written.accounts _
      (by simpa using written.pointers)]
  rfl

theorem copyAccount_eq (serves : alloc.Serves bound)
    (roomy : 128 ≤ bound) {account : ExtendedAccount}
    (written : account.Written library bound)
    (dest : Nep6WalletStruct ExtendedAccount)
    (pointers : (dest.accounts.length + 1) * pointerSize ≤ bound) :
    copyAccount library alloc dest account =
      if account.Countable then
        .ok { dest with accounts := dest.accounts ++ [account.bare] }
      else .error .signedOverflow := by
  obtain ⟨text, keeps, fits⟩ := written.kept
  have converted :=
    ExtendedAccount.toJson_eq serves roomy written keeps fits
  rw [copyAccount, Except.bind_of_ok converted]
  exact addMade_eq serves pointers
    (ExtendedAccount.fromJson_eq serves roomy written keeps)

theorem copyExtra_eq (serves : alloc.Serves bound) {extra : ExtraFields}
    (fit : extra.Fit bound) (dest : Nep6WalletStruct ExtendedAccount)
    (entries : (dest.extra.length + extra.length) * extraSize ≤ bound) :
    extra.foldlM (copyExtra alloc) dest =
      .ok { dest with extra := dest.extra ++ extra } := by
  induction extra generalizing dest with
  | nil =>
      rw [List.append_nil]
      rfl
  | cons field rest induction =>
      obtain ⟨⟨keyed, valued⟩, later⟩ := List.forall_mem_cons.mp fit
      rw [List.length_cons] at entries
      have room : (dest.extra.length + 1) * extraSize ≤ bound :=
        le_trans (Nat.mul_le_mul_right _ (by omega)) entries
      have granted :=
        serves.neocGrants
          (Nat.mul_pos (Nat.succ_pos _) (by decide : 0 < extraSize)) room
      have key : copyText alloc field.1 = .ok field.1 :=
        copyText_eq (serves _ keyed)
      have value : copyText alloc field.2 = .ok field.2 :=
        copyText_eq (serves _ valued)
      have added :
          copyExtra alloc dest field =
            .ok { dest with extra := dest.extra ++ [field] } := by
        rw [copyExtra, addExtra, granted, if_neg (by decide),
          Except.bind_of_ok key, Except.bind_of_ok value]
        rfl
      rw [List.foldlM_cons, Except.bind_of_ok added]
      refine (induction later _ ?_).trans ?_
      · rw [List.length_append, List.length_singleton, Nat.add_assoc,
          Nat.add_comm 1]
        exact entries
      · rw [List.append_assoc]
        rfl

/-- A copy has everything but the extra fields of the accounts. -/
theorem copy_eq (serves : alloc.Serves bound) (roomy : 128 ≤ bound)
    (written : wallet.Written library bound) :
    copy library alloc wallet =
      if wallet.AccountsCountable then
        .ok
          { wallet with
            accounts := wallet.accounts.map ExtendedAccount.bare }
      else .error .signedOverflow := by
  have created := create_eq serves roomy written.name written.version
  let dest : Nep6WalletStruct ExtendedAccount :=
    { name := wallet.name
      version := wallet.version
      scrypt := wallet.scrypt
      accounts := []
      extra := [] }
  have copied :
      wallet.accounts.foldlM (copyAccount library alloc) dest =
        if wallet.AccountsCountable then
          .ok
            { dest with
              accounts := wallet.accounts.map ExtendedAccount.bare }
        else .error .signedOverflow :=
    foldlM_accounts
      (fun account member dest =>
        copyAccount_eq serves roomy (written.accounts account member) dest)
      dest (by simpa [dest] using written.pointers)
  rw [copy, Except.bind_of_ok created, copied]
  split
  · refine (copyExtra_eq serves written.extra _ ?_).trans rfl
    simpa [dest] using written.entries
  · rfl

/-! ## What comes back -/

/-- The wallet that is read of a wallet's text is the same. -/
def Restored (library : JsonLibrary) (alloc back : Allocator)
    (wallet : Nep6WalletStruct ExtendedAccount) : Prop :=
  ∃ text,
    wallet.toJson library alloc = .ok text ∧
      fromJson library back text = .ok wallet

/-- Every account is converted there and back without a loss. -/
def Lossless (wallet : Nep6WalletStruct ExtendedAccount) : Prop :=
  ∀ account ∈ wallet.accounts, account.extra = [] ∧ account.Countable

theorem bare_eq_iff (account : ExtendedAccount) :
    account.bare = account ↔ account.extra = [] := by
  constructor
  · intro same
    rw [← same]
    rfl
  · intro none
    obtain ⟨_, extra, _⟩ := account
    cases none
    rfl

theorem map_bare_eq_iff (accounts : List ExtendedAccount) :
    accounts.map ExtendedAccount.bare = accounts ↔
      ∀ account ∈ accounts, account.extra = [] := by
  have pointwise :=
    @List.map_inj_left _ _ accounts ExtendedAccount.bare id
  rw [List.map_id] at pointwise
  rw [pointwise]
  exact forall₂_congr fun account _ => bare_eq_iff account

theorem restored_iff {back : Allocator} (serves : alloc.Serves bound)
    (servesBack : back.Serves bound) (roomy : 128 ≤ bound)
    (written : wallet.Written library bound) :
    wallet.Restored library alloc back ↔
      wallet.name.isSome = true ∧
        wallet.extra = [] ∧
          (wallet.accounts.length : Int) ≤ intMax ∧ wallet.Lossless := by
  obtain ⟨text, keeps, fits⟩ := written.kept
  have wrote := toJson_eq serves roomy written keeps fits
  have read := fromJson_eq servesBack roomy written keeps
  constructor
  · rintro ⟨other, wrote', read'⟩
    rw [wrote] at wrote'
    cases wrote'
    rw [read] at read'
    split at read'
    · rename_i counted
      injection read' with same
      have accounts := (map_bare_eq_iff wallet.accounts).mp
        (congrArg Nep6WalletStruct.accounts same)
      refine ⟨?_, (congrArg Nep6WalletStruct.extra same).symm, counted.1,
        fun account member =>
          ⟨accounts account member, counted.2 account member⟩⟩
      rw [← congrArg Nep6WalletStruct.name same]
      rfl
    · cases read'
  · rintro ⟨named, none, counted, lossless⟩
    refine ⟨text, wrote, ?_⟩
    have accounts := (map_bare_eq_iff wallet.accounts).mpr
      fun account member => (lossless account member).1
    have countable : wallet.AccountsCountable :=
      fun account member => (lossless account member).2
    obtain ⟨name, has⟩ := Option.isSome_iff_exists.mp named
    rw [read, if_pos ⟨counted, countable⟩, readBack, accounts, ← none, has]
    cases wallet
    cases has
    rfl

theorem copied_iff (serves : alloc.Serves bound) (roomy : 128 ≤ bound)
    (written : wallet.Written library bound) :
    copy library alloc wallet = .ok wallet ↔ wallet.Lossless := by
  rw [copy_eq serves roomy written]
  constructor
  · intro copied
    split at copied
    · rename_i countable
      injection copied with same
      have accounts := (map_bare_eq_iff wallet.accounts).mp
        (congrArg Nep6WalletStruct.accounts same)
      exact fun account member =>
        ⟨accounts account member, countable account member⟩
    · cases copied
  · intro lossless
    have accounts := (map_bare_eq_iff wallet.accounts).mpr
      fun account member => (lossless account member).1
    have countable : wallet.AccountsCountable :=
      fun account member => (lossless account member).2
    rw [if_pos countable, accounts]

end

/--
With memory and a library that keeps its objects, a wallet is read back from
its text exactly if it has a name and no extra fields, and it is copied
exactly, in both cases if no account has extra fields and an `int` counts what
is read.
-/
theorem comes_back_iff
    {library : JsonLibrary}
    {bound : Nat}
    (wallet : Nep6WalletStruct ExtendedAccount)
    (written : wallet.Written library bound)
    (roomy : 128 ≤ bound)
    (alloc back spare : Allocator)
    (serves : alloc.Serves bound)
    (servesBack : back.Serves bound)
    (servesSpare : spare.Serves bound) :
    (wallet.Restored library alloc back ↔
        wallet.name.isSome = true ∧
          wallet.extra = [] ∧
            (wallet.accounts.length : Int) ≤ intMax ∧ wallet.Lossless) ∧
      (copy library spare wallet = .ok wallet ↔ wallet.Lossless) :=
  ⟨restored_iff serves servesBack roomy written,
    copied_iff servesSpare roomy written⟩

/-! ## Two wallets -/

/-- The contract of an account with one key. -/
def keyContract : Nep6Contract where
  script := some (CString.ofString "deadbeef")
  parameters := [Nep6Contract.signatureParameter]
  isDeployed := false

/-- An account with everything but extra fields. -/
def primary : ExtendedAccount where
  address := some (CString.ofString "NLnyLtep7jwyq1qhNPkwXbJpurC4jUT8ke")
  label := some (CString.ofString "Primary")
  isDefault := true
  lock := false
  key := some (CString.ofString "6PYVEi6ZGdsLoCYbbGWqoYef7VWMbKwcew86m5fp")
  contract := some keyContract
  extra := []
  addressed := rfl

/-- An account with a note. -/
def noted : ExtendedAccount :=
  { primary with
    extra := [(CString.ofString "note", CString.ofString "cold")] }

/-- A wallet with an account. -/
def structWallet : Nep6WalletStruct ExtendedAccount where
  name := some (CString.ofString "StructWallet")
  version := CString.ofString "1.0"
  scrypt := { n := 16384, r := 8, p := 1 }
  accounts := [primary]
  extra := []

/-- A wallet with an extra field, and its account with one. -/
def saltedWallet : Nep6WalletStruct ExtendedAccount :=
  { structWallet with
    accounts := [noted]
    extra := [(CString.ofString "salt", CString.ofString "NaCl")] }

/-- The text of a tree. -/
def printed (tree : JsonTree) : CString :=
  CString.ofBuffer (printTree tree)

/-- The objects that occur below. -/
def smallTrees : List JsonTree :=
  [keyContract.tree, primary.tree, noted.tree, structWallet.tree,
    saltedWallet.tree]

/-- The bundled library on the texts that occur below. -/
def smallLibrary : JsonLibrary where
  parse text := smallTrees.find? fun tree => printed tree == text
  print tree := some (printed tree)
  ignoresCase := true

/-- A tree is kept whose text is none of the earlier ones. -/
theorem smallLibrary_holds {before after : List JsonTree}
    {tree : JsonTree} (listed : smallTrees = before ++ tree :: after)
    (apart : before.all (fun other => printed other != printed tree) = true)
    (fits : (printed tree).strlen + 1 ≤ 1024) :
    smallLibrary.Holds 1024 tree := by
  have absent : before.find? (fun other => printed other == printed tree) =
      none := by
    rw [List.find?_eq_none]
    intro other member equal
    have different := List.all_eq_true.mp apart other member
    exact bne_iff_ne.mp different (beq_iff_eq.mp equal)
  refine ⟨printed tree, ⟨rfl, ?_⟩, fits⟩
  change smallTrees.find? (fun other => printed other == printed tree) = _
  rw [listed, List.find?_append, absent, Option.none_or]
  exact List.find?_cons_of_pos (beq_self_eq_true (printed tree))

theorem keyContract_written : keyContract.Written smallLibrary 1024 where
  script := by
    rintro text ⟨⟩
    decide +kernel
  names := by
    intro parameter member text named
    cases List.mem_singleton.mp member
    cases named
    decide +kernel
  parameters := by decide
  kept :=
    @smallLibrary_holds []
      _ _ rfl (by decide +kernel) (by decide +kernel)

theorem primary_written : primary.Written smallLibrary 1024 where
  address := by
    rintro text ⟨⟩
    decide +kernel
  label := by
    rintro text ⟨⟩
    decide +kernel
  key := by
    rintro text ⟨⟩
    decide +kernel
  contract := by
    rintro contract ⟨⟩
    exact keyContract_written
  extra := by
    intro field member
    cases member
  kept :=
    @smallLibrary_holds [keyContract.tree]
      _ _ rfl (by decide +kernel) (by decide +kernel)

theorem noted_written : noted.Written smallLibrary 1024 where
  address := primary_written.address
  label := primary_written.label
  key := primary_written.key
  contract := primary_written.contract
  extra := by
    intro field member
    cases List.mem_singleton.mp member
    decide +kernel
  kept :=
    @smallLibrary_holds [keyContract.tree, primary.tree]
      _ _ rfl (by decide +kernel) (by decide +kernel)

theorem structWallet_written :
    structWallet.Written smallLibrary 1024 where
  name := by
    rintro text ⟨⟩
    decide +kernel
  version := by decide +kernel
  accounts := by
    intro account member
    cases List.mem_singleton.mp member
    exact primary_written
  pointers := by decide
  extra := by
    intro field member
    cases member
  entries := by decide
  kept :=
    @smallLibrary_holds [keyContract.tree, primary.tree, noted.tree]
      _ _ rfl (by decide +kernel) (by decide +kernel)

theorem saltedWallet_written :
    saltedWallet.Written smallLibrary 1024 where
  name := structWallet_written.name
  version := structWallet_written.version
  accounts := by
    intro account member
    cases List.mem_singleton.mp member
    exact noted_written
  pointers := by decide
  extra := by
    intro field member
    cases List.mem_singleton.mp member
    decide +kernel
  entries := by decide
  kept :=
    @smallLibrary_holds
      [keyContract.tree, primary.tree, noted.tree, structWallet.tree] _ _ rfl
      (by decide +kernel) (by decide +kernel)

/-- A wallet without extra fields comes back. -/
theorem structWallet_comes_back :
    structWallet.Restored smallLibrary .ample .ample ∧
      copy smallLibrary .ample structWallet =
        .ok structWallet := by
  have ample : Allocator.ample.Serves 1024 :=
    Allocator.ample_serves (by decide)
  have iffs :=
    comes_back_iff structWallet structWallet_written (by decide)
      .ample .ample .ample ample ample ample
  have lossless : structWallet.Lossless := by
    intro account member
    cases List.mem_singleton.mp member
    exact ⟨rfl, by decide⟩
  exact ⟨iffs.1.mpr ⟨rfl, rfl, by decide, lossless⟩, iffs.2.mpr lossless⟩

/-- Extra fields are lost, those of a wallet and those of an account. -/
theorem saltedWallet_not_back :
    ¬ saltedWallet.Restored smallLibrary .ample .ample ∧
      copy smallLibrary .ample saltedWallet ≠
        .ok saltedWallet := by
  have ample : Allocator.ample.Serves 1024 :=
    Allocator.ample_serves (by decide)
  have lossy : ¬ saltedWallet.Lossless := by
    intro lossless
    exact absurd (lossless noted List.mem_cons_self).1 (List.cons_ne_nil _ _)
  constructor
  · rw [restored_iff ample ample (by decide) saltedWallet_written]
    intro comesBack
    exact lossy comesBack.2.2.2
  · intro copied
    exact lossy
      ((copied_iff ample (by decide) saltedWallet_written).mp copied)

end Nep6WalletStruct

end NeoC
