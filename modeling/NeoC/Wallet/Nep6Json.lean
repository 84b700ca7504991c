import NeoC.Runtime.Json
import NeoC.Wallet.Nep6

/-!
# NEP-6 wallets from JSON

A wallet file is parsed by the library and its members are looked up one by
one.  What is missing or of another kind is left out of the wallet without
an error, and so is a text for which there is no memory.  The accounts are
stored in an array of their number; the capacity of the array is never
recorded, and their contracts are not read.
-/

namespace NeoC

open Foundation

/-- `INT_MAX`. -/
def intMax : Int := 0x7FFFFFFF

/-- `INT_MIN`. -/
def intMin : Int := -0x80000000

namespace JsonLibrary

variable (library : JsonLibrary)

/--
`cJSON_GetObjectItem`.  Each library compares the names here the way the
other one does for `cJSON_GetObjectItemCaseSensitive`.
-/
def getObjectItem (object : JsonTree) (name : CString) : Option JsonTree :=
  { library with ignoresCase := !library.ignoresCase }.getItem object name

/--
`valueint` of an item.  A number that is out of range is cut to the range by
the library of a system; the bundled one converts it without a look.
-/
def valueint : JsonTree → Outcome Int
  | .number none =>
      if library.ignoresCase then .error .signedOverflow else .ok intMax
  | .number (some valuedouble) =>
      let whole := valuedouble.num.tdiv valuedouble.den
      if intMin ≤ whole ∧ whole ≤ intMax then
        .ok whole
      else if library.ignoresCase then
        .error .signedOverflow
      else
        .ok (if 0 < whole then intMax else intMin)
  | .bool true => .ok 1
  | _ => .ok 0

/-- `cJSON_GetArraySize`, which counts in an `int`. -/
def getArraySize (items : List JsonTree) : Outcome Nat :=
  if (items.length : Int) ≤ intMax then
    .ok items.length
  else
    .error .signedOverflow

end JsonLibrary

namespace Nep6Wallet

variable (library : JsonLibrary) (alloc : Allocator)

/-- The copy of a text by `strdup`, where there is one to copy. -/
def readText (item : Option JsonTree) : Option CString :=
  match item with
  | some (.string valuestring) =>
      if alloc.grants (valuestring.strlen + 1) then
        some valuestring
      else
        none
  | _ => none

/-- A flag, which is off unless it is written as one. -/
def readFlag (item : Option JsonTree) : Bool :=
  match item with
  | some (.bool value) => value
  | _ => false

/-- A number of the scrypt parameters; it is kept modulo `2 ^ 32`. -/
def readParameter (item : Option JsonTree) : Outcome UInt32 :=
  match item with
  | none => .ok 0
  | some item => do
      let valueint ← library.valueint item
      .ok (UInt32.ofNat (valueint % 0x100000000).toNat)

/-- The parameters, of which all that are not found are zero. -/
def readScrypt (scrypt : Option JsonTree) : Outcome Nep2Params :=
  match scrypt with
  | none => .ok { n := 0, r := 0, p := 0 }
  | some scrypt => do
      let item name :=
        library.getObjectItem scrypt (CString.ofString name)
      let n ← readParameter library (item "n")
      let r ← readParameter library (item "r")
      let p ← readParameter library (item "p")
      .ok { n, r, p }

/-- An item of an account, by its name. -/
def accountItem (account : JsonTree) (name : String) : Option JsonTree :=
  library.getObjectItem account (CString.ofString name)

/-- The members of an account that a loaded wallet keeps. -/
def loadedAccount (account : JsonTree) : Nep6Account where
  address := readText alloc (accountItem library account "address")
  label := readText alloc (accountItem library account "label")
  isDefault := readFlag (accountItem library account "isDefault")
  lock := readFlag (accountItem library account "lock")
  key := readText alloc (accountItem library account "key")
  contract := none

/-- Whether an item is a string, which is then copied. -/
def isText (item : Option JsonTree) : Bool :=
  match item with
  | some (.string _) => true
  | _ => false

/-- Whether an item is a flag, which is then stored. -/
def isFlag (item : Option JsonTree) : Bool :=
  match item with
  | some (.bool _) => true
  | _ => false

/-- Whether any member of an account is stored. -/
def storesAny (account : JsonTree) : Bool :=
  isText (accountItem library account "address") ||
    isText (accountItem library account "label") ||
    isFlag (accountItem library account "isDefault") ||
    isFlag (accountItem library account "lock") ||
    isText (accountItem library account "key")

/--
One account of a wallet file.  Without memory for it, its members are stored
through `NULL`; when there are none, a missing account is left in the array,
and it is read like one without members.
-/
def readNep6Account (account : JsonTree) : Outcome Nep6Account :=
  if alloc.neocGrants Nep6Account.structSize = false ∧
      storesAny library account then
    .error .illegalAccess
  else
    .ok (loadedAccount library alloc account)

/-- The items of a file's accounts. -/
def accountItems (jsonObj : JsonTree) : List JsonTree :=
  match library.getObjectItem jsonObj (CString.ofString "accounts") with
  | some (.array items) => items
  | _ => []

/-- The accounts, stored one by one in an array of their number. -/
def readAccounts (items : List JsonTree) : Outcome (List Nep6Account) := do
  let accountCount ← JsonLibrary.getArraySize items
  if 0 < accountCount ∧
      alloc.neocGrants (accountCount * pointerSize) = false then
    .error .illegalAccess
  else
    items.mapM (readNep6Account library alloc)

/-- `neoc_nep6_wallet_from_json`. -/
def fromJson (jsonStr : CString) : Outcome Nep6Wallet :=
  match library.parse jsonStr with
  | none => .error (.error .invalidFormat "Invalid JSON")
  | some jsonObj =>
      if alloc.neocGrants structSize = false then
        .error (.error .outOfMemory "Failed to allocate wallet")
      else do
        let item name :=
          library.getObjectItem jsonObj (CString.ofString name)
        let scrypt ← readScrypt library (item "scrypt")
        let accounts ←
          readAccounts library alloc (accountItems library jsonObj)
        .ok
          { name := readText alloc (item "name")
            version := readText alloc (item "version")
            scrypt
            accounts
            accountCapacity := 0
            slots := accounts.length }

variable {library alloc}

/-- Every account that was read is made of its item. -/
theorem readAccounts_eq_ok {items : List JsonTree}
    {accounts : List Nep6Account}
    (made : readAccounts library alloc items = .ok accounts) :
    accounts = items.map (loadedAccount library alloc) := by
  rw [readAccounts] at made
  rcases Except.bind_eq_ok_iff.mp made with ⟨count, -, rest⟩
  split at rest
  · cases rest
  clear made
  induction items generalizing accounts with
  | nil =>
      injection rest with same
      exact same.symm
  | cons item items induction =>
      rw [List.mapM_cons] at rest
      rcases Except.bind_eq_ok_iff.mp rest with ⟨first, read, rest⟩
      rcases Except.bind_eq_ok_iff.mp rest with ⟨others, later, rest⟩
      injection rest with same
      rw [readNep6Account] at read
      split at read
      · cases read
      injection read with read
      rw [← same, ← read, induction later, List.map_cons]

/-- What a wallet that was loaded consists of. -/
theorem fromJson_eq_ok {jsonStr : CString} {wallet : Nep6Wallet}
    (loaded : fromJson library alloc jsonStr = .ok wallet) :
    ∃ jsonObj scrypt,
      library.parse jsonStr = some jsonObj ∧
        readScrypt library
            (library.getObjectItem jsonObj (CString.ofString "scrypt")) =
          .ok scrypt ∧
        wallet =
          { name :=
              readText alloc
                (library.getObjectItem jsonObj (CString.ofString "name"))
            version :=
              readText alloc
                (library.getObjectItem jsonObj
                  (CString.ofString "version"))
            scrypt
            accounts :=
              (accountItems library jsonObj).map
                (loadedAccount library alloc)
            accountCapacity := 0
            slots := (accountItems library jsonObj).length } := by
  unfold fromJson at loaded
  split at loaded
  · cases loaded
  rename_i jsonObj parsed
  split at loaded
  · cases loaded
  dsimp only at loaded
  rcases Except.bind_eq_ok_iff.mp loaded with ⟨scrypt, read, rest⟩
  rcases Except.bind_eq_ok_iff.mp rest with ⟨accounts, made, rest⟩
  injection rest with same
  have listed := readAccounts_eq_ok made
  refine ⟨jsonObj, scrypt, parsed, read, ?_⟩
  rw [← same, listed, List.length_map]

end Nep6Wallet

end NeoC
