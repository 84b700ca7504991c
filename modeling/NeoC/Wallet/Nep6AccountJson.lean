import NeoC.Wallet.Nep6ContractJson
import NeoC.Wallet.Nep6Equality

/-!
# The JSON form of NEP-6 accounts

An account is written with its contract and its extra fields, and what fails
on the way is left out without an error.  The reader looks for the object of
the extra fields and does nothing with it.  So an account is read as it was
written but for its extra fields; a contract with more parameters than an
`int` counts is not read at all.
-/

namespace NeoC

open Foundation

/-! ## Extra fields -/

namespace ExtraFields

def extraKey : CString := CString.ofString "extra"

/-- The extra fields, one behind the other. -/
def writeFields (alloc : Allocator) :
    List (CString × JsonTree) → ExtraFields →
      Outcome (List (CString × JsonTree))
  | members, [] => .ok members
  | members, field :: rest => do
      let members ←
        unchecked members
          (JsonTree.addString alloc members field.1 field.2)
      writeFields alloc members rest

/--
The member for the extra fields, if there are any.  Without memory for their
object nothing is added.
-/
def write (alloc : Allocator) (json : List (CString × JsonTree))
    (extra : ExtraFields) : Outcome (List (CString × JsonTree)) :=
  if extra.length = 0 then .ok json
  else if alloc.grants JsonTree.structSize = false then .ok json
  else do
    let members ← writeFields alloc [] extra
    .ok (JsonTree.addItem alloc json extraKey (.object members))

/-- The member that the extra fields are written as. -/
def item (extra : ExtraFields) : Option JsonTree :=
  if extra.length = 0 then none
  else some (.object (extra.map fun field => (field.1, .string field.2)))

/-- There is room for every key and every value. -/
def Fit (bound : Nat) (extra : ExtraFields) : Prop :=
  ∀ field ∈ extra,
    field.1.strlen + 1 ≤ bound ∧ field.2.strlen + 1 ≤ bound

variable {alloc : Allocator} {bound : Nat}

theorem writeFields_eq (serves : alloc.Serves bound)
    (node : JsonTree.structSize ≤ bound) {extra : ExtraFields}
    (fit : extra.Fit bound) (members : List (CString × JsonTree)) :
    writeFields alloc members extra =
      .ok
        (members ++
          extra.map fun field => (field.1, JsonTree.string field.2)) := by
  induction extra generalizing members with
  | nil =>
      rw [List.map_nil, List.append_nil]
      rfl
  | cons field rest induction =>
      obtain ⟨⟨keyed, valued⟩, later⟩ := List.forall_mem_cons.mp fit
      have added :=
        @JsonTree.addString_eq _ members _ serves node _ _ keyed valued
      rw [writeFields, added, unchecked_ok]
      refine Except.bind_eq_ok_iff.mpr ⟨_, rfl, ?_⟩
      rw [induction later, List.map_cons, List.append_assoc]
      rfl

theorem write_present (serves : alloc.Serves bound)
    (node : JsonTree.structSize ≤ bound) {extra : ExtraFields}
    (fit : extra.Fit bound) (fields : List (CString × Option JsonTree)) :
    write alloc (JsonTree.present fields) extra =
      .ok (JsonTree.present (fields ++ [(extraKey, extra.item)])) := by
  have keyed : extraKey.strlen + 1 ≤ bound :=
    (by decide : extraKey.strlen + 1 ≤ JsonTree.structSize).trans
      node
  rw [write, item]
  by_cases none : extra.length = 0
  · rw [if_pos none, if_pos none, JsonTree.present_append]
    exact congrArg _ (List.append_nil _).symm
  · rw [if_neg none, if_neg none, serves _ node, if_neg (by decide)]
    refine Except.bind_eq_ok_iff.mpr
      ⟨_, writeFields_eq serves node fit [], ?_⟩
    rw [JsonTree.addItem_present serves fields keyed, List.nil_append]

end ExtraFields

/-! ## Accounts -/

namespace ExtendedAccount

def addressKey : CString := CString.ofString "address"

def labelKey : CString := CString.ofString "label"

def isDefaultKey : CString := CString.ofString "isDefault"

def lockKey : CString := CString.ofString "lock"

def keyKey : CString := CString.ofString "key"

def contractKey : CString := CString.ofString "contract"

/-- `neoc_nep6_account_create`, which sets no extra fields. -/
def create (alloc : Allocator) (address : CString)
    (label : Option CString) (isDefault lock : Bool)
    (key : Option CString) (contract : Option Nep6Contract) :
    Outcome ExtendedAccount :=
  match made :
      Nep6Account.create alloc address label isDefault lock key contract
    with
  | .error reason => .error reason
  | .ok account =>
      .ok
        { toNep6Account := account
          extra := []
          addressed := by
            rw [Nep6Account.create_eq_ok made]
            rfl }

/-- The member for a contract that is converted and parsed. -/
def addContract (library : JsonLibrary) (alloc : Allocator)
    (json : List (CString × JsonTree)) (contract : Nep6Contract) :
    Outcome (List (CString × JsonTree)) := do
  let contractJson ← contract.toJson library alloc
  match library.parse contractJson with
  | none => .ok json
  | some contractObj =>
      .ok (JsonTree.addItem alloc json contractKey contractObj)

/-- The member for a contract, if there is one. -/
def writeContract (library : JsonLibrary) (alloc : Allocator)
    (json : List (CString × JsonTree)) (contract : Option Nep6Contract) :
    Outcome (List (CString × JsonTree)) :=
  match contract with
  | none => .ok json
  | some contract =>
      unchecked json (addContract library alloc json contract)

/-- `neoc_nep6_account_to_json`. -/
def toJson (library : JsonLibrary) (alloc : Allocator)
    (account : ExtendedAccount) : Outcome CString := do
  let json ← JsonTree.createObject alloc "Failed to create JSON object"
  let json ←
    unchecked json (JsonTree.addText alloc json addressKey account.address)
  let json ←
    unchecked json (JsonTree.addText alloc json labelKey account.label)
  let json ←
    unchecked json
      (JsonTree.addBool alloc json isDefaultKey account.isDefault)
  let json ←
    unchecked json (JsonTree.addBool alloc json lockKey account.lock)
  let json ←
    unchecked json (JsonTree.addText alloc json keyKey account.key)
  let json ← writeContract library alloc json account.contract
  let json ← ExtraFields.write alloc json account.extra
  library.serialize alloc (.object json) ""

/-- The contract of an account that is read, if it is converted. -/
def readContract (library : JsonLibrary) (alloc : Allocator)
    (contractJson : Option JsonTree) : Outcome (Option Nep6Contract) :=
  match contractJson with
  | none => .ok none
  | some contractJson =>
      match library.toText alloc contractJson with
      | none => .ok none
      | some contractStr =>
          unchecked none do
            let contract ← Nep6Contract.fromJson library alloc contractStr
            .ok (some contract)

/-- `neoc_nep6_account_from_json`. -/
def fromJson (library : JsonLibrary) (alloc : Allocator)
    (jsonStr : CString) : Outcome ExtendedAccount :=
  match library.parse jsonStr with
  | none => .error (.error .invalidFormat "")
  | some json =>
      match library.getString json addressKey with
      | none => .error (.error .invalidFormat "")
      | some address => do
          let label := library.getString json labelKey
          let isDefault := library.getFlag json isDefaultKey
          let lock := library.getFlag json lockKey
          let key := library.getString json keyKey
          let contract ←
            readContract library alloc (library.getObject json contractKey)
          -- The object of the extra fields is looked up and left alone.
          create alloc address label isDefault lock key contract

/-! ### What is written and read -/

/-- The members of an account. -/
def fields (account : ExtendedAccount) :
    List (CString × Option JsonTree) :=
  [(addressKey, account.address.map .string),
    (labelKey, account.label.map .string),
    (isDefaultKey, some (.bool account.isDefault)),
    (lockKey, some (.bool account.lock)),
    (keyKey, account.key.map .string),
    (contractKey, account.contract.map Nep6Contract.tree),
    (ExtraFields.extraKey, account.extra.item)]

/-- The object that an account is written as. -/
def tree (account : ExtendedAccount) : JsonTree :=
  .object (JsonTree.present account.fields)

theorem apart_fields (account : ExtendedAccount) :
    JsonTree.Apart (account.fields.map Prod.fst) := by
  change
    JsonTree.Apart
      [addressKey, labelKey, isDefaultKey, lockKey, keyKey, contractKey,
        ExtraFields.extraKey]
  decide

/-- The account without its extra fields. -/
def bare (account : ExtendedAccount) : ExtendedAccount :=
  { account with extra := [] }

/-- An `int` counts the parameters of the contract. -/
def Countable (account : ExtendedAccount) : Prop :=
  ∀ contract ∈ account.contract, contract.Countable

instance (account : ExtendedAccount) : Decidable account.Countable :=
  inferInstanceAs (Decidable (∀ contract ∈ account.contract, _))

/-- There is room for an account, and the library keeps its object. -/
structure Written (library : JsonLibrary) (bound : Nat)
    (account : ExtendedAccount) : Prop where
  address :
    ∀ text, account.address = some text → text.strlen + 1 ≤ bound
  label : ∀ text, account.label = some text → text.strlen + 1 ≤ bound
  key : ∀ text, account.key = some text → text.strlen + 1 ≤ bound
  contract :
    ∀ contract,
      account.contract = some contract → contract.Written library bound
  extra : account.extra.Fit bound
  kept : library.Holds bound account.tree

section

variable {library : JsonLibrary} {alloc : Allocator} {bound : Nat}

theorem create_eq {address : CString} {label key : Option CString}
    {isDefault lock : Bool} {contract : Option Nep6Contract}
    {account : ExtendedAccount}
    (made :
      Nep6Account.create alloc address label isDefault lock key contract =
        .ok account.toNep6Account) :
    create alloc address label isDefault lock key contract =
      .ok account.bare := by
  unfold create
  split
  · rename_i failed
    rw [made] at failed
    cases failed
  · rename_i other succeeded
    rw [made] at succeeded
    cases succeeded
    rfl

theorem writeContract_present (serves : alloc.Serves bound)
    (roomy : 128 ≤ bound) {contract : Option Nep6Contract}
    (written :
      ∀ given, contract = some given → given.Written library bound)
    (fields : List (CString × Option JsonTree)) :
    writeContract library alloc (JsonTree.present fields) contract =
      .ok
        (JsonTree.present
          (fields ++
            [(contractKey, contract.map Nep6Contract.tree)])) := by
  cases contract with
  | none =>
      rw [JsonTree.present_append]
      exact congrArg _ (List.append_nil _).symm
  | some contract =>
      have whole := written contract rfl
      obtain ⟨text, keeps, fits⟩ := whole.kept
      have keyed : contractKey.strlen + 1 ≤ bound :=
        (by decide : contractKey.strlen + 1 ≤ 128).trans roomy
      have added :
          addContract library alloc (JsonTree.present fields) contract =
            .ok
              (JsonTree.present
                (fields ++ [(contractKey, some contract.tree)])) := by
        refine Except.bind_eq_ok_iff.mpr
          ⟨_, Nep6Contract.toJson_eq serves roomy whole keeps fits, ?_⟩
        rw [keeps.2]
        dsimp only
        rw [JsonTree.addItem_present serves fields keyed]
      rw [writeContract, added]
      rfl

/-- An account is written as its object. -/
theorem toJson_eq {account : ExtendedAccount}
    (serves : alloc.Serves bound) (roomy : 128 ≤ bound)
    (written : account.Written library bound) {text : CString}
    (keeps : library.Keeps account.tree text)
    (fits : text.strlen + 1 ≤ bound) :
    account.toJson library alloc = .ok text := by
  have node : JsonTree.structSize ≤ bound :=
    (by decide : JsonTree.structSize ≤ 128).trans roomy
  have short (name : CString) (named : name.strlen + 1 ≤ 128) :
      name.strlen + 1 ≤ bound :=
    named.trans roomy
  have addText (fields : List (CString × Option JsonTree)) (name : CString)
      (named : name.strlen + 1 ≤ 128) (value : Option CString)
      (valued : ∀ text, value = some text → text.strlen + 1 ≤ bound) :
      unchecked (JsonTree.present fields)
          (JsonTree.addText alloc (JsonTree.present fields) name value) =
        .ok (JsonTree.present (fields ++ [(name, value.map .string)])) := by
    rw [JsonTree.addText_present serves node fields (short name named) value
      valued, unchecked_ok]
  have addBool (fields : List (CString × Option JsonTree)) (name : CString)
      (named : name.strlen + 1 ≤ 128) (value : Bool) :
      unchecked (JsonTree.present fields)
          (JsonTree.addBool alloc (JsonTree.present fields) name value) =
        .ok (JsonTree.present (fields ++ [(name, some (.bool value))])) := by
    rw [JsonTree.addBool_present serves node fields (short name named) value,
      unchecked_ok]
  refine Except.bind_eq_ok_iff.mpr
    ⟨_, JsonTree.createObject_present serves node _, ?_⟩
  refine Except.bind_eq_ok_iff.mpr
    ⟨_, addText _ addressKey (by decide) _ written.address, ?_⟩
  refine Except.bind_eq_ok_iff.mpr
    ⟨_, addText _ labelKey (by decide) _ written.label, ?_⟩
  refine Except.bind_eq_ok_iff.mpr
    ⟨_, addBool _ isDefaultKey (by decide) _, ?_⟩
  refine Except.bind_eq_ok_iff.mpr
    ⟨_, addBool _ lockKey (by decide) _, ?_⟩
  refine Except.bind_eq_ok_iff.mpr
    ⟨_, addText _ keyKey (by decide) _ written.key, ?_⟩
  refine Except.bind_eq_ok_iff.mpr
    ⟨_, writeContract_present serves roomy written.contract _, ?_⟩
  refine Except.bind_eq_ok_iff.mpr
    ⟨_, ExtraFields.write_present serves node written.extra _, ?_⟩
  exact JsonLibrary.serialize_keeps keeps (serves.mono fits) _

theorem readContract_eq (serves : alloc.Serves bound)
    (roomy : 128 ≤ bound) {account : ExtendedAccount}
    (written : account.Written library bound) :
    readContract library alloc
        (account.contract.map Nep6Contract.tree) =
      if account.Countable then .ok account.contract
      else .error .signedOverflow := by
  cases has : account.contract with
  | none =>
      have countable : account.Countable := by
        intro contract member
        rw [has] at member
        cases member
      rw [if_pos countable]
      rfl
  | some contract =>
      have whole := written.contract contract has
      obtain ⟨text, keeps, fits⟩ := whole.kept
      have countable_iff : account.Countable ↔ contract.Countable := by
        constructor
        · intro countable
          exact countable contract has
        · intro countable other member
          rw [has] at member
          cases member
          exact countable
      have read := Nep6Contract.fromJson_eq serves roomy whole keeps
      rw [Option.map_some, readContract,
        JsonLibrary.toText_keeps keeps (serves.mono fits)]
      dsimp only
      rw [read]
      by_cases countable : contract.Countable
      · rw [if_pos countable, if_pos (countable_iff.mpr countable)]
        rfl
      · rw [if_neg countable,
          if_neg (fun other => countable (countable_iff.mp other))]
        rfl

/-- Its object is read as the account without its extra fields. -/
theorem fromJson_eq {account : ExtendedAccount}
    (serves : alloc.Serves bound) (roomy : 128 ≤ bound)
    (written : account.Written library bound) {text : CString}
    (keeps : library.Keeps account.tree text) :
    fromJson library alloc text =
      if account.Countable then .ok account.bare
      else .error .signedOverflow := by
  obtain ⟨address, has⟩ := Option.isSome_iff_exists.mp account.addressed
  have item {name : CString} {value : Option JsonTree}
      (listed : (name, value) ∈ account.fields) :
      library.getItem account.tree name = value :=
    JsonTree.getItem_present account.apart_fields listed
  have addressed : library.getString account.tree addressKey = some address :=
    has ▸ JsonLibrary.getString_of_item (item (by simp [fields]))
  have labelled : library.getString account.tree labelKey = account.label :=
    JsonLibrary.getString_of_item (item (by simp [fields]))
  have isDefault :
      library.getFlag account.tree isDefaultKey = account.isDefault :=
    JsonLibrary.getFlag_of_item (item (by simp [fields]))
  have lock : library.getFlag account.tree lockKey = account.lock :=
    JsonLibrary.getFlag_of_item (item (by simp [fields]))
  have keyed : library.getString account.tree keyKey = account.key :=
    JsonLibrary.getString_of_item (item (by simp [fields]))
  have contract :
      library.getObject account.tree contractKey =
        account.contract.map Nep6Contract.tree := by
    have listed :
        (contractKey, account.contract.map Nep6Contract.tree) ∈
          account.fields := by
      simp [fields]
    have found :
        library.getItem account.tree contractKey =
          (account.contract.map fun contract =>
            JsonTree.present contract.fields).map JsonTree.object := by
      rw [Option.map_map]
      exact item listed
    rw [JsonLibrary.getObject_of_item found, Option.map_map]
    rfl
  have made :
      Nep6Account.create alloc address account.label account.isDefault
          account.lock account.key account.contract =
        .ok account.toNep6Account := by
    rw [Nep6Account.create_of_serves serves
      ((by decide : Nep6Account.structSize ≤ 128).trans roomy)
      (written.address address has) written.label account.isDefault
      account.lock written.key account.contract, ← has]
  rw [fromJson, keeps.2]
  dsimp only
  rw [addressed]
  dsimp only
  rw [labelled, isDefault, lock, keyed, contract,
    readContract_eq serves roomy written]
  split
  · exact create_eq made
  · rfl

end

end ExtendedAccount

end NeoC
