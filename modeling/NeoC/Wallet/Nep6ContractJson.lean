import NeoC.Wallet.Nep6Json

/-!
# The JSON form of NEP-6 contracts

A contract is written as an object with its script, a flag and an array of
parameters.  The type of a parameter is written by its name; a number that
stands for no type is written as a number.  The reader looks at the name
without its case.  It reads what was written, as long as an `int` counts the
parameters.
-/

namespace NeoC

open Foundation

/-! ## Names of types -/

namespace ContractParameterType

/-- The types, in the order of the table that the names are looked up in. -/
def table : List ContractParameterType :=
  [.any, .boolean, .integer, .byteArray, .string, .hash160, .hash256,
    .publicKey, .signature, .array, .map, .interopInterface, .void]

/-- The name of a type. -/
def name : ContractParameterType → CString
  | .any => CString.ofString "Any"
  | .boolean => CString.ofString "Boolean"
  | .integer => CString.ofString "Integer"
  | .byteArray => CString.ofString "ByteArray"
  | .string => CString.ofString "String"
  | .hash160 => CString.ofString "Hash160"
  | .hash256 => CString.ofString "Hash256"
  | .publicKey => CString.ofString "PublicKey"
  | .signature => CString.ofString "Signature"
  | .array => CString.ofString "Array"
  | .map => CString.ofString "Map"
  | .interopInterface => CString.ofString "InteropInterface"
  | .void => CString.ofString "Void"

/-- `neoc_contract_parameter_type_to_string`, for any number. -/
def toString (type : UInt32) : Option CString :=
  (table.find? fun listed => listed.value == type).map name

/-- `equals_ignore_case`. -/
def equalsIgnoreCase (a b : CString) : Bool :=
  a.characters.map toLower == b.characters.map toLower

/-- `neoc_contract_parameter_type_from_string`. -/
def fromString (str : CString) : Outcome UInt32 :=
  match table.find? fun listed => equalsIgnoreCase str listed.name with
  | some listed => .ok listed.value
  | none =>
      .error (.error .invalidArgument "Unknown contract parameter type")

theorem of_toString {type : UInt32} {text : CString}
    (named : toString type = some text) :
    ∃ listed : ContractParameterType,
      listed.value = type ∧ listed.name = text := by
  obtain ⟨listed, found, same⟩ := Option.map_eq_some_iff.mp named
  have equal := List.find?_some found
  exact ⟨listed, beq_iff_eq.mp equal, same⟩

/-- A name is read as the type that it was written for. -/
theorem fromString_toString {type : UInt32} {text : CString}
    (named : toString type = some text) :
    fromString text = .ok type := by
  obtain ⟨listed, rfl, rfl⟩ := of_toString named
  cases listed <;> decide

theorem strlen_toString_le {type : UInt32} {text : CString}
    (named : toString type = some text) :
    text.strlen + 1 ≤ 128 := by
  obtain ⟨listed, -, rfl⟩ := of_toString named
  cases listed <;> decide

end ContractParameterType

/-! ## Parameters -/

/-- Some text that is short enough is kept for the tree. -/
def JsonLibrary.Holds (library : JsonLibrary) (bound : Nat)
    (tree : JsonTree) : Prop :=
  ∃ text, library.Keeps tree text ∧ text.strlen + 1 ≤ bound

namespace Nep6Parameter

def nameKey : CString := CString.ofString "name"

def typeKey : CString := CString.ofString "type"

/-- The member for the type of a parameter. -/
def addType (alloc : Allocator) (paramObj : List (CString × JsonTree))
    (type : UInt32) : Outcome (List (CString × JsonTree)) :=
  match ContractParameterType.toString type with
  | some typeStr => JsonTree.addString alloc paramObj typeKey typeStr
  | none => JsonTree.addNumber alloc paramObj typeKey type.toNat

/-- `append_parameter_json`. -/
def appendParameterJson (alloc : Allocator) (array : List JsonTree)
    (parameter : Nep6Parameter) : Outcome (List JsonTree) := do
  let paramObj ←
    JsonTree.createObject alloc "Failed to create parameter JSON object"
  let paramObj ← JsonTree.addText alloc paramObj nameKey parameter.name
  let paramObj ← addType alloc paramObj parameter.type
  .ok (array ++ [.object paramObj])

/-- The type of a parameter that is read. -/
def readType (library : JsonLibrary) (paramJson : JsonTree) :
    Outcome UInt32 :=
  match library.getString paramJson typeKey with
  | some typeStr => ContractParameterType.fromString typeStr
  | none =>
      match library.getInt paramJson typeKey with
      | .ok typeValue =>
          .ok (UInt32.ofNat (typeValue % 0x100000000).toNat)
      | .error (.error _ _) =>
          .error (.error .invalidFormat "Parameter type missing")
      | .error reason => .error reason

/-- `parse_parameter_from_json`. -/
def parseParameterFromJson (library : JsonLibrary) (alloc : Allocator)
    (paramJson : JsonTree) : Outcome Nep6Parameter := do
  let name ←
    copyText alloc (library.getString paramJson nameKey)
      "Failed to copy parameter name"
  let type ← readType library paramJson
  .ok { name, type }

/-! ### What is written and read -/

/-- The item for the type of a parameter. -/
def typeItem (type : UInt32) : JsonTree :=
  match ContractParameterType.toString type with
  | some typeStr => .string typeStr
  | none => .number (some type.toNat)

/-- The members of a parameter. -/
def fields (parameter : Nep6Parameter) :
    List (CString × Option JsonTree) :=
  [(nameKey, parameter.name.map .string),
    (typeKey, some (typeItem parameter.type))]

/-- The object that a parameter is written as. -/
def tree (parameter : Nep6Parameter) : JsonTree :=
  .object (JsonTree.present parameter.fields)

theorem apart_fields (parameter : Nep6Parameter) :
    JsonTree.Apart (parameter.fields.map Prod.fst) := by
  change JsonTree.Apart [nameKey, typeKey]
  decide

section

variable {library : JsonLibrary} {alloc : Allocator} {bound : Nat}
  {parameter : Nep6Parameter}

theorem addType_present (serves : alloc.Serves bound)
    (roomy : 128 ≤ bound) (fields : List (CString × Option JsonTree))
    (type : UInt32) :
    addType alloc (JsonTree.present fields) type =
      .ok (JsonTree.present (fields ++ [(typeKey, some (typeItem type))])) := by
  have node : JsonTree.structSize ≤ bound :=
    (by decide : JsonTree.structSize ≤ 128).trans roomy
  have keyed : typeKey.strlen + 1 ≤ bound :=
    (by decide : typeKey.strlen + 1 ≤ 128).trans roomy
  rw [addType, typeItem]
  cases named : ContractParameterType.toString type with
  | none => exact JsonTree.addNumber_present serves node fields keyed _
  | some text =>
      refine JsonTree.addText_present serves node fields keyed
        (some text) ?_
      rintro same ⟨⟩
      have short := ContractParameterType.strlen_toString_le named
      exact short.trans roomy

theorem appendParameterJson_eq (serves : alloc.Serves bound)
    (roomy : 128 ≤ bound)
    (named : ∀ text, parameter.name = some text → text.strlen + 1 ≤ bound)
    (array : List JsonTree) :
    appendParameterJson alloc array parameter =
      .ok (array ++ [parameter.tree]) := by
  have node : JsonTree.structSize ≤ bound :=
    (by decide : JsonTree.structSize ≤ 128).trans roomy
  have keyed : nameKey.strlen + 1 ≤ bound :=
    (by decide : nameKey.strlen + 1 ≤ 128).trans roomy
  refine Except.bind_eq_ok_iff.mpr
    ⟨_, JsonTree.createObject_present serves node _, ?_⟩
  refine Except.bind_eq_ok_iff.mpr
    ⟨_, JsonTree.addText_present serves node _ keyed _ named, ?_⟩
  exact Except.bind_eq_ok_iff.mpr ⟨_, addType_present serves roomy _ _, rfl⟩

theorem readType_eq (type : UInt32) {paramJson : JsonTree}
    (found :
      library.getItem paramJson typeKey = some (typeItem type)) :
    readType library paramJson = .ok type := by
  rw [typeItem] at found
  rw [readType]
  cases named : ContractParameterType.toString type with
  | some text =>
      rw [named] at found
      rw [JsonLibrary.getString, found]
      exact ContractParameterType.fromString_toString named
  | none =>
      rw [named] at found
      have bounded := type.toNat_lt
      have high : (type.toNat : Int) ≤ 0x7FFFFFFFFFFFFFFF := by omega
      have wrapped : ((type.toNat : Int) % 0x100000000).toNat =
          type.toNat := by
        omega
      rw [JsonLibrary.getString, found]
      dsimp only
      have read : library.getInt paramJson typeKey = .ok (type.toNat : Int) :=
        Except.bind_eq_ok_iff.mpr
          ⟨_, JsonLibrary.getNumber_of_item found,
            JsonTree.convert_natCast (by decide) high⟩
      rw [read]
      dsimp only
      rw [wrapped, UInt32.ofNat_toNat]

theorem parseParameterFromJson_eq (serves : alloc.Serves bound)
    (named :
      ∀ text, parameter.name = some text → text.strlen + 1 ≤ bound) :
    parseParameterFromJson library alloc parameter.tree =
      .ok parameter := by
  have name : library.getString parameter.tree nameKey = parameter.name :=
    JsonLibrary.getString_of_item
      (JsonTree.getItem_present parameter.apart_fields List.mem_cons_self)
  have type :
      library.getItem parameter.tree typeKey =
        some (typeItem parameter.type) :=
    JsonTree.getItem_present parameter.apart_fields
      (List.mem_cons_of_mem _ List.mem_cons_self)
  rw [parseParameterFromJson, name]
  refine Except.bind_eq_ok_iff.mpr
    ⟨_, copyText_of_serves serves named _, ?_⟩
  exact Except.bind_eq_ok_iff.mpr ⟨_, readType_eq parameter.type type, rfl⟩

end

end Nep6Parameter

/-! ## Contracts -/

namespace Nep6Contract

def scriptKey : CString := CString.ofString "script"

def isDeployedKey : CString := CString.ofString "isDeployed"

def parametersKey : CString := CString.ofString "parameters"

/-- The parameters, one behind the other. -/
def appendParameters (alloc : Allocator) :
    List JsonTree → List Nep6Parameter → Outcome (List JsonTree)
  | array, [] => .ok array
  | array, parameter :: rest => do
      let array ← Nep6Parameter.appendParameterJson alloc array parameter
      appendParameters alloc array rest

/-- `neoc_nep6_contract_to_json`. -/
def toJson (library : JsonLibrary) (alloc : Allocator)
    (contract : Nep6Contract) : Outcome CString := do
  let root ← JsonTree.createObject alloc "Failed to create JSON object"
  let root ← JsonTree.addText alloc root scriptKey contract.script
  let root ←
    JsonTree.addBool alloc root isDeployedKey contract.isDeployed
  if alloc.grants JsonTree.structSize = false then
    .error (.error .outOfMemory "Failed to create parameters array")
  else do
    let paramsArray ← appendParameters alloc [] contract.parameters
    let root :=
      JsonTree.addItem alloc root parametersKey (.array paramsArray)
    library.serialize alloc (.object root)
      "Failed to serialize contract JSON"

/-- The parameters of a contract that is read. -/
def readParameters (library : JsonLibrary) (alloc : Allocator)
    (paramsArray : Option (List JsonTree)) :
    Outcome (List Nep6Parameter) :=
  match paramsArray with
  | none => .ok []
  | some items => do
      let count ← JsonLibrary.getArraySize items
      if count = 0 then
        .ok []
      else if alloc.neocGrants (count * parameterSize) = false then
        .error (.error .outOfMemory "Failed to allocate parameters array")
      else
        items.mapM (Nep6Parameter.parseParameterFromJson library alloc)

/-- `neoc_nep6_contract_from_json`. -/
def fromJson (library : JsonLibrary) (alloc : Allocator)
    (jsonStr : CString) : Outcome Nep6Contract :=
  match library.parse jsonStr with
  | none =>
      .error (.error .invalidFormat "Failed to parse contract JSON")
  | some root =>
      if alloc.neocGrants structSize = false then
        .error (.error .outOfMemory "Failed to allocate NEP-6 contract")
      else do
        let script ←
          copyText alloc (library.getString root scriptKey)
            "Failed to copy contract script"
        let isDeployed := library.getFlag root isDeployedKey
        let parameters ←
          readParameters library alloc
            (library.getArray root parametersKey)
        .ok { script, parameters, isDeployed }

/-! ### What is written and read -/

/-- The members of a contract. -/
def fields (contract : Nep6Contract) : List (CString × Option JsonTree) :=
  [(scriptKey, contract.script.map .string),
    (isDeployedKey, some (.bool contract.isDeployed)),
    (parametersKey,
      some (.array (contract.parameters.map Nep6Parameter.tree)))]

/-- The object that a contract is written as. -/
def tree (contract : Nep6Contract) : JsonTree :=
  .object (JsonTree.present contract.fields)

theorem apart_fields (contract : Nep6Contract) :
    JsonTree.Apart (contract.fields.map Prod.fst) := by
  change JsonTree.Apart [scriptKey, isDeployedKey, parametersKey]
  decide

/-- An `int` counts the parameters. -/
def Countable (contract : Nep6Contract) : Prop :=
  (contract.parameters.length : Int) ≤ intMax

instance (contract : Nep6Contract) : Decidable contract.Countable :=
  inferInstanceAs (Decidable (_ ≤ _))

/-- There is room for a contract, and the library keeps its object. -/
structure Written (library : JsonLibrary) (bound : Nat)
    (contract : Nep6Contract) : Prop where
  script :
    ∀ text, contract.script = some text → text.strlen + 1 ≤ bound
  names :
    ∀ parameter ∈ contract.parameters,
      ∀ text, parameter.name = some text → text.strlen + 1 ≤ bound
  parameters : contract.parameters.length * parameterSize ≤ bound
  kept : library.Holds bound contract.tree

section

variable {library : JsonLibrary} {alloc : Allocator} {bound : Nat}

theorem appendParameters_eq (serves : alloc.Serves bound)
    (roomy : 128 ≤ bound) {parameters : List Nep6Parameter}
    (names :
      ∀ parameter ∈ parameters,
        ∀ text, parameter.name = some text → text.strlen + 1 ≤ bound)
    (array : List JsonTree) :
    appendParameters alloc array parameters =
      .ok (array ++ parameters.map Nep6Parameter.tree) := by
  induction parameters generalizing array with
  | nil =>
      rw [List.map_nil, List.append_nil]
      rfl
  | cons parameter rest induction =>
      obtain ⟨named, later⟩ := List.forall_mem_cons.mp names
      have appended :=
        Nep6Parameter.appendParameterJson_eq serves roomy named array
      refine Except.bind_eq_ok_iff.mpr ⟨_, appended, ?_⟩
      rw [induction later, List.map_cons, List.append_assoc]
      rfl

theorem readParameters_eq (serves : alloc.Serves bound)
    {contract : Nep6Contract} (written : contract.Written library bound) :
    readParameters library alloc
        (some (contract.parameters.map Nep6Parameter.tree)) =
      if contract.Countable then .ok contract.parameters
      else .error .signedOverflow := by
  rw [readParameters, JsonLibrary.getArraySize, List.length_map]
  by_cases countable : contract.Countable
  · rw [if_pos countable]
    refine Except.bind_eq_ok_iff.mpr ⟨_, if_pos countable, ?_⟩
    split
    · rename_i none
      rw [List.eq_nil_of_length_eq_zero none]
    · rename_i some
      have granted :=
        serves.neocGrants
          (Nat.mul_pos (Nat.pos_of_ne_zero some) (by decide))
          written.parameters
      rw [granted]
      exact Except.mapM_map_eq_ok fun parameter member =>
        Nep6Parameter.parseParameterFromJson_eq serves
          (written.names parameter member)
  · rw [if_neg countable]
    have overflows :
        (if (contract.parameters.length : Int) ≤ intMax then
            .ok contract.parameters.length
          else .error .signedOverflow : Outcome Nat) =
          .error .signedOverflow :=
      if_neg countable
    rw [overflows]
    rfl

variable {contract : Nep6Contract}

/-- A contract is written as its object. -/
theorem toJson_eq (serves : alloc.Serves bound) (roomy : 128 ≤ bound)
    (written : contract.Written library bound) {text : CString}
    (keeps : library.Keeps contract.tree text)
    (fits : text.strlen + 1 ≤ bound) :
    contract.toJson library alloc = .ok text := by
  have node : JsonTree.structSize ≤ bound :=
    (by decide : JsonTree.structSize ≤ 128).trans roomy
  have short (name : CString) (named : name.strlen + 1 ≤ 128) :
      name.strlen + 1 ≤ bound :=
    named.trans roomy
  refine Except.bind_eq_ok_iff.mpr
    ⟨_, JsonTree.createObject_present serves node _, ?_⟩
  refine Except.bind_eq_ok_iff.mpr
    ⟨_, JsonTree.addText_present serves node _
      (short _ (by decide)) _ written.script, ?_⟩
  refine Except.bind_eq_ok_iff.mpr
    ⟨_, JsonTree.addBool_present serves node _
      (short _ (by decide)) _, ?_⟩
  rw [serves _ node, if_neg (by decide)]
  refine Except.bind_eq_ok_iff.mpr
    ⟨_, appendParameters_eq serves roomy written.names [], ?_⟩
  dsimp only
  rw [JsonTree.addItem_present serves _ (short _ (by decide))]
  exact JsonLibrary.serialize_keeps keeps (serves.mono fits) _

/-- Its object is read as the contract, if the parameters are counted. -/
theorem fromJson_eq (serves : alloc.Serves bound) (roomy : 128 ≤ bound)
    (written : contract.Written library bound) {text : CString}
    (keeps : library.Keeps contract.tree text) :
    fromJson library alloc text =
      if contract.Countable then .ok contract
      else .error .signedOverflow := by
  have node : alloc.neocGrants structSize = true :=
    serves.neocGrants (by decide) (le_trans (by decide) roomy)
  have script :
      library.getString contract.tree scriptKey = contract.script :=
    JsonLibrary.getString_of_item
      (JsonTree.getItem_present contract.apart_fields List.mem_cons_self)
  have deployed :
      library.getFlag contract.tree isDeployedKey = contract.isDeployed :=
    JsonLibrary.getFlag_of_item
      (JsonTree.getItem_present contract.apart_fields
        (List.mem_cons_of_mem _ List.mem_cons_self))
  have parameters :
      library.getArray contract.tree parametersKey =
        some (contract.parameters.map Nep6Parameter.tree) :=
    JsonLibrary.getArray_of_item
      (JsonTree.getItem_present contract.apart_fields
        (List.mem_cons_of_mem _
          (List.mem_cons_of_mem _ List.mem_cons_self)))
  rw [fromJson, keeps.2]
  dsimp only
  rw [node, if_neg (by decide), script, deployed, parameters,
    copyText_of_serves serves written.script,
    readParameters_eq serves written]
  split <;> rfl

end

end Nep6Contract

end NeoC
