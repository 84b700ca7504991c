import NeoC.Runtime.Hex
import NeoC.Runtime.Json
import NeoC.WitnessRule.BinaryCodec

/-!
# The JSON form of witness conditions and rules

A condition is written as an object with its type as text and its operands,
its hash or its key beside it.  `tree` is that object, and it is what the
writer makes of every proper condition within the limit of nesting.  The
reader looks the members up again, in whichever of the two libraries, and
builds the condition with the public constructors, so what it accepts is
proper and within the limit.
-/

namespace NeoC

open Foundation

/-! ## Names of types and actions -/

namespace WitnessConditionType

/-- `neoc_witness_condition_type_to_json_string`. -/
def toJsonString : WitnessConditionType → CString
  | .boolean => CString.ofString "Boolean"
  | .not => CString.ofString "Not"
  | .and => CString.ofString "And"
  | .or => CString.ofString "Or"
  | .scriptHash => CString.ofString "ScriptHash"
  | .group => CString.ofString "Group"
  | .calledByEntry => CString.ofString "CalledByEntry"
  | .calledByContract => CString.ofString "CalledByContract"
  | .calledByGroup => CString.ofString "CalledByGroup"

/-- The comparisons of the reader with the names of the types. -/
def ofJsonString (typeStr : CString) : Option WitnessConditionType :=
  if typeStr = CString.ofString "Boolean" then some .boolean
  else if typeStr = CString.ofString "Not" then some .not
  else if typeStr = CString.ofString "And" then some .and
  else if typeStr = CString.ofString "Or" then some .or
  else if typeStr = CString.ofString "ScriptHash" then some .scriptHash
  else if typeStr = CString.ofString "CalledByContract" then
    some .calledByContract
  else if typeStr = CString.ofString "Group" then some .group
  else if typeStr = CString.ofString "CalledByGroup" then
    some .calledByGroup
  else if typeStr = CString.ofString "CalledByEntry" then
    some .calledByEntry
  else none

theorem ofJsonString_toJsonString (type : WitnessConditionType) :
    ofJsonString type.toJsonString = some type := by
  cases type <;> decide

theorem strlen_toJsonString_le (type : WitnessConditionType) :
    type.toJsonString.strlen + 1 ≤ 128 := by
  cases type <;> decide

end WitnessConditionType

namespace WitnessAction

/-- `neoc_witness_action_to_json_string`. -/
def toJsonString : WitnessAction → CString
  | .deny => CString.ofString "Deny"
  | .allow => CString.ofString "Allow"

/-- `neoc_witness_action_from_json_string`. -/
def fromJsonString (jsonStr : CString) : Outcome WitnessAction :=
  if jsonStr = CString.ofString "Deny" then .ok .deny
  else if jsonStr = CString.ofString "Allow" then .ok .allow
  else
    .error (.error .invalidArgument "Invalid witness action JSON string")

theorem fromJsonString_toJsonString (action : WitnessAction) :
    fromJsonString action.toJsonString = .ok action := by
  cases action <;> decide

end WitnessAction

namespace WitnessCondition

/-- The names of the members. -/
def typeName : CString := CString.ofString "type"

/-- The name of the operand of a negation, and of a truth value. -/
def expressionName : CString := CString.ofString "expression"

/-- The name of the operands of a conjunction or disjunction. -/
def expressionsName : CString := CString.ofString "expressions"

def hashName : CString := CString.ofString "hash"

def groupName : CString := CString.ofString "group"

/-! ## Writing -/

/-- The depth is looked at, and an object is made with the type in it. -/
def toJsonHead (alloc : Allocator) (depth : Nat)
    (condition : WitnessCondition) : Outcome (List (CString × JsonTree)) :=
  if depth > maxNestingDepth then
    .error
      (.error .invalidFormat "Witness condition nesting depth exceeded")
  else do
    let root ←
      JsonTree.createObject alloc "Failed to allocate JSON object"
    JsonTree.addString alloc root typeName condition.type.toJsonString

/-- The member for a hash. -/
def addHash (alloc : Allocator) (root : List (CString × JsonTree))
    (hash : Hash160) : Outcome JsonTree := do
  let hashHex ← Hash160.toHex hash 41 false
  let root ←
    JsonTree.addString alloc root hashName (Hash160.marked hashHex)
  .ok (.object root)

/-- The member for a key. -/
def addGroup (alloc : Allocator) (root : List (CString × JsonTree))
    (publicKey : Option (Bytes 33)) : Outcome JsonTree :=
  match publicKey with
  | none => .error (.error .invalidState "Group condition missing key")
  | some encoded =>
      if alloc.grants 33 then
        match Hex.encodeAlloc alloc encoded.val false false with
        | none =>
            .error (.error .outOfMemory "Failed to encode group key")
        | some hex => do
            let root ← JsonTree.addString alloc root groupName hex
            .ok (.object root)
      else
        .error (.error .outOfMemory "Failed to allocate memory")

/-- The member for an operand or for the array of the operands. -/
def addObject (alloc : Allocator) (root : List (CString × JsonTree))
    (name : CString) (child : JsonTree) : Outcome JsonTree :=
  .ok (.object (JsonTree.addItem alloc root name child))

mutual

/-- `neoc_witness_condition_to_json_object`. -/
def toJsonObject (alloc : Allocator) (depth : Nat) :
    WitnessCondition → Outcome JsonTree
  | .boolean value => do
      let root ← toJsonHead alloc depth (.boolean value)
      let root ← JsonTree.addBool alloc root expressionName value
      .ok (.object root)
  | .not expression => do
      let root ← toJsonHead alloc depth (.not expression)
      let child ← toJsonObject alloc (depth + 1) expression
      addObject alloc root expressionName child
  | .and expressions => do
      let root ← toJsonHead alloc depth (.and expressions)
      JsonTree.createArray alloc
      let children ← toJsonObjects alloc (depth + 1) expressions
      addObject alloc root expressionsName (.array children)
  | .or expressions => do
      let root ← toJsonHead alloc depth (.or expressions)
      JsonTree.createArray alloc
      let children ← toJsonObjects alloc (depth + 1) expressions
      addObject alloc root expressionsName (.array children)
  | .scriptHash hash => do
      let root ← toJsonHead alloc depth (.scriptHash hash)
      addHash alloc root hash
  | .group publicKey => do
      let root ← toJsonHead alloc depth (.group publicKey)
      addGroup alloc root publicKey
  | .calledByEntry => do
      let root ← toJsonHead alloc depth .calledByEntry
      .ok (.object root)
  | .calledByContract hash => do
      let root ← toJsonHead alloc depth (.calledByContract hash)
      addHash alloc root hash
  | .calledByGroup publicKey => do
      let root ← toJsonHead alloc depth (.calledByGroup publicKey)
      addGroup alloc root publicKey

/-- The loop over the operands. -/
def toJsonObjects (alloc : Allocator) (depth : Nat) :
    List WitnessCondition → Outcome (List JsonTree)
  | [] => .ok []
  | expression :: rest => do
      let child ← toJsonObject alloc depth expression
      let children ← toJsonObjects alloc depth rest
      .ok (child :: children)

end

/-- `neoc_witness_condition_to_json`. -/
def toJson (library : JsonLibrary) (alloc : Allocator)
    (condition : Option WitnessCondition) : Outcome CString :=
  match condition with
  | none => .error (.error .invalidArgument "Invalid witness condition")
  | some condition => do
      let root ← toJsonObject alloc 0 condition
      match library.toText alloc root with
      | none =>
          .error
            (.error .outOfMemory
              "Failed to serialize witness condition JSON")
      | some serialized => .ok serialized

/-! ## Reading -/

/--
`neoc_witness_condition_array_from_json`; `operand` reads a condition one
level down.
-/
def arrayFromJson (alloc : Allocator)
    (operand : JsonTree → Outcome WitnessCondition)
    (array : List JsonTree) : Outcome (List WitnessCondition) :=
  if array.length = 0 ∨ array.length > maxSubitems then
    .error (.error .invalidFormat "Invalid witness condition array size")
  else if alloc.neocGrants (array.length * 8) = false then
    .error
      (.error .outOfMemory "Failed to allocate witness condition array")
  else
    array.mapM operand

/-- Reading the operands of a conjunction or disjunction. -/
def logicalFromJson (library : JsonLibrary) (alloc : Allocator)
    (operand : JsonTree → Outcome WitnessCondition)
    (create :
      Slice (Option WitnessCondition) → Outcome WitnessCondition)
    (object : JsonTree) : Outcome WitnessCondition :=
  match library.getArray object expressionsName with
  | none =>
      .error (.error .invalidFormat "Logical condition missing expressions")
  | some array => do
      let items ← arrayFromJson alloc operand array
      create (.items (items.map some))

/-- Reading a hash. -/
def hashFromJson (library : JsonLibrary)
    (create : Option Hash160 → Outcome WitnessCondition)
    (object : JsonTree) : Outcome WitnessCondition :=
  match library.getString object hashName with
  | none => .error (.error .invalidFormat "Hash condition missing hash")
  | some hashStr => do
      let hash ← Hash160.fromString hashStr
      create (some hash)

/-- Reading the key of a group. -/
def groupFromJson (library : JsonLibrary) (curve : Curve)
    (alloc : Allocator)
    (create : Option (EcPublicKey curve) → Outcome WitnessCondition)
    (object : JsonTree) : Outcome WitnessCondition :=
  match library.getString object groupName with
  | none => .error (.error .invalidFormat "Group condition missing group")
  | some groupStr =>
      match Hex.decodeAlloc alloc groupStr with
      | none =>
          .error (.error .invalidFormat "Invalid group key encoding")
      | some keyBytes =>
          if keyBytes.length ≠ 33 ∧ keyBytes.length ≠ 65 then
            .error (.error .invalidFormat "Invalid group key encoding")
          else do
            let publicKey ← EcPublicKey.fromBytes curve alloc keyBytes
            create (some publicKey)

/-- What is read for a type; `operand` reads a condition one level down. -/
def payloadFromJson (library : JsonLibrary) (curve : Curve)
    (alloc : Allocator) (operand : JsonTree → Outcome WitnessCondition)
    (object : JsonTree) (type : WitnessConditionType) :
    Outcome WitnessCondition :=
  match type with
  | .boolean => do
      let value ← library.getBool object expressionName
      createBoolean alloc value
  | .not =>
      match library.getObject object expressionName with
      | none =>
          .error (.error .invalidFormat "NOT condition missing expression")
      | some exprJson => do
          let inner ← operand exprJson
          createNot curve alloc (some inner)
  | .and =>
      logicalFromJson library alloc operand (createAnd curve alloc) object
  | .or =>
      logicalFromJson library alloc operand (createOr curve alloc) object
  | .scriptHash => hashFromJson library (createScriptHash alloc) object
  | .calledByContract =>
      hashFromJson library (createCalledByContract alloc) object
  | .group => groupFromJson library curve alloc (createGroup alloc) object
  | .calledByGroup =>
      groupFromJson library curve alloc (createCalledByGroup alloc) object
  | .calledByEntry => createCalledByEntry alloc

/-- `neoc_witness_condition_from_json_object`. -/
def fromJsonObject (library : JsonLibrary) (curve : Curve)
    (alloc : Allocator) (depth : Nat) (object : JsonTree) :
    Outcome WitnessCondition :=
  if depth > maxNestingDepth then
    .error
      (.error .invalidFormat "Witness condition nesting depth exceeded")
  else
    match library.getString object typeName with
    | none =>
        .error (.error .invalidFormat "Witness condition missing type")
    | some typeStr =>
        match WitnessConditionType.ofJsonString typeStr with
        | none =>
            .error (.error .invalidFormat "Unknown witness condition type")
        | some type =>
            payloadFromJson library curve alloc
              (fun item =>
                fromJsonObject library curve alloc (depth + 1) item)
              object type
termination_by maxNestingDepth + 1 - depth

/-- `neoc_witness_condition_from_json`. -/
def fromJson (library : JsonLibrary) (curve : Curve) (alloc : Allocator)
    (jsonStr : Option CString) : Outcome WitnessCondition :=
  match jsonStr with
  | none => .error (.error .invalidArgument "Invalid JSON input")
  | some jsonStr =>
      match library.parse jsonStr with
      | none =>
          .error
            (.error .invalidFormat "Failed to parse witness condition JSON")
      | some root => fromJsonObject library curve alloc 0 root

/-! ## The object that stands for a condition -/

mutual

/-- The object that stands for a condition. -/
def tree : WitnessCondition → JsonTree
  | .boolean value =>
      .object
        [(typeName, .string WitnessConditionType.boolean.toJsonString),
          (expressionName, .bool value)]
  | .not expression =>
      .object
        [(typeName, .string WitnessConditionType.not.toJsonString),
          (expressionName, tree expression)]
  | .and expressions =>
      .object
        [(typeName, .string WitnessConditionType.and.toJsonString),
          (expressionsName, .array (trees expressions))]
  | .or expressions =>
      .object
        [(typeName, .string WitnessConditionType.or.toJsonString),
          (expressionsName, .array (trees expressions))]
  | .scriptHash hash =>
      .object
        [(typeName, .string WitnessConditionType.scriptHash.toJsonString),
          (hashName,
            .string (Hash160.marked (Hex.text hash.val false false)))]
  | .group publicKey =>
      .object
        [(typeName, .string WitnessConditionType.group.toJsonString),
          (groupName,
            .string (Hex.text (groupBytes publicKey) false false))]
  | .calledByEntry =>
      .object
        [(typeName,
          .string WitnessConditionType.calledByEntry.toJsonString)]
  | .calledByContract hash =>
      .object
        [(typeName,
            .string WitnessConditionType.calledByContract.toJsonString),
          (hashName,
            .string (Hash160.marked (Hex.text hash.val false false)))]
  | .calledByGroup publicKey =>
      .object
        [(typeName,
            .string WitnessConditionType.calledByGroup.toJsonString),
          (groupName,
            .string (Hex.text (groupBytes publicKey) false false))]

/-- The objects for the operands. -/
def trees : List WitnessCondition → List JsonTree
  | [] => []
  | expression :: rest => tree expression :: trees rest

end

theorem trees_eq_map (expressions : List WitnessCondition) :
    trees expressions = expressions.map tree := by
  induction expressions with
  | nil => rfl
  | cons expression rest induction =>
      rw [trees, List.map_cons, induction]

variable {library : JsonLibrary} {curve : Curve} {alloc : Allocator}

/-! ## What is written -/

theorem toJsonHead_eq (serves : alloc.Serves 128) {depth : Nat}
    (shallow : depth ≤ maxNestingDepth) (condition : WitnessCondition) :
    toJsonHead alloc depth condition =
      .ok [(typeName, .string condition.type.toJsonString)] := by
  have created :
      JsonTree.createObject alloc "Failed to allocate JSON object" =
        .ok [] := by
    rw [JsonTree.createObject, if_pos (serves _ (by decide))]
  rw [toJsonHead, if_neg (Nat.not_lt.mpr shallow)]
  exact
    Except.bind_eq_ok_iff.mpr
      ⟨[], created,
        JsonTree.addString_eq serves (by decide) (by decide)
          condition.type.strlen_toJsonString_le⟩

theorem addHash_eq (serves : alloc.Serves 128)
    (root : List (CString × JsonTree)) (hash : Hash160) :
    addHash alloc root hash =
      .ok
        (.object
          (root ++
            [(hashName,
              .string
                (Hash160.marked (Hex.text hash.val false false)))])) := by
  have length := Hex.length_digits hash.val false
  rw [hash.property] at length
  have short :
      (Hash160.marked (Hex.text hash.val false false)).strlen + 1 ≤
        128 := by
    rw [CString.strlen, Hash160.characters_marked, List.length_cons,
      List.length_cons, length]
    decide
  refine
    Except.bind_eq_ok_iff.mpr ⟨_, Hash160.toHex_eq hash le_rfl false, ?_⟩
  exact
    Except.bind_eq_ok_iff.mpr
      ⟨_, JsonTree.addString_eq serves (by decide) (by decide) short, rfl⟩

theorem addGroup_eq (serves : alloc.Serves 128)
    (root : List (CString × JsonTree)) (encoded : Bytes 33) :
    addGroup alloc root (some encoded) =
      .ok
        (.object
          (root ++
            [(groupName,
              .string
                (Hex.text (groupBytes (some encoded)) false false))])) := by
  have length := Hex.length_digits encoded.val false
  rw [encoded.property] at length
  have short : (Hex.text encoded.val false false).strlen + 1 ≤ 128 := by
    rw [CString.strlen, Hex.characters_text, length]
    decide
  have hex :
      Hex.encodeAlloc alloc encoded.val false false =
        some (Hex.text encoded.val false false) := by
    rw [Hex.encodeAlloc, encoded.property,
      if_pos (serves.neocGrants (by decide) (by decide))]
  rw [addGroup, if_pos (serves 33 (by decide)), hex]
  exact
    Except.bind_eq_ok_iff.mpr
      ⟨_, JsonTree.addString_eq serves (by decide) (by decide) short, rfl⟩

theorem addObject_eq (serves : alloc.Serves 128)
    (root : List (CString × JsonTree)) {name : CString}
    (named : name.strlen + 1 ≤ 128) (child : JsonTree) :
    addObject alloc root name child =
      .ok (.object (root ++ [(name, child)])) := by
  rw [addObject, JsonTree.addItem_eq serves named]

theorem toJsonObjects_eq {depth : Nat}
    {expressions : List WitnessCondition}
    (each :
      ∀ expression ∈ expressions,
        toJsonObject alloc depth expression = .ok expression.tree) :
    toJsonObjects alloc depth expressions = .ok (trees expressions) := by
  induction expressions with
  | nil => rfl
  | cons expression rest induction =>
      rcases List.forall_mem_cons.mp each with ⟨first, later⟩
      rw [toJsonObjects, trees]
      refine Except.bind_eq_ok_iff.mpr ⟨_, first, ?_⟩
      exact Except.bind_eq_ok_iff.mpr ⟨_, induction later, rfl⟩

/-- With memory, the operands of a conjunction or disjunction are written. -/
theorem operands_toJson {depth : Nat} {condition : WitnessCondition}
    {expressions : List WitnessCondition}
    {root : List (CString × JsonTree)} (serves : alloc.Serves 128)
    (head : toJsonHead alloc depth condition = .ok root)
    (each :
      ∀ expression ∈ expressions,
        toJsonObject alloc (depth + 1) expression = .ok expression.tree) :
    (do
      let root ← toJsonHead alloc depth condition
      JsonTree.createArray alloc
      let children ← toJsonObjects alloc (depth + 1) expressions
      addObject alloc root expressionsName (.array children)) =
      .ok
        (.object
          (root ++ [(expressionsName, .array (trees expressions))])) := by
  have array : JsonTree.createArray alloc = .ok () := by
    rw [JsonTree.createArray, if_pos (serves _ (by decide))]
  refine Except.bind_eq_ok_iff.mpr ⟨_, head, ?_⟩
  refine Except.bind_eq_ok_iff.mpr ⟨_, array, ?_⟩
  refine Except.bind_eq_ok_iff.mpr ⟨_, toJsonObjects_eq each, ?_⟩
  exact addObject_eq serves _ (by decide) _

/-- With memory, a proper condition within the limit is written. -/
theorem Proper.toJsonObject_eq {condition : WitnessCondition}
    (proper : condition.Proper curve) (serves : alloc.Serves 128)
    {depth : Nat}
    (shallow : depth + condition.nestingDepth ≤ maxNestingDepth) :
    toJsonObject alloc depth condition = .ok condition.tree := by
  have within : depth ≤ maxNestingDepth := by omega
  induction proper generalizing depth with
  | boolean value =>
      rw [toJsonObject, tree]
      refine
        Except.bind_eq_ok_iff.mpr ⟨_, toJsonHead_eq serves within _, ?_⟩
      exact
        Except.bind_eq_ok_iff.mpr
          ⟨_, JsonTree.addBool_eq serves (by decide) (by decide) value,
            rfl⟩
  | not inner induction =>
      rw [nestingDepth] at shallow
      have nested := @induction (depth + 1) (by omega) (by omega)
      rw [toJsonObject, tree]
      refine
        Except.bind_eq_ok_iff.mpr ⟨_, toJsonHead_eq serves within _, ?_⟩
      refine Except.bind_eq_ok_iff.mpr ⟨_, nested, ?_⟩
      exact addObject_eq serves _ (by decide) _
  | and some few each induction =>
      rw [nestingDepth] at shallow
      have inside := operand_shallow shallow
      rw [toJsonObject, tree]
      refine operands_toJson serves (toJsonHead_eq serves within _) ?_
      intro expression member
      have nested := inside expression member
      exact induction expression member nested (by omega)
  | or some few each induction =>
      rw [nestingDepth] at shallow
      have inside := operand_shallow shallow
      rw [toJsonObject, tree]
      refine operands_toJson serves (toJsonHead_eq serves within _) ?_
      intro expression member
      have nested := inside expression member
      exact induction expression member nested (by omega)
  | scriptHash hash =>
      rw [toJsonObject, tree]
      exact
        Except.bind_eq_ok_iff.mpr
          ⟨_, toJsonHead_eq serves within _, addHash_eq serves _ hash⟩
  | group point =>
      rw [toJsonObject, tree]
      exact
        Except.bind_eq_ok_iff.mpr
          ⟨_, toJsonHead_eq serves within _, addGroup_eq serves _ _⟩
  | calledByEntry =>
      rw [toJsonObject, tree]
      exact
        Except.bind_eq_ok_iff.mpr ⟨_, toJsonHead_eq serves within _, rfl⟩
  | calledByContract hash =>
      rw [toJsonObject, tree]
      exact
        Except.bind_eq_ok_iff.mpr
          ⟨_, toJsonHead_eq serves within _, addHash_eq serves _ hash⟩
  | calledByGroup point =>
      rw [toJsonObject, tree]
      exact
        Except.bind_eq_ok_iff.mpr
          ⟨_, toJsonHead_eq serves within _, addGroup_eq serves _ _⟩

/-! ## The constructors, with memory -/

theorem allocCondition_eq (serves : alloc.Serves 128) :
    allocCondition alloc = .ok () := by
  rw [allocCondition, if_pos (serves _ (by decide))]

theorem clonePublicKey_eq (serves : alloc.Serves 128)
    (point : curve.Point) :
    clonePublicKey curve alloc (some (curve.compressed point)) =
      .ok (some (curve.compressed point)) := by
  have decoded :
      EcPublicKey.fromBytes curve alloc (curve.compressed point).val =
        .ok (EcPublicKey.ofPoint point true) :=
    EcPublicKey.fromBytes_compressed (serves _ (by decide))
      (EcPublicKey.ofPoint point true)
  rw [clonePublicKey, if_pos (serves 33 (by decide))]
  exact Except.bind_eq_ok_iff.mpr ⟨_, decoded, rfl⟩

theorem cloneAll_eq {expressions : List WitnessCondition}
    (each :
      ∀ expression ∈ expressions,
        cloneInternal curve alloc expression = .ok expression) :
    cloneAll curve alloc expressions = .ok expressions := by
  induction expressions with
  | nil => rfl
  | cons expression rest induction =>
      rcases List.forall_mem_cons.mp each with ⟨first, later⟩
      rw [cloneAll]
      refine Except.bind_eq_ok_iff.mpr ⟨_, first, ?_⟩
      exact Except.bind_eq_ok_iff.mpr ⟨_, induction later, rfl⟩

theorem Proper.cloneInternal_eq {condition : WitnessCondition}
    (proper : condition.Proper curve) (serves : alloc.Serves 128) :
    cloneInternal curve alloc condition = .ok condition := by
  have head : cloneHead alloc = .ok () := by
    rw [cloneHead, if_pos (serves _ (by decide))]
  have list {count : Nat} (few : count ≤ maxSubitems) :
      cloneList alloc count = .ok () := by
    simp only [maxSubitems] at few
    rw [cloneList, if_pos (serves _ (by omega))]
  induction proper with
  | boolean value =>
      rw [cloneInternal]
      exact Except.bind_eq_ok_iff.mpr ⟨_, head, rfl⟩
  | not inner induction =>
      rw [cloneInternal]
      refine Except.bind_eq_ok_iff.mpr ⟨_, head, ?_⟩
      exact Except.bind_eq_ok_iff.mpr ⟨_, induction, rfl⟩
  | and some few each induction =>
      rw [cloneInternal]
      refine Except.bind_eq_ok_iff.mpr ⟨_, head, ?_⟩
      refine Except.bind_eq_ok_iff.mpr ⟨_, list few, ?_⟩
      exact Except.bind_eq_ok_iff.mpr ⟨_, cloneAll_eq induction, rfl⟩
  | or some few each induction =>
      rw [cloneInternal]
      refine Except.bind_eq_ok_iff.mpr ⟨_, head, ?_⟩
      refine Except.bind_eq_ok_iff.mpr ⟨_, list few, ?_⟩
      exact Except.bind_eq_ok_iff.mpr ⟨_, cloneAll_eq induction, rfl⟩
  | scriptHash hash =>
      rw [cloneInternal]
      exact Except.bind_eq_ok_iff.mpr ⟨_, head, rfl⟩
  | group point =>
      rw [cloneInternal]
      refine Except.bind_eq_ok_iff.mpr ⟨_, head, ?_⟩
      exact
        Except.bind_eq_ok_iff.mpr ⟨_, clonePublicKey_eq serves point, rfl⟩
  | calledByEntry =>
      rw [cloneInternal]
      exact Except.bind_eq_ok_iff.mpr ⟨_, head, rfl⟩
  | calledByContract hash =>
      rw [cloneInternal]
      exact Except.bind_eq_ok_iff.mpr ⟨_, head, rfl⟩
  | calledByGroup point =>
      rw [cloneInternal]
      refine Except.bind_eq_ok_iff.mpr ⟨_, head, ?_⟩
      exact
        Except.bind_eq_ok_iff.mpr ⟨_, clonePublicKey_eq serves point, rfl⟩

theorem createLogical_eq (serves : alloc.Serves 128)
    {type : List WitnessCondition → WitnessCondition}
    {expressions : List WitnessCondition}
    (some : 1 ≤ expressions.length)
    (few : expressions.length ≤ maxSubitems)
    (each : ∀ expression ∈ expressions, expression.Proper curve) :
    createLogical curve alloc type (.items (expressions.map .some)) =
      .ok (type expressions) := by
  have counted :
      ¬ ((expressions.map Option.some).length = 0 ∨
        (expressions.map Option.some).length > maxSubitems) := by
    rw [List.length_map]
    omega
  have granted :
      ¬ alloc.grants ((expressions.map Option.some).length * 8) =
        false := by
    simp only [maxSubitems] at few
    rw [List.length_map, serves _ (by omega)]
    decide
  have clones :
      (expressions.map Option.some).mapM (clone curve alloc) =
        .ok expressions :=
    Except.mapM_map_eq_ok fun expression member =>
      (each expression member).cloneInternal_eq serves
  rw [createLogical, if_neg counted]
  refine Except.bind_eq_ok_iff.mpr ⟨_, allocCondition_eq serves, ?_⟩
  rw [if_neg granted]
  exact Except.bind_eq_ok_iff.mpr ⟨_, clones, rfl⟩

theorem createWithKey_eq (serves : alloc.Serves 128)
    (type : Option (Bytes 33) → WitnessCondition) (point : curve.Point) :
    createWithKey alloc type (some (EcPublicKey.ofPoint point true)) =
      .ok (type (some (curve.compressed point))) := by
  refine Except.bind_eq_ok_iff.mpr ⟨_, allocCondition_eq serves, ?_⟩
  exact
    Except.bind_eq_ok_iff.mpr ⟨_, clonePublicKey_eq serves point, rfl⟩

/-! ## What is written is read back -/

/-- The member after the type is found by its own name. -/
theorem getItem_member {name : CString} (type item : JsonTree)
    (different : library.sameName typeName name = false) :
    library.getItem (.object [(typeName, type), (name, item)]) name =
      some item := by
  rw [JsonLibrary.getItem_later type different,
    JsonLibrary.getItem_first]

theorem typeName_ne_expressionName :
    library.sameName typeName expressionName = false := by
  rw [JsonLibrary.sameName]
  split <;> decide

theorem typeName_ne_expressionsName :
    library.sameName typeName expressionsName = false := by
  rw [JsonLibrary.sameName]
  split <;> decide

theorem typeName_ne_hashName :
    library.sameName typeName hashName = false := by
  rw [JsonLibrary.sameName]
  split <;> decide

theorem typeName_ne_groupName :
    library.sameName typeName groupName = false := by
  rw [JsonLibrary.sameName]
  split <;> decide

theorem getString_typeName (condition : WitnessCondition) :
    library.getString condition.tree typeName =
      some condition.type.toJsonString := by
  cases condition <;>
    rw [tree, JsonLibrary.getString, JsonLibrary.getItem_first] <;> rfl

/-- A condition is read if what belongs to its type is. -/
theorem fromJsonObject_eq {depth : Nat}
    (shallow : depth ≤ maxNestingDepth) {condition : WitnessCondition}
    (payload :
      payloadFromJson library curve alloc
          (fromJsonObject library curve alloc (depth + 1))
          condition.tree condition.type =
        .ok condition) :
    fromJsonObject library curve alloc depth condition.tree =
      .ok condition := by
  rw [fromJsonObject, if_neg (Nat.not_lt.mpr shallow),
    getString_typeName]
  dsimp only
  rw [WitnessConditionType.ofJsonString_toJsonString]
  exact payload

theorem logicalFromJson_eq (serves : alloc.Serves 128) {depth : Nat}
    {create : Slice (Option WitnessCondition) → Outcome WitnessCondition}
    {object : JsonTree} {condition : WitnessCondition}
    {expressions : List WitnessCondition}
    (found :
      library.getItem object expressionsName =
        some (.array (trees expressions)))
    (some : 1 ≤ expressions.length)
    (few : expressions.length ≤ maxSubitems)
    (each :
      ∀ expression ∈ expressions,
        fromJsonObject library curve alloc depth expression.tree =
          .ok expression)
    (made : create (.items (expressions.map .some)) = .ok condition) :
    logicalFromJson library alloc
        (fromJsonObject library curve alloc depth) create object =
      .ok condition := by
  have length : (trees expressions).length = expressions.length := by
    rw [trees_eq_map, List.length_map]
  have read :
      arrayFromJson alloc (fromJsonObject library curve alloc depth)
          (trees expressions) =
        .ok expressions := by
    have counted :
        ¬ ((trees expressions).length = 0 ∨
          (trees expressions).length > maxSubitems) := by
      omega
    have granted :
        ¬ alloc.neocGrants ((trees expressions).length * 8) = false := by
      simp only [maxSubitems] at few
      rw [serves.neocGrants (by omega) (by omega)]
      decide
    rw [arrayFromJson, if_neg counted, if_neg granted, trees_eq_map]
    exact Except.mapM_map_eq_ok each
  rw [logicalFromJson, JsonLibrary.getArray, found]
  exact Except.bind_eq_ok_iff.mpr ⟨_, read, made⟩

theorem hashFromJson_eq
    {create : Option Hash160 → Outcome WitnessCondition}
    {object : JsonTree} {hash : Hash160}
    (found :
      library.getItem object hashName =
        some
          (.string (Hash160.marked (Hex.text hash.val false false)))) :
    hashFromJson library create object = create (some hash) := by
  rw [hashFromJson, JsonLibrary.getString, found]
  dsimp only
  rw [Hash160.fromString_marked]
  rfl

theorem groupFromJson_eq (serves : alloc.Serves 128)
    {create : Option (EcPublicKey curve) → Outcome WitnessCondition}
    {object : JsonTree} {point : curve.Point}
    (found :
      library.getItem object groupName =
        some
          (.string
            (Hex.text (groupBytes (some (curve.compressed point))) false
              false))) :
    groupFromJson library curve alloc create object =
      create (some (EcPublicKey.ofPoint point true)) := by
  have length := (curve.compressed point).property
  have bytes :
      Hex.decodeAlloc alloc
          (Hex.text (groupBytes (some (curve.compressed point))) false
            false) =
        some (curve.compressed point).val :=
    Hex.decodeAlloc_text false (by rw [groupBytes, length]; decide)
      (serves.mono (by rw [groupBytes, length]; decide))
  have decoded :
      EcPublicKey.fromBytes curve alloc (curve.compressed point).val =
        .ok (EcPublicKey.ofPoint point true) :=
    EcPublicKey.fromBytes_compressed (serves _ (by decide))
      (EcPublicKey.ofPoint point true)
  rw [groupFromJson, JsonLibrary.getString, found]
  dsimp only
  rw [bytes]
  dsimp only
  rw [if_neg (fun wrong => wrong.1 length), decoded]
  rfl

/-- With memory, what stands for a proper condition is read as it. -/
theorem Proper.fromJsonObject_tree {condition : WitnessCondition}
    (proper : condition.Proper curve) (serves : alloc.Serves 128)
    {depth : Nat}
    (shallow : depth + condition.nestingDepth ≤ maxNestingDepth) :
    fromJsonObject library curve alloc depth condition.tree =
      .ok condition := by
  have allocated := allocCondition_eq serves
  induction proper generalizing depth with
  | boolean value =>
      refine fromJsonObject_eq (by omega) ?_
      rw [tree, type, payloadFromJson, JsonLibrary.getBool,
        getItem_member _ _ typeName_ne_expressionName]
      refine Except.bind_eq_ok_iff.mpr ⟨value, rfl, ?_⟩
      exact Except.bind_eq_ok_iff.mpr ⟨_, allocated, rfl⟩
  | @not expression inner induction =>
      rw [nestingDepth] at shallow
      have nested := @induction (depth + 1) (by omega)
      have shape :
          library.getObject (tree (.not expression)) expressionName =
            some expression.tree := by
        rw [tree, JsonLibrary.getObject,
          getItem_member _ _ typeName_ne_expressionName]
        cases expression <;> rfl
      refine fromJsonObject_eq (by omega) ?_
      rw [type, payloadFromJson, shape]
      refine Except.bind_eq_ok_iff.mpr ⟨_, nested, ?_⟩
      refine Except.bind_eq_ok_iff.mpr ⟨_, allocated, ?_⟩
      exact
        Except.bind_eq_ok_iff.mpr ⟨_, inner.cloneInternal_eq serves, rfl⟩
  | and some few each induction =>
      rw [nestingDepth] at shallow
      have inside := operand_shallow shallow
      refine fromJsonObject_eq (by omega) ?_
      rw [tree, type, payloadFromJson]
      exact
        logicalFromJson_eq serves
          (getItem_member _ _ typeName_ne_expressionsName) some few
          (fun expression member =>
            induction expression member (inside expression member))
          (createLogical_eq serves some few each)
  | or some few each induction =>
      rw [nestingDepth] at shallow
      have inside := operand_shallow shallow
      refine fromJsonObject_eq (by omega) ?_
      rw [tree, type, payloadFromJson]
      exact
        logicalFromJson_eq serves
          (getItem_member _ _ typeName_ne_expressionsName) some few
          (fun expression member =>
            induction expression member (inside expression member))
          (createLogical_eq serves some few each)
  | scriptHash hash =>
      refine fromJsonObject_eq (by omega) ?_
      rw [tree, type, payloadFromJson,
        hashFromJson_eq (getItem_member _ _ typeName_ne_hashName)]
      exact Except.bind_eq_ok_iff.mpr ⟨_, allocated, rfl⟩
  | group point =>
      refine fromJsonObject_eq (by omega) ?_
      rw [tree, type, payloadFromJson,
        groupFromJson_eq serves
          (getItem_member _ _ typeName_ne_groupName)]
      exact createWithKey_eq serves .group point
  | calledByEntry =>
      refine fromJsonObject_eq (by omega) ?_
      exact Except.bind_eq_ok_iff.mpr ⟨_, allocated, rfl⟩
  | calledByContract hash =>
      refine fromJsonObject_eq (by omega) ?_
      rw [tree, type, payloadFromJson,
        hashFromJson_eq (getItem_member _ _ typeName_ne_hashName)]
      exact Except.bind_eq_ok_iff.mpr ⟨_, allocated, rfl⟩
  | calledByGroup point =>
      refine fromJsonObject_eq (by omega) ?_
      rw [tree, type, payloadFromJson,
        groupFromJson_eq serves
          (getItem_member _ _ typeName_ne_groupName)]
      exact createWithKey_eq serves .calledByGroup point

/-! ## What is accepted -/

/-- Only between one and sixteen items are taken, and all are read. -/
theorem of_arrayFromJson_eq_ok
    {operand : JsonTree → Outcome WitnessCondition}
    {array : List JsonTree} {items : List WitnessCondition}
    {property : WitnessCondition → Prop}
    (each :
      ∀ item condition,
        operand item = .ok condition → property condition)
    (read : arrayFromJson alloc operand array = .ok items) :
    ∀ item ∈ items, property item := by
  rw [arrayFromJson] at read
  split at read
  · cases read
  split at read
  · cases read
  intro item member
  rcases (Except.of_mapM_eq_ok read).2 item member with
    ⟨source, -, madeOf⟩
  exact each source item madeOf

/-- Operands one level down make a condition at this level. -/
theorem fits_logical {depth : Nat}
    {operand : JsonTree → Outcome WitnessCondition}
    {type : List WitnessCondition → WitnessCondition}
    (shallow : depth ≤ maxNestingDepth)
    (each :
      ∀ item condition,
        operand item = .ok condition → Fits curve (depth + 1) condition)
    (together :
      ∀ {expressions : List WitnessCondition},
        1 ≤ expressions.length → expressions.length ≤ maxSubitems →
          (∀ expression ∈ expressions, expression.Proper curve) →
            (type expressions).Proper curve)
    (levels :
      ∀ expressions : List WitnessCondition,
        (type expressions).nestingDepth = nestingBelow expressions)
    {object : JsonTree} {condition : WitnessCondition}
    (read :
      logicalFromJson library alloc operand
          (createLogical curve alloc type) object =
        .ok condition) :
    Fits curve depth condition := by
  rw [logicalFromJson] at read
  split at read
  · cases read
  rcases Except.bind_eq_ok_iff.mp read with ⟨items, readItems, made⟩
  have inside := of_arrayFromJson_eq_ok each readItems
  rcases
    createLogical_eq_ok
      (fun expression member => (inside expression member).1.keysOn)
      made with
    ⟨some, few, rfl⟩
  refine ⟨together some few fun expression member =>
    (inside expression member).1, ?_⟩
  have below : nestingBelow items ≤ maxNestingDepth - depth := by
    apply nestingBelow_le_iff.mpr
    intro expression member
    have within := (inside expression member).2
    omega
  rw [levels]
  omega

theorem fits_hash {depth : Nat} {type : Hash160 → WitnessCondition}
    (proper : ∀ hash, (type hash).Proper curve)
    (shallow : ∀ hash, depth + (type hash).nestingDepth ≤ maxNestingDepth)
    {object : JsonTree} {condition : WitnessCondition}
    (read :
      hashFromJson library (createWithHash alloc type) object =
        .ok condition) :
    Fits curve depth condition := by
  rw [hashFromJson] at read
  split at read
  · cases read
  rcases Except.bind_eq_ok_iff.mp read with ⟨hash, -, made⟩
  rw [leaf_eq_ok made]
  exact ⟨proper hash, shallow hash⟩

theorem fits_group {depth : Nat}
    {type : Option (Bytes 33) → WitnessCondition}
    (proper :
      ∀ point, (type (some (curve.compressed point))).Proper curve)
    (shallow :
      ∀ publicKey, depth + (type publicKey).nestingDepth ≤ maxNestingDepth)
    {object : JsonTree} {condition : WitnessCondition}
    (read :
      groupFromJson library curve alloc (createWithKey alloc type)
          object =
        .ok condition) :
    Fits curve depth condition := by
  rw [groupFromJson] at read
  split at read
  · cases read
  split at read
  · cases read
  split at read
  · cases read
  rcases Except.bind_eq_ok_iff.mp read with ⟨publicKey, -, made⟩
  rw [createWithKey_eq_ok made]
  exact ⟨proper publicKey.point, shallow _⟩

theorem fits_payload {depth : Nat}
    {operand : JsonTree → Outcome WitnessCondition}
    (shallow : depth ≤ maxNestingDepth)
    (each :
      ∀ item condition,
        operand item = .ok condition → Fits curve (depth + 1) condition)
    {object : JsonTree} {type : WitnessConditionType}
    {condition : WitnessCondition}
    (read :
      payloadFromJson library curve alloc operand object type =
        .ok condition) :
    Fits curve depth condition := by
  cases type with
  | boolean =>
      rcases Except.bind_eq_ok_iff.mp read with ⟨value, -, made⟩
      rw [leaf_eq_ok made]
      exact ⟨.boolean value, shallow⟩
  | not =>
      rw [payloadFromJson] at read
      split at read
      · cases read
      rcases Except.bind_eq_ok_iff.mp read with ⟨inner, readInner, made⟩
      have fits := each _ inner readInner
      rw [(createNot_copies fits.1.keysOn).eq_of_ok made]
      refine ⟨.not fits.1, ?_⟩
      rw [nestingDepth]
      have within := fits.2
      omega
  | and =>
      exact
        fits_logical shallow each .and (fun _ => by rw [nestingDepth]) read
  | or =>
      exact
        fits_logical shallow each .or (fun _ => by rw [nestingDepth]) read
  | scriptHash =>
      exact fits_hash .scriptHash (fun _ => shallow) read
  | group => exact fits_group .group (fun _ => shallow) read
  | calledByEntry =>
      rw [leaf_eq_ok read]
      exact ⟨.calledByEntry, shallow⟩
  | calledByContract =>
      exact fits_hash .calledByContract (fun _ => shallow) read
  | calledByGroup => exact fits_group .calledByGroup (fun _ => shallow) read

/-- Whatever is accepted is proper and within the limit. -/
theorem fits_of_fromJsonObject {depth : Nat} {object : JsonTree}
    {condition : WitnessCondition}
    (read :
      fromJsonObject library curve alloc depth object = .ok condition) :
    Fits curve depth condition := by
  -- The induction is on the levels that are left.
  induction left : maxNestingDepth + 1 - depth
    generalizing depth object condition with
  | zero =>
      rw [fromJsonObject, if_pos (by omega)] at read
      cases read
  | succ levels induction =>
      rw [fromJsonObject, if_neg (by omega)] at read
      split at read
      · cases read
      split at read
      · cases read
      exact
        fits_payload (by omega)
          (fun item condition readItem => induction readItem (by omega))
          read

theorem fits_of_fromJson {jsonStr : Option CString}
    {condition : WitnessCondition}
    (read : fromJson library curve alloc jsonStr = .ok condition) :
    condition.Proper curve ∧ condition.nestingDepth ≤ maxNestingDepth := by
  unfold fromJson at read
  split at read
  · cases read
  split at read
  · cases read
  have fits := fits_of_fromJsonObject read
  rwa [Fits, Nat.zero_add] at fits

/-- With memory, the text of a proper condition is read as it. -/
theorem Proper.json_round_trip {condition : WitnessCondition}
    (proper : condition.Proper curve)
    (shallow : condition.nestingDepth ≤ maxNestingDepth) {text : CString}
    (keeps : library.Keeps condition.tree text)
    (serves : alloc.Serves (max 128 (text.strlen + 1))) :
    toJson library alloc (some condition) = .ok text ∧
      fromJson library curve alloc (some text) = .ok condition := by
  have enough := serves.mono (le_max_left 128 (text.strlen + 1))
  have within : 0 + condition.nestingDepth ≤ maxNestingDepth := by
    rwa [Nat.zero_add]
  constructor
  · have printed :=
      JsonLibrary.toText_keeps keeps (serves.mono (le_max_right _ _))
    refine
      Except.bind_eq_ok_iff.mpr
        ⟨_, proper.toJsonObject_eq enough within, ?_⟩
    rw [printed]
  · rw [fromJson, keeps.2]
    exact proper.fromJsonObject_tree enough within

end WitnessCondition

/-! ## Rules -/

namespace WitnessRule

open WitnessCondition (Proper nestingDepth maxNestingDepth)

/-- The names of the members. -/
def actionName : CString := CString.ofString "action"

def conditionName : CString := CString.ofString "condition"

/-- `neoc_witness_rule_to_json`. -/
def toJson (library : JsonLibrary) (alloc : Allocator)
    (rule : Option WitnessRule) : Outcome CString :=
  match rule with
  | none => .error (.error .invalidArgument "Invalid witness rule")
  | some rule => do
      let root ←
        JsonTree.createObject alloc
          "Failed to allocate witness rule JSON object"
      let root ←
        JsonTree.addString alloc root actionName rule.action.toJsonString
      let conditionStr ← WitnessCondition.toJson library alloc rule.condition
      match library.parse conditionStr with
      | none =>
          .error (.error .invalidFormat "Failed to parse condition JSON")
      | some conditionJson =>
          match
            library.toText alloc
              (.object
                (JsonTree.addItem alloc root conditionName conditionJson))
          with
          | none =>
              .error
                (.error .outOfMemory "Failed to serialize witness rule JSON")
          | some serialized => .ok serialized

/-- `neoc_witness_rule_from_json`. -/
def fromJson (library : JsonLibrary) (curve : Curve) (alloc : Allocator)
    (jsonStr : Option CString) : Outcome WitnessRule :=
  match jsonStr with
  | none =>
      .error (.error .invalidArgument "Invalid witness rule JSON input")
  | some jsonStr =>
      match library.parse jsonStr with
      | none =>
          .error (.error .invalidFormat "Failed to parse witness rule JSON")
      | some root =>
          match library.getString root actionName with
          | none =>
              .error (.error .invalidFormat "Witness rule missing action")
          | some actionStr => do
              let action ← WitnessAction.fromJsonString actionStr
              match library.getObject root conditionName with
              | none =>
                  .error
                    (.error .invalidFormat "Witness rule missing condition")
              | some conditionJson =>
                  match library.toText alloc conditionJson with
                  | none =>
                      .error
                        (.error .outOfMemory
                          "Failed to serialize condition JSON")
                  | some conditionStr => do
                      let condition ←
                        WitnessCondition.fromJson library curve alloc
                          (some conditionStr)
                      if alloc.grants structSize then
                        .ok { action, condition := some condition }
                      else
                        .error
                          (.error .outOfMemory
                            "Failed to allocate witness rule")

/-- The object that stands for a rule. -/
def tree (action : WitnessAction) (condition : WitnessCondition) :
    JsonTree :=
  .object
    [(actionName, .string action.toJsonString),
      (conditionName, condition.tree)]

variable {library : JsonLibrary} {curve : Curve} {alloc : Allocator}

theorem toJson_eq {condition : WitnessCondition} {action : WitnessAction}
    (proper : condition.Proper curve)
    (shallow : condition.nestingDepth ≤ maxNestingDepth)
    {inner text : CString} (keepsInner : library.Keeps condition.tree inner)
    (keeps : library.Keeps (tree action condition) text)
    (serves :
      alloc.Serves (max 128 (max (inner.strlen + 1) (text.strlen + 1)))) :
    toJson library alloc (some { action, condition := some condition }) =
      .ok text := by
  have enough : alloc.Serves 128 := serves.mono (le_max_left _ _)
  have created :
      JsonTree.createObject alloc
          "Failed to allocate witness rule JSON object" =
        .ok [] := by
    rw [JsonTree.createObject, if_pos (enough _ (by decide))]
  have named :
      JsonTree.addString alloc [] actionName action.toJsonString =
        .ok [(actionName, .string action.toJsonString)] :=
    JsonTree.addString_eq enough (by decide) (by decide)
      (by cases action <;> decide)
  have written :=
    (proper.json_round_trip shallow keepsInner
      (serves.mono (by omega))).1
  have printed :
      library.toText alloc
          (.object
            ([(actionName, .string action.toJsonString)] ++
              [(conditionName, condition.tree)])) =
        some text :=
    JsonLibrary.toText_keeps keeps (serves.mono (by omega))
  refine Except.bind_eq_ok_iff.mpr ⟨_, created, ?_⟩
  refine Except.bind_eq_ok_iff.mpr ⟨_, named, ?_⟩
  refine Except.bind_eq_ok_iff.mpr ⟨_, written, ?_⟩
  rw [keepsInner.2]
  dsimp only
  rw [JsonTree.addItem_eq enough (by decide), printed]

theorem fromJson_eq {condition : WitnessCondition} {action : WitnessAction}
    (proper : condition.Proper curve)
    (shallow : condition.nestingDepth ≤ maxNestingDepth)
    {inner text : CString} (keepsInner : library.Keeps condition.tree inner)
    (keeps : library.Keeps (tree action condition) text)
    (serves :
      alloc.Serves (max 128 (max (inner.strlen + 1) (text.strlen + 1)))) :
    fromJson library curve alloc (some text) =
      .ok { action, condition := some condition } := by
  have different :
      library.sameName actionName conditionName = false := by
    rw [JsonLibrary.sameName]
    split <;> decide
  have actionFound :
      library.getString (tree action condition) actionName =
        some action.toJsonString := by
    rw [tree, JsonLibrary.getString, JsonLibrary.getItem_first]
  have conditionFound :
      library.getObject (tree action condition) conditionName =
        some condition.tree := by
    rw [tree, JsonLibrary.getObject,
      JsonLibrary.getItem_later _ different, JsonLibrary.getItem_first]
    cases condition <;> rfl
  have printed :=
    JsonLibrary.toText_keeps keepsInner
      (serves.mono (by omega : inner.strlen + 1 ≤ _))
  have read :=
    (proper.json_round_trip shallow keepsInner
      (serves.mono (by omega))).2
  have granted : alloc.grants structSize = true :=
    serves _ (le_trans (by decide) (le_max_left 128 _))
  rw [fromJson, keeps.2]
  dsimp only
  rw [actionFound]
  refine
    Except.bind_eq_ok_iff.mpr
      ⟨_, WitnessAction.fromJsonString_toJsonString action, ?_⟩
  rw [conditionFound]
  dsimp only
  rw [printed]
  refine Except.bind_eq_ok_iff.mpr ⟨_, read, ?_⟩
  rw [if_pos granted]

theorem fits_of_fromJson {jsonStr : Option CString} {rule : WitnessRule}
    (read : fromJson library curve alloc jsonStr = .ok rule) :
    ∃ condition,
      rule.condition = some condition ∧ condition.Proper curve ∧
        condition.nestingDepth ≤ maxNestingDepth := by
  unfold fromJson at read
  split at read
  · cases read
  split at read
  · cases read
  split at read
  · cases read
  rcases Except.bind_eq_ok_iff.mp read with ⟨action, -, read⟩
  split at read
  · cases read
  split at read
  · cases read
  rcases Except.bind_eq_ok_iff.mp read with ⟨condition, accepted, read⟩
  split at read
  · injection read with same
    rw [← same]
    exact
      ⟨condition, rfl, WitnessCondition.fits_of_fromJson accepted⟩
  · cases read

/-! ## The codec as a whole -/

/--
If the library keeps the objects that stand for them, proper conditions within
the limit of nesting, and rules with such conditions, are written as text and
read back with the same serialized form.  Whatever is accepted as text can be
serialized.
-/
theorem json_codec
    (library : JsonLibrary)
    (curve : Curve) :
    (∀ condition : WitnessCondition,
      condition.Proper curve →
        condition.nestingDepth ≤ maxNestingDepth →
          (∀ (alloc back : Allocator) (text : CString),
            library.Keeps condition.tree text →
              alloc.Serves (max 128 (text.strlen + 1)) →
                back.Serves (max 128 (text.strlen + 1)) →
                  ∃ restored,
                    WitnessCondition.toJson library alloc
                        (some condition) =
                      .ok text ∧
                    WitnessCondition.fromJson library curve back
                        (some text) =
                      .ok restored ∧
                    ∀ memory,
                      WitnessCondition.serialize memory (some restored) =
                        WitnessCondition.serialize memory
                          (some condition)) ∧
          ∀ (action : WitnessAction) (alloc back : Allocator)
              (inner text : CString),
            library.Keeps condition.tree inner →
              library.Keeps (tree action condition) text →
                alloc.Serves
                    (max 128 (max (inner.strlen + 1) (text.strlen + 1))) →
                  back.Serves
                      (max 128
                        (max (inner.strlen + 1) (text.strlen + 1))) →
                    ∃ restored,
                      toJson library alloc
                          (some { action, condition := some condition }) =
                        .ok text ∧
                      fromJson library curve back (some text) =
                        .ok restored ∧
                      ∀ memory,
                        serialize memory (some restored) =
                          serialize memory
                            (some
                              { action, condition := some condition })) ∧
    (∀ (alloc : Allocator) (jsonStr : Option CString)
        (condition : WitnessCondition),
      WitnessCondition.fromJson library curve alloc jsonStr =
          .ok condition →
        ∃ bytes, ConditionCodec curve condition bytes) ∧
    ∀ (alloc : Allocator) (jsonStr : Option CString) (rule : WitnessRule),
      fromJson library curve alloc jsonStr = .ok rule →
        ∃ bytes, RuleCodec curve rule bytes := by
  refine ⟨?_, ?_, ?_⟩
  · intro condition proper shallow
    constructor
    · intro alloc back text keeps serves servesBack
      exact
        ⟨condition, (proper.json_round_trip shallow keeps serves).1,
          (proper.json_round_trip shallow keeps servesBack).2,
          fun _ => rfl⟩
    · intro action alloc back inner text keepsInner keeps serves servesBack
      exact
        ⟨{ action, condition := some condition },
          toJson_eq proper shallow keepsInner keeps serves,
          fromJson_eq proper shallow keepsInner keeps servesBack,
          fun _ => rfl⟩
  · intro alloc jsonStr condition accepted
    rcases WitnessCondition.fits_of_fromJson accepted with
      ⟨proper, shallow⟩
    exact ⟨_, conditionCodec proper shallow⟩
  · intro alloc jsonStr rule accepted
    rcases fits_of_fromJson accepted with
      ⟨condition, carries, proper, shallow⟩
    have shape :
        rule = { action := rule.action, condition := some condition } := by
      rw [← carries]
    rw [shape]
    exact ⟨_, ruleCodec proper shallow rule.action⟩

/-- A name and a text, as cJSON prints them where nothing is escaped. -/
def printMember (name value : CString) : List UInt8 :=
  [0x22] ++ name.characters ++ [0x22, 0x3A, 0x22] ++ value.characters ++
    [0x22]

/-- What cJSON prints for the objects that occur below. -/
def printSmall : JsonTree → Option CString
  | .object [(name, .string value)] =>
      some (CString.ofBuffer ([0x7B] ++ printMember name value ++ [0x7D]))
  | .object [(name, .string value), (outer, .object [(inner, .string word)])]
      =>
      some
        (CString.ofBuffer
          ([0x7B] ++ printMember name value ++ [0x2C, 0x22] ++
            outer.characters ++ [0x22, 0x3A, 0x7B] ++
            printMember inner word ++ [0x7D, 0x7D]))
  | _ => none

/-- The bundled library on the texts that occur below. -/
def smallLibrary : JsonLibrary where
  parse text :=
    [WitnessCondition.calledByEntry.tree,
      (WitnessCondition.not .calledByEntry).tree,
      tree .allow .calledByEntry].find? fun tree =>
        printSmall tree = some text
  print := printSmall
  ignoresCase := true

/-- The text for the negation of the entry condition. -/
def negationText : CString :=
  CString.ofString
    "\x7b\"type\":\"Not\",\"expression\":\x7b\"type\":\"CalledByEntry\"\x7d\x7d"

/-- The text for the rule that allows the entry condition. -/
def ruleText : CString :=
  CString.ofString
    "\x7b\"action\":\"Allow\",\"condition\":\x7b\"type\":\"CalledByEntry\"\x7d\x7d"

/-- A negation and a rule, with the texts that stand for them. -/
theorem json_codec_entry :
    (∃ restored,
      WitnessCondition.toJson smallLibrary .ample
          (some (.not .calledByEntry)) =
        .ok negationText ∧
      WitnessCondition.fromJson smallLibrary
          (Curve.basePoint fun _ => none) .ample
          (some negationText) =
        .ok restored ∧
      ∀ memory,
        WitnessCondition.serialize memory (some restored) =
          WitnessCondition.serialize memory
            (some (.not .calledByEntry))) ∧
    ∃ restored,
      toJson smallLibrary .ample
          (some ⟨.allow, some .calledByEntry⟩) =
        .ok ruleText ∧
      fromJson smallLibrary (Curve.basePoint fun _ => none)
          .ample
          (some ruleText) =
        .ok restored ∧
      ∀ memory,
        serialize memory (some restored) =
          serialize memory (some ⟨.allow, some .calledByEntry⟩) := by
  have codec := (json_codec smallLibrary (Curve.basePoint fun _ => none)).1
  constructor
  · exact
      (codec _ (.not .calledByEntry) (by decide)).1 _ _ _
        ⟨by decide, rfl⟩ (Allocator.ample_serves (by decide))
        (Allocator.ample_serves (by decide))
  · exact
      (codec _ .calledByEntry (by decide)).2 .allow _ _
        (CString.ofString "\x7b\"type\":\"CalledByEntry\"\x7d") _
        ⟨by decide, rfl⟩ ⟨by decide, rfl⟩
        (Allocator.ample_serves (by decide))
        (Allocator.ample_serves (by decide))

end WitnessRule

end NeoC
