import NeoC.Script.ScriptBuilder

/-!
# Contract parameters on the evaluation stack

`neoc_script_builder_push_param` compiles a tree of contract parameters into a
script.  The tree has a meaning of its own, `denote`: the stack item the
contract should receive.  This module follows the compiler, gives the program
it emits, and compares what running that program leaves on the stack with the
meaning of the tree.

The two differ in three ways.  `Any` and `Void` push nothing.  A signature is
read through the wrong member of the value union.  Array elements are pushed
first to last, and `PACK` takes the last one first, so every array arrives
reversed.
-/

namespace NeoC

open Foundation NeoVm

/--
A pointer to a `neoc_contract_parameter_t`: `NULL`, or a type together with
the member of the value union that belongs to it.
-/
inductive ContractParameter where
  | null
  | any
  | void
  | boolean (value : Bool)
  | integer (value : Int64)
  | byteArray (data : Buffer)
  | string (value : Option CString)
  | hash160 (hash : Hash160)
  | hash256 (hash : Hash256)
  | publicKey (data : Bytes 33)
  | signature (data : Bytes 64)
  | array (items : List ContractParameter)
  | map (entries : List (ContractParameter × ContractParameter))
  | interopInterface

namespace ContractParameter

/-! ## Trees -/

/-- A parameter without parameters inside. -/
def IsLeaf : ContractParameter → Prop
  | .array _ => False
  | .map _ => False
  | _ => True

/-- Induction over a tree, with its elements and bindings at hand. -/
theorem treeInduction {motive : ContractParameter → Prop}
    (leaf : ∀ param : ContractParameter, param.IsLeaf → motive param)
    (array : ∀ items, (∀ item ∈ items, motive item) → motive (.array items))
    (map :
      ∀ entries : List (ContractParameter × ContractParameter),
        (∀ entry ∈ entries, motive entry.1 ∧ motive entry.2) →
          motive (.map entries))
    (param : ContractParameter) :
    motive param := by
  refine
    @ContractParameter.rec motive
      (fun items => ∀ item ∈ items, motive item)
      (fun entries => ∀ entry ∈ entries, motive entry.1 ∧ motive entry.2)
      (fun entry => motive entry.1 ∧ motive entry.2)
      ?_ ?_ ?_ ?_ ?_ ?_ ?_ ?_ ?_ ?_ ?_ array map ?_ ?_ ?_ ?_ ?_ ?_ param
  case refine_13 => exact List.forall_mem_nil _
  case refine_14 =>
    intro item rest first others
    exact List.forall_mem_cons.mpr ⟨first, others⟩
  case refine_15 => exact List.forall_mem_nil _
  case refine_16 =>
    intro entry rest first others
    exact List.forall_mem_cons.mpr ⟨first, others⟩
  case refine_17 =>
    intro key value ofKey ofValue
    exact ⟨ofKey, ofValue⟩
  all_goals intros
  all_goals exact leaf _ trivial

mutual

/-- All parameters of a tree, the tree itself first. -/
def nodes : ContractParameter → List ContractParameter
  | .array items => .array items :: nodesOfItems items
  | .map entries => .map entries :: nodesOfEntries entries
  | leaf => [leaf]

/-- All parameters inside the elements of an array. -/
def nodesOfItems : List ContractParameter → List ContractParameter
  | [] => []
  | item :: rest => nodes item ++ nodesOfItems rest

/-- All parameters inside the bindings of a map. -/
def nodesOfEntries :
    List (ContractParameter × ContractParameter) → List ContractParameter
  | [] => []
  | (key, value) :: rest => nodes key ++ nodes value ++ nodesOfEntries rest

end

/-- A property of every parameter in a tree. -/
def Everywhere (property : ContractParameter → Prop)
    (param : ContractParameter) : Prop :=
  ∀ node ∈ param.nodes, property node

theorem nodesOfItems_eq (items : List ContractParameter) :
    nodesOfItems items = items.flatMap nodes := by
  induction items with
  | nil => rfl
  | cons item rest induction =>
      rw [nodesOfItems, induction, List.flatMap_cons]

theorem nodesOfEntries_eq
    (entries : List (ContractParameter × ContractParameter)) :
    nodesOfEntries entries =
      entries.flatMap fun entry => entry.1.nodes ++ entry.2.nodes := by
  induction entries with
  | nil => rfl
  | cons entry rest induction =>
      rw [nodesOfEntries, induction, List.flatMap_cons]

theorem nodes_array (items : List ContractParameter) :
    (array items).nodes = array items :: items.flatMap nodes := by
  rw [nodes, nodesOfItems_eq]

theorem nodes_map (entries : List (ContractParameter × ContractParameter)) :
    (map entries).nodes =
      map entries ::
        entries.flatMap fun entry => entry.1.nodes ++ entry.2.nodes := by
  rw [nodes, nodesOfEntries_eq]

theorem nodes_leaf {param : ContractParameter} (leaf : param.IsLeaf) :
    param.nodes = [param] := by
  cases param <;> first | rfl | exact absurd leaf id

section Counting

variable {matching : ContractParameter → Bool}

theorem countP_nodes_leaf {param : ContractParameter} (leaf : param.IsLeaf) :
    param.nodes.countP matching = if matching param then 1 else 0 := by
  rw [nodes_leaf leaf, List.countP_singleton]

/-- If an array itself does not count, its elements do. -/
theorem countP_nodes_array {items : List ContractParameter}
    (root : matching (array items) = false) :
    (array items).nodes.countP matching =
      (items.map fun item => item.nodes.countP matching).sum := by
  rw [nodes_array, List.countP_cons_of_neg (by simp [root]),
    List.countP_flatMap]
  rfl

theorem countP_nodes_map
    {entries : List (ContractParameter × ContractParameter)}
    (root : matching (map entries) = false) :
    (map entries).nodes.countP matching =
      (entries.map fun entry =>
        entry.1.nodes.countP matching + entry.2.nodes.countP matching).sum := by
  rw [nodes_map, List.countP_cons_of_neg (by simp [root]),
    List.countP_flatMap]
  simp only [Function.comp_def, List.countP_append]

end Counting

theorem everywhere_leaf {property : ContractParameter → Prop}
    {param : ContractParameter} (leaf : param.IsLeaf) :
    Everywhere property param ↔ property param := by
  rw [Everywhere, nodes_leaf leaf]
  simp

theorem everywhere_array {property : ContractParameter → Prop}
    {items : List ContractParameter} :
    Everywhere property (array items) ↔
      property (array items) ∧ ∀ item ∈ items, Everywhere property item := by
  simp only [Everywhere, nodes_array, List.forall_mem_cons,
    List.mem_flatMap]
  constructor
  · rintro ⟨root, inside⟩
    exact ⟨root, fun item member node inItem =>
      inside node ⟨item, member, inItem⟩⟩
  · rintro ⟨root, inside⟩
    refine ⟨root, ?_⟩
    rintro node ⟨item, member, inItem⟩
    exact inside item member node inItem

theorem everywhere_map {property : ContractParameter → Prop}
    {entries : List (ContractParameter × ContractParameter)} :
    Everywhere property (map entries) ↔
      property (map entries) ∧
        ∀ entry ∈ entries,
          Everywhere property entry.1 ∧ Everywhere property entry.2 := by
  simp only [Everywhere, nodes_map, List.forall_mem_cons,
    List.mem_flatMap, List.mem_append]
  constructor
  · rintro ⟨root, inside⟩
    exact ⟨root, fun entry member =>
      ⟨fun node inKey => inside node ⟨entry, member, .inl inKey⟩,
        fun node inValue => inside node ⟨entry, member, .inr inValue⟩⟩⟩
  · rintro ⟨root, inside⟩
    refine ⟨root, ?_⟩
    rintro node ⟨entry, member, inKey | inValue⟩
    · exact (inside entry member).1 node inKey
    · exact (inside entry member).2 node inValue

/-- The number of pointers stored in a parameter. -/
def count : ContractParameter → Nat
  | .array items => items.length
  | .map entries => entries.length
  | _ => 0

/-- No array of pointers is larger than an object can be. -/
def InMemory (param : ContractParameter) : Prop :=
  Everywhere (fun node => node.count ≤ ptrdiffMax) param

end ContractParameter

/-! ## The compiler -/

namespace ScriptBuilder

/-- `push_byte_array`. -/
def pushByteArray (alloc : Allocator) (data : Buffer) :
    Routine BinaryWriter Unit :=
  match data with
  | .null length =>
      if length > 0 then
        errorSet .invalidArgument "Byte array pointer is NULL"
      else
        emit alloc Opcode.push0
  | .items content =>
      if content.length = 0 then
        emit alloc Opcode.push0
      else
        pushData alloc (.items content)

/--
`push_byte_array` on the member `byte_array` of a union that holds a
signature: the first eight bytes of the signature are taken for a pointer and
the next eight for a length.
-/
def pushSignature (alloc : Allocator) (data : Bytes 64) :
    Routine BinaryWriter Unit :=
  let pointer := LittleEndian.ofBytes (data.val.take 8)
  let length := LittleEndian.ofBytes ((data.val.drop 8).take 8)
  if pointer = 0 ∧ length > 0 then
    errorSet .invalidArgument "Byte array pointer is NULL"
  else if length = 0 then
    emit alloc Opcode.push0
  else
    Call.halt .illegalAccess

/-- `push_hash256`. -/
def pushHash256 (alloc : Allocator) (hash : Hash256) :
    Routine BinaryWriter Unit :=
  pushData alloc (.items hash.toLittleEndianBytes)

mutual

/--
`neoc_script_builder_push_param`, with
`neoc_script_builder_push_array_internal` and
`neoc_script_builder_push_map_internal` in place.
-/
def pushParam (alloc : Allocator) :
    ContractParameter → Routine BinaryWriter Unit
  | .null => pushNull alloc
  | .any => pure ()
  | .void => pure ()
  | .boolean value => pushBool alloc value
  | .integer value => pushInteger alloc value
  | .byteArray data => pushByteArray alloc data
  | .signature data => pushSignature alloc data
  | .publicKey data => pushData alloc (.items data.val)
  | .string value =>
      pushString alloc (value.getD (CString.ofString ""))
  | .hash160 hash => pushHash160 alloc hash
  | .hash256 hash => pushHash256 alloc hash
  | .array items =>
      if items.length = 0 then
        emit alloc Opcode.newArray0
      else do
        pushItems alloc items
        pushInteger alloc (Int64.ofNat items.length)
        emit alloc Opcode.pack
  | .map entries =>
      if entries.length = 0 then
        emit alloc Opcode.newMap
      else do
        pushEntries alloc entries
        pushInteger alloc (Int64.ofNat entries.length)
        emit alloc Opcode.packMap
  | .interopInterface =>
      errorSet .notImplemented
        "Interop interface parameters are not supported"

/-- The loop over the elements of an array. -/
def pushItems (alloc : Allocator) :
    List ContractParameter → Routine BinaryWriter Unit
  | [] => pure ()
  | item :: rest => do
      pushParam alloc item
      pushItems alloc rest

/-- The loop over the bindings of a map. -/
def pushEntries (alloc : Allocator) :
    List (ContractParameter × ContractParameter) →
      Routine BinaryWriter Unit
  | [] => pure ()
  | (key, value) :: rest => do
      pushParam alloc value
      pushParam alloc key
      pushEntries alloc rest

end

/-- `neoc_script_builder_push_params`. -/
def pushParams (alloc : Allocator) (params : Slice ContractParameter) :
    Routine BinaryWriter Unit :=
  match params with
  | .null count =>
      if count > 0 then
        errorSet .invalidArgument "Parameter array is NULL"
      else
        emit alloc Opcode.newArray0
  | .items items =>
      if items.length = 0 then
        emit alloc Opcode.newArray0
      else do
        pushItems alloc items
        pushInteger alloc (Int64.ofNat items.length)
        emit alloc Opcode.pack

end ScriptBuilder

/-! ## The meaning of a tree -/

namespace ContractParameter

/--
The item that stands for a byte string.  The library pushes the empty one as
`PUSH0`, whose byte form is empty.
-/
def itemOfBytes (content : List UInt8) : StackItem :=
  if content.length = 0 then .integer 0 else .byteString content

mutual

/--
The stack item a contract should receive for a parameter.  `Any` carries no
value of its own and stands for null.  The keys of a map are primitive and no
two of them are equal; other trees denote nothing.
-/
def denote : ContractParameter → Option StackItem
  | .null => some .null
  | .any => some .null
  | .void => none
  | .boolean value => some (.integer (if value then 1 else 0))
  | .integer value => some (.integer value.toInt)
  | .byteArray data => some (itemOfBytes data.content)
  | .string value =>
      some (itemOfBytes (value.getD (CString.ofString "")).characters)
  | .hash160 hash => some (.byteString hash.toLittleEndianBytes)
  | .hash256 hash => some (.byteString hash.toLittleEndianBytes)
  | .publicKey data => some (.byteString data.val)
  | .signature data => some (.byteString data.val)
  | .array items => (denoteItems items).map .array
  | .map entries =>
      match denoteEntries entries with
      | none => none
      | some bindings =>
          if (bindings.map Prod.fst).Nodup then some (.map bindings)
          else none
  | .interopInterface => none

/-- The items for the elements of an array, at their own indexes. -/
def denoteItems : List ContractParameter → Option (List StackItem)
  | [] => some []
  | item :: rest =>
      match denote item, denoteItems rest with
      | some first, some others => some (first :: others)
      | _, _ => none

/-- The bindings of a map, every key with its own value. -/
def denoteEntries :
    List (ContractParameter × ContractParameter) →
      Option (List (Primitive × StackItem))
  | [] => some []
  | (key, value) :: rest =>
      match denote key, denote value, denoteEntries rest with
      | some (.primitive first), some second, some others =>
          some ((first, second) :: others)
      | _, _, _ => none

end

mutual

/-- The same tree with every array in it reversed. -/
def mirror : ContractParameter → ContractParameter
  | .array items => .array (mirrorItems items).reverse
  | .map entries => .map (mirrorEntries entries)
  | leaf => leaf

/-- The mirrored elements, not yet in reverse order. -/
def mirrorItems : List ContractParameter → List ContractParameter
  | [] => []
  | item :: rest => mirror item :: mirrorItems rest

/-- The mirrored bindings. -/
def mirrorEntries :
    List (ContractParameter × ContractParameter) →
      List (ContractParameter × ContractParameter)
  | [] => []
  | (key, value) :: rest => (mirror key, mirror value) :: mirrorEntries rest

end

end ContractParameter

end NeoC
