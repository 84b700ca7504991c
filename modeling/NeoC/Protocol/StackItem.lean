import NeoC.Foundation.HeapBalance
import NeoC.Foundation.LittleEndian
import NeoC.Runtime.Memory
import Mathlib.Data.List.DropRight

/-!
# Stack items

The items of `protocol/stack_item.c` live in a heap and refer to each other by
address; each has a count of references, and the containers have slots for
other items.  An item that is released drops the items in its slots.

The recursions over items are bounded by fuel.  A release goes no deeper than
there are items, and two items are compared through pairs of items, so a
comparison that goes deeper than there are pairs repeats one of them and does
not end.  Access to an item that was released halts with `illegalAccess`.
-/

namespace NeoC.Protocol.StackItem

open Foundation

/-! ## Items -/

/-- The types of items with their values. -/
inductive Content where
  | any
  | pointer (ptr position : Nat)
  | boolean (value : Bool)
  | integer (bytes : List UInt8) (isNegative : Bool)
  | byteString (data : List UInt8)
  | buffer (data : List UInt8)
  | array (items : List Nat) (capacity : Nat)
  | struct (items : List Nat) (capacity : Nat)
  | map (entries : List (Nat × Nat)) (capacity : Nat)
  | interopInterface (interface : Nat)
deriving DecidableEq, Repr

/-- The items that an item holds, in the order in which they are released. -/
def Content.children : Content → List Nat
  | .array items _ => items
  | .struct items _ => items
  | .map entries _ => entries.flatMap fun entry => [entry.1, entry.2]
  | _ => []

/-- The bytes of the slots of an item. -/
def Content.slotBytes : Content → Nat
  | .array _ capacity => capacity * 8
  | .struct _ capacity => capacity * 8
  | .map _ capacity => capacity * 16
  | _ => 0

/-- The heap that the items live in. -/
abbrev Heap := CountedHeap Content

/-- The bytes of all slots. -/
def footprint (heap : Heap) : Nat :=
  ∑ address ∈ heap.live,
    ((heap.cell address).map fun object => object.content.slotBytes).getD 0

/-- `sizeof(stack_item_t)`. -/
def structSize : Nat := 40

/--
A request for slots.  It is granted by the allocator, and only as long as all
slots fit into the address space.
-/
def grantsSlots (alloc : Allocator) (bytes growth : Nat) (heap : Heap) :
    Bool :=
  alloc.grants bytes && decide (footprint heap + growth ≤ sizeModulus)

/-! ## Constructors -/

/-- `stack_item_alloc` with the value that is stored next. -/
def stackItemAlloc (alloc : Allocator) (content : Content) :
    Routine Heap (Option Nat) :=
  fun heap =>
    if alloc.grants structSize then
      (.ok (some heap.next), heap.push content)
    else
      (.ok none, heap)

/-- An item with an array of its own; the item is freed without it. -/
def stackItemAllocWith (alloc : Allocator) (granted : Heap → Bool)
    (content : Content) : Routine Heap (Option Nat) :=
  fun heap =>
    if granted heap then stackItemAlloc alloc content heap
    else (.ok none, heap)

/-- `stack_item_create_any`. -/
def createAny (alloc : Allocator) : Routine Heap (Option Nat) :=
  stackItemAlloc alloc .any

/-- `stack_item_create_boolean`. -/
def createBoolean (alloc : Allocator) (value : Bool) :
    Routine Heap (Option Nat) :=
  stackItemAlloc alloc (.boolean value)

/-- `while (size > 1 && bytes[size - 1] == 0) size--;` -/
def trimZeros (bytes : List UInt8) : List UInt8 :=
  if bytes.rdropWhile (· = 0) = [] then bytes.take 1
  else bytes.rdropWhile (· = 0)

/-- `stack_item_create_integer`.  There is no `-value` for the least value. -/
def createInteger (alloc : Allocator) (value : Int64) :
    Routine Heap (Option Nat) :=
  fun heap =>
    if alloc.grants structSize = false then
      (.ok none, heap)
    else if alloc.grants 8 = false then
      (.ok none, heap)
    else if value = Int64.minValue then
      Call.halt .signedOverflow heap
    else
      stackItemAlloc alloc
        (.integer
          (trimZeros (LittleEndian.toBytes 8 value.toInt.natAbs))
          (decide (value < 0)))
        heap

/-- `stack_item_create_big_integer`. -/
def createBigInteger (alloc : Allocator) (bytes : Buffer)
    (isNegative : Bool) : Routine Heap (Option Nat) :=
  match bytes with
  | .null _ => pure none
  | .items content =>
      if content.length = 0 then
        pure none
      else
        stackItemAllocWith alloc (fun _ => alloc.grants content.length)
          (.integer content isNegative)

/-- The bytes that are copied, or zeros where there are none. -/
def copiedBytes : Buffer → List UInt8
  | .null count => List.replicate count 0
  | .items content => content

/-- The two constructors of byte strings. -/
def createBytes (kind : List UInt8 → Content) (alloc : Allocator)
    (data : Buffer) : Routine Heap (Option Nat) :=
  stackItemAllocWith alloc
    (fun _ => decide (data.len = 0) || alloc.grants data.len)
    (kind (copiedBytes data))

/-- `stack_item_create_byte_string`. -/
def createByteString (alloc : Allocator) (data : Buffer) :
    Routine Heap (Option Nat) :=
  createBytes .byteString alloc data

/-- `stack_item_create_buffer`. -/
def createBuffer (alloc : Allocator) (data : Buffer) :
    Routine Heap (Option Nat) :=
  createBytes .buffer alloc data

/-- `DEFAULT_ARRAY_CAPACITY` and `DEFAULT_MAP_CAPACITY`. -/
def defaultCapacity : Nat := 16

/-- The three constructors of containers. -/
def createContainer (kind : Nat → Content) (alloc : Allocator)
    (initialCapacity : Nat) : Routine Heap (Option Nat) :=
  let capacity :=
    if initialCapacity = 0 then defaultCapacity else initialCapacity
  stackItemAllocWith alloc
    (grantsSlots alloc (kind capacity).slotBytes (kind capacity).slotBytes)
    (kind capacity)

/-- `stack_item_create_array`. -/
def createArray (alloc : Allocator) (initialCapacity : Nat) :
    Routine Heap (Option Nat) :=
  createContainer (.array []) alloc initialCapacity

/-- `stack_item_create_struct`. -/
def createStruct (alloc : Allocator) (initialCapacity : Nat) :
    Routine Heap (Option Nat) :=
  createContainer (.struct []) alloc initialCapacity

/-- `stack_item_create_map`. -/
def createMap (alloc : Allocator) (initialCapacity : Nat) :
    Routine Heap (Option Nat) :=
  createContainer (.map []) alloc initialCapacity

/-- `stack_item_create_pointer`. -/
def createPointer (alloc : Allocator) (ptr position : Nat) :
    Routine Heap (Option Nat) :=
  stackItemAlloc alloc (.pointer ptr position)

/-- `stack_item_create_interop_interface`. -/
def createInteropInterface (alloc : Allocator) (interface : Nat) :
    Routine Heap (Option Nat) :=
  stackItemAlloc alloc (.interopInterface interface)

/-! ## References -/

/-- The item at an address. -/
def load (address : Nat) : Routine Heap (Counted Content) :=
  CountedHeap.load .illegalAccess address

/-- `stack_item_ref`. -/
def ref (item : Option Nat) : Routine Heap Unit :=
  match item with
  | none => pure ()
  | some address => CountedHeap.take sizeModulus .illegalAccess address

/-- `stack_item_unref`. -/
def unref (item : Option Nat) : Routine Heap Unit :=
  match item with
  | none => pure ()
  | some address => fun heap =>
      CountedHeap.drop Content.children sizeModulus .illegalAccess
        .divergence (heap.next + 1) address heap

/-! ## Equality -/

section Equality

variable (same : Nat → Nat → Outcome Bool)

/-- The loop over the items of two arrays of one length. -/
def sameItems : List Nat → List Nat → Outcome Bool
  | first :: items, second :: others => do
      if ← same first second then sameItems items others
      else .ok false
  | _, _ => .ok true

/-- The loop over the keys of a map: the index of the first that is equal. -/
def findKey (key : Nat) : List (Nat × Nat) → Outcome (Option Nat)
  | [] => .ok none
  | entry :: rest => do
      if ← same entry.1 key then
        .ok (some 0)
      else do
        let index ← findKey key rest
        .ok (index.map (· + 1))

/-- The value of a key, found by comparison with the keys of a map. -/
def findValue (key : Nat) (entries : List (Nat × Nat)) :
    Outcome (Option Nat) := do
  let index ← findKey same key entries
  .ok (index.bind fun position => (entries[position]?).map Prod.snd)

/-- The loop over the entries of two maps of one size. -/
def sameEntries (others : List (Nat × Nat)) :
    List (Nat × Nat) → Outcome Bool
  | [] => .ok true
  | entry :: rest => do
      match ← findValue same entry.1 others with
      | none => .ok false
      | some value =>
          if ← same entry.2 value then sameEntries others rest
          else .ok false

/-- The comparison of two values, with the comparison of their items. -/
def sameContent : Content → Content → Outcome Bool
  | .any, .any => .ok true
  | .boolean first, .boolean second => .ok (first == second)
  | .integer bytes isNegative, .integer bytes' isNegative' =>
      if bytes.length ≠ bytes'.length then .ok false
      else if isNegative ≠ isNegative' then .ok false
      else .ok (bytes == bytes')
  | .byteString data, .byteString data' =>
      if data.length ≠ data'.length then .ok false
      else .ok (data == data')
  | .buffer data, .buffer data' =>
      if data.length ≠ data'.length then .ok false
      else .ok (data == data')
  | .array items _, .array items' _ =>
      if items.length ≠ items'.length then .ok false
      else sameItems same items items'
  | .struct items _, .struct items' _ =>
      if items.length ≠ items'.length then .ok false
      else sameItems same items items'
  | .map entries _, .map entries' _ =>
      if entries.length ≠ entries'.length then .ok false
      else sameEntries same entries' entries
  | .pointer ptr position, .pointer ptr' position' =>
      .ok (ptr == ptr' && position == position')
  | .interopInterface interface, .interopInterface interface' =>
      .ok (interface == interface')
  | _, _ => .ok false

end Equality

/-- `stack_item_equals` on items, down to some depth. -/
def equalsWithin (heap : Heap) : (depth : Nat) → Nat → Nat → Outcome Bool
  | 0, _, _ => .error .divergence
  | depth + 1, first, second =>
      if first = second then
        .ok true
      else
        match heap.cell first, heap.cell second with
        | some object, some object' =>
            sameContent (equalsWithin heap depth) object.content
              object'.content
        | _, _ => .error .illegalAccess

/-- More than the number of pairs of items. -/
def depthBound (heap : Heap) : Nat :=
  heap.next * heap.next + 1

/-- `stack_item_equals`. -/
def equals (heap : Heap) (first second : Option Nat) : Outcome Bool :=
  match first, second with
  | none, none => .ok true
  | some first, some second =>
      equalsWithin heap (depthBound heap) first second
  | _, _ => .ok false

/-! ## Containers -/

/-- The reference and the store at the end of `stack_item_array_add`. -/
def storeItem (array item : Nat) (items : List Nat) (capacity : Nat)
    (kind : List Nat → Nat → Content) : Routine Heap Unit := do
  Call.update fun heap => heap.setContent array (kind items capacity)
  ref (some item)
  Call.update fun heap =>
    heap.setContent array (kind (items ++ [item]) capacity)

/-- The capacity is doubled where all slots are taken. -/
def appendItem (alloc : Allocator) (array item : Nat) (items : List Nat)
    (capacity : Nat) (kind : List Nat → Nat → Content) :
    Routine Heap Unit :=
  fun heap =>
    if capacity ≤ items.length then
      if grantsSlots alloc (capacity * 2 * 8) (capacity * 8) heap then
        storeItem array item items (capacity * 2) kind heap
      else
        errorSet .outOfMemory "" heap
    else
      storeItem array item items capacity kind heap

/-- `stack_item_array_add`. -/
def arrayAdd (alloc : Allocator) (array item : Option Nat) :
    Routine Heap Unit :=
  match array, item with
  | some array, some item => do
      let object ← load array
      match object.content with
      | .array items capacity =>
          appendItem alloc array item items capacity .array
      | .struct items capacity =>
          appendItem alloc array item items capacity .struct
      | _ => errorSet .invalidFormat ""
  | _, _ => errorSet .invalidArgument ""

/-- `stack_item_map_count`. -/
def mapCount (heap : Heap) (map : Option Nat) : Nat :=
  match (map.bind heap.cell).map Counted.content with
  | some (.map entries _) => entries.length
  | _ => 0

/-- `stack_item_map_get`. -/
def mapGet (heap : Heap) (map key : Option Nat) : Outcome (Option Nat) :=
  match map, key with
  | some map, some key =>
      match heap.cell map with
      | none => .error .illegalAccess
      | some ⟨_, .map entries _⟩ =>
          findValue (equalsWithin heap (depthBound heap)) key entries
      | some _ => .ok none
  | _, _ => .ok none

/-- The old value is dropped before the new one is taken. -/
def replaceValue (map value : Nat) (entries : List (Nat × Nat))
    (capacity index : Nat) : Routine Heap Unit := do
  unref ((entries[index]?).map Prod.snd)
  ref (some value)
  let _ ← load map
  Call.update fun heap =>
    heap.setContent map
      (.map (entries.modify index fun entry => (entry.1, value)) capacity)

/-- The references and the stores at the end of `stack_item_map_set`. -/
def storeEntry (map key value : Nat) (entries : List (Nat × Nat))
    (capacity : Nat) : Routine Heap Unit := do
  Call.update fun heap => heap.setContent map (.map entries capacity)
  ref (some key)
  ref (some value)
  Call.update fun heap =>
    heap.setContent map (.map (entries ++ [(key, value)]) capacity)

/-- The capacity is doubled where all entries are taken. -/
def appendEntry (alloc : Allocator) (map key value : Nat)
    (entries : List (Nat × Nat)) (capacity : Nat) : Routine Heap Unit :=
  fun heap =>
    if capacity ≤ entries.length then
      if grantsSlots alloc (capacity * 2 * 16) (capacity * 16) heap then
        storeEntry map key value entries (capacity * 2) heap
      else
        errorSet .outOfMemory "" heap
    else
      storeEntry map key value entries capacity heap

/-- The search for the key, and what follows it. -/
def setEntry (alloc : Allocator) (map key value : Nat)
    (entries : List (Nat × Nat)) (capacity : Nat) : Routine Heap Unit :=
  fun heap =>
    match findKey (equalsWithin heap (depthBound heap)) key entries with
    | .error reason => Call.halt reason heap
    | .ok (some index) => replaceValue map value entries capacity index heap
    | .ok none => appendEntry alloc map key value entries capacity heap

/-- `stack_item_map_set`. -/
def mapSet (alloc : Allocator) (map key value : Option Nat) :
    Routine Heap Unit :=
  match map, key, value with
  | some map, some key, some value => do
      let object ← load map
      match object.content with
      | .map entries capacity =>
          setEntry alloc map key value entries capacity
      | _ => errorSet .invalidFormat ""
  | _, _, _ => errorSet .invalidArgument ""

/-! ## Numbers -/

/-- `stack_item_to_integer`. -/
def toInteger (content : Content) : Outcome Int64 :=
  match content with
  | .integer bytes isNegative =>
      if bytes.length > 8 then
        .error (.error .bufferOverflow "")
      else
        let magnitude := LittleEndian.ofBytes bytes
        -- The eighth byte is shifted into the sign bit of an `int64_t`.
        if magnitude ≥ 0x8000000000000000 then
          .error .signedOverflow
        else if isNegative then
          .ok (Int64.ofInt (-magnitude))
        else
          .ok (Int64.ofNat magnitude)
  | _ => .error (.error .invalidFormat "")

end NeoC.Protocol.StackItem
