import NeoC.Runtime.Memory
import Mathlib.Data.Rat.Defs

/-!
# JSON trees and the library behind them

The functions on JSON are thin wrappers of cJSON.  Parsing and printing are
the library's own and stand as parameters; looking members up and building
trees is modelled.  There are two libraries to link against.  In the one that
is installed on a system, `cJSON_GetObjectItemCaseSensitive` compares names
as its own name says; in the one that is bundled with the source it ignores
their case.
-/

namespace NeoC

/--
An item of cJSON.  A number is a `double`, so it is rational or it is beyond
all numbers.
-/
inductive JsonTree where
  | null
  | bool (value : Bool)
  | number (valuedouble : Option Rat)
  | string (valuestring : CString)
  | array (items : List JsonTree)
  | object (members : List (CString × JsonTree))

/--
The conversion of a `double` to an integer type, which cuts its fraction off.
It is undefined where the type does not hold the rest.
-/
def JsonTree.convert (lowest highest : Int) (valuedouble : Option Rat) :
    Outcome Int :=
  match valuedouble with
  | none => .error .signedOverflow
  | some valuedouble =>
      let whole := valuedouble.num.tdiv valuedouble.den
      if lowest ≤ whole ∧ whole ≤ highest then .ok whole
      else .error .signedOverflow

theorem JsonTree.convert_natCast {lowest highest : Int} {value : Nat}
    (low : lowest ≤ 0) (high : (value : Int) ≤ highest) :
    convert lowest highest (some (value : Rat)) = .ok (value : Int) := by
  have whole : ((value : Rat).num.tdiv (value : Rat).den) = value := by
    rw [Rat.num_natCast, Rat.den_natCast, Int.natCast_one, Int.tdiv_one]
  rw [convert, whole, if_pos ⟨by omega, high⟩]

/-- The library that is linked. -/
structure JsonLibrary where
  /-- `cJSON_Parse`. -/
  parse : CString → Option JsonTree
  /-- `cJSON_PrintUnformatted`. -/
  print : JsonTree → Option CString
  /-- Whether names are compared without their case. -/
  ignoresCase : Bool

/-- `tolower`. -/
def toLower (c : UInt8) : UInt8 :=
  if 0x41 ≤ c ∧ c ≤ 0x5A then c + 0x20 else c

namespace JsonLibrary

variable (library : JsonLibrary)

/-- The tree is printed as the text, and the text is parsed as the tree. -/
def Keeps (tree : JsonTree) (text : CString) : Prop :=
  library.print tree = some text ∧ library.parse text = some tree

/-! ## Looking members up -/

/-- How names are compared. -/
def sameName (left right : CString) : Bool :=
  if library.ignoresCase then
    left.characters.map toLower == right.characters.map toLower
  else
    left == right

/-- `cJSON_GetObjectItemCaseSensitive`: the first member with the name. -/
def getItem (object : JsonTree) (name : CString) : Option JsonTree :=
  match object with
  | .object members =>
      (members.find? fun member => library.sameName member.1 name).map
        Prod.snd
  | _ => none

/-- `neoc_json_get_string`. -/
def getString (object : JsonTree) (name : CString) : Option CString :=
  match library.getItem object name with
  | some (.string valuestring) => some valuestring
  | _ => none

/-- `neoc_json_get_bool`. -/
def getBool (object : JsonTree) (name : CString) : Outcome Bool :=
  match library.getItem object name with
  | none => .error (.error .notFound "JSON get bool: item not found")
  | some (.bool value) => .ok value
  | some _ =>
      .error (.error .invalidFormat "JSON get bool: item is not boolean")

/-- `neoc_json_get_object`. -/
def getObject (object : JsonTree) (name : CString) : Option JsonTree :=
  match library.getItem object name with
  | some (.object members) => some (.object members)
  | _ => none

/-- `neoc_json_get_array`, with the items of the array. -/
def getArray (object : JsonTree) (name : CString) :
    Option (List JsonTree) :=
  match library.getItem object name with
  | some (.array items) => some items
  | _ => none

/-- `neoc_json_get_number`. -/
def getNumber (object : JsonTree) (name : CString) :
    Outcome (Option Rat) :=
  match library.getItem object name with
  | none => .error (.error .notFound "JSON get number: item not found")
  | some (.number valuedouble) => .ok valuedouble
  | some _ =>
      .error (.error .invalidFormat "JSON get number: item is not numeric")

/-- `neoc_json_get_int`. -/
def getInt (object : JsonTree) (name : CString) : Outcome Int := do
  let temp ← library.getNumber object name
  JsonTree.convert (-0x8000000000000000) 0x7FFFFFFFFFFFFFFF temp

/-- `neoc_json_get_bool` into a flag that is off before. -/
def getFlag (object : JsonTree) (name : CString) : Bool :=
  match library.getBool object name with
  | .ok value => value
  | .error _ => false

/-- `neoc_json_to_string`, which returns `NULL` for a failure. -/
def toText (alloc : Allocator) (tree : JsonTree) : Option CString :=
  match library.print tree with
  | none => none
  | some printed =>
      if alloc.neocGrants (printed.strlen + 1) then some printed else none

/-- `neoc_json_to_string`, with the error of its caller. -/
def serialize (alloc : Allocator) (tree : JsonTree) (text : String) :
    Outcome CString :=
  match library.toText alloc tree with
  | none => .error (.error .outOfMemory text)
  | some jsonStr => .ok jsonStr

variable {library}

theorem sameName_self (name : CString) :
    library.sameName name name = true := by
  rw [sameName]
  split <;> exact beq_self_eq_true _

/-- Names that differ in more than their case are told apart. -/
theorem sameName_false {left right : CString}
    (different :
      left.characters.map toLower ≠ right.characters.map toLower) :
    library.sameName left right = false := by
  rw [sameName]
  split
  · exact beq_false_of_ne different
  · refine beq_false_of_ne ?_
    rintro rfl
    exact different rfl

theorem getItem_first {members : List (CString × JsonTree)}
    (name : CString) (item : JsonTree) :
    library.getItem (.object ((name, item) :: members)) name =
      some item := by
  rw [getItem, List.find?_cons_of_pos (by exact sameName_self name)]
  rfl

theorem getItem_later {members : List (CString × JsonTree)}
    {other name : CString} (item : JsonTree)
    (different : library.sameName other name = false) :
    library.getItem (.object ((other, item) :: members)) name =
      library.getItem (.object members) name := by
  rw [getItem, getItem, List.find?_cons_of_neg (by simp [different])]

theorem toText_keeps {alloc : Allocator} {tree : JsonTree} {text : CString}
    (keeps : library.Keeps tree text)
    (serves : alloc.Serves (text.strlen + 1)) :
    library.toText alloc tree = some text := by
  rw [toText, keeps.1]
  dsimp only
  rw [if_pos (serves.neocGrants (Nat.succ_pos _) le_rfl)]

theorem serialize_keeps {alloc : Allocator} {tree : JsonTree}
    {text : CString} (keeps : library.Keeps tree text)
    (serves : alloc.Serves (text.strlen + 1)) (message : String) :
    library.serialize alloc tree message = .ok text := by
  rw [serialize, toText_keeps keeps serves]

/-- The text of a member that may be absent. -/
theorem getString_of_item {object : JsonTree} {name : CString}
    {value : Option CString}
    (found : library.getItem object name = value.map JsonTree.string) :
    library.getString object name = value := by
  rw [getString, found]
  cases value <;> rfl

theorem getFlag_of_item {object : JsonTree} {name : CString} {value : Bool}
    (found : library.getItem object name = some (.bool value)) :
    library.getFlag object name = value := by
  rw [getFlag, getBool, found]

theorem getNumber_of_item {object : JsonTree} {name : CString}
    {valuedouble : Option Rat}
    (found : library.getItem object name = some (.number valuedouble)) :
    library.getNumber object name = .ok valuedouble := by
  rw [getNumber, found]

theorem getArray_of_item {object : JsonTree} {name : CString}
    {items : List JsonTree}
    (found : library.getItem object name = some (.array items)) :
    library.getArray object name = some items := by
  rw [getArray, found]

theorem getObject_of_item {object : JsonTree} {name : CString}
    {value : Option (List (CString × JsonTree))}
    (found : library.getItem object name = value.map JsonTree.object) :
    library.getObject object name = value.map JsonTree.object := by
  rw [getObject, found]
  cases value <;> rfl

end JsonLibrary

/-! ## Building trees -/

namespace JsonTree

/-- `sizeof(cJSON)`. -/
def structSize : Nat := 64

/-- `neoc_json_create_object`, with the error that its callers set. -/
def createObject (alloc : Allocator) (text : String) :
    Outcome (List (CString × JsonTree)) :=
  if alloc.grants structSize then
    .ok []
  else
    .error (.error .outOfMemory text)

/-- `neoc_json_create_array`, with the error that its caller sets. -/
def createArray (alloc : Allocator) : Outcome Unit :=
  if alloc.grants structSize then
    .ok ()
  else
    .error (.error .outOfMemory "Failed to allocate JSON array")

/--
`cJSON_AddItemToObject`.  Without memory for its name the item is dropped, and
the caller is not told.
-/
def addItem (alloc : Allocator) (members : List (CString × JsonTree))
    (name : CString) (item : JsonTree) : List (CString × JsonTree) :=
  if alloc.grants (name.strlen + 1) then
    members ++ [(name, item)]
  else
    members

/-- `neoc_json_add_string`. -/
def addString (alloc : Allocator) (members : List (CString × JsonTree))
    (name value : CString) : Outcome (List (CString × JsonTree)) :=
  if alloc.grants structSize ∧ alloc.grants (value.strlen + 1) then
    .ok (addItem alloc members name (.string value))
  else
    .error (.error .outOfMemory "Failed to add string to JSON object")

/-- `neoc_json_add_bool`. -/
def addBool (alloc : Allocator) (members : List (CString × JsonTree))
    (name : CString) (value : Bool) :
    Outcome (List (CString × JsonTree)) :=
  if alloc.grants structSize then
    .ok (addItem alloc members name (.bool value))
  else
    .error (.error .outOfMemory "Failed to add bool to JSON object")

/-- `neoc_json_add_number`. -/
def addNumber (alloc : Allocator) (members : List (CString × JsonTree))
    (name : CString) (value : Rat) :
    Outcome (List (CString × JsonTree)) :=
  if alloc.grants structSize then
    .ok (addItem alloc members name (.number (some value)))
  else
    .error (.error .outOfMemory "Failed to add number to JSON object")

/-- `neoc_json_add_string` of a text, if there is one. -/
def addText (alloc : Allocator) (members : List (CString × JsonTree))
    (name : CString) (value : Option CString) :
    Outcome (List (CString × JsonTree)) :=
  match value with
  | none => .ok members
  | some value => addString alloc members name value

variable {alloc : Allocator} {members : List (CString × JsonTree)}
  {bound : Nat}

theorem addItem_eq (serves : alloc.Serves bound) {name : CString}
    (named : name.strlen + 1 ≤ bound) (item : JsonTree) :
    addItem alloc members name item = members ++ [(name, item)] := by
  rw [addItem, if_pos (serves _ named)]

theorem addString_eq (serves : alloc.Serves bound)
    (node : structSize ≤ bound) {name value : CString}
    (named : name.strlen + 1 ≤ bound) (valued : value.strlen + 1 ≤ bound) :
    addString alloc members name value =
      .ok (members ++ [(name, .string value)]) := by
  rw [addString, if_pos ⟨serves _ node, serves _ valued⟩,
    addItem_eq serves named]

theorem addBool_eq (serves : alloc.Serves bound)
    (node : structSize ≤ bound) {name : CString}
    (named : name.strlen + 1 ≤ bound) (value : Bool) :
    addBool alloc members name value =
      .ok (members ++ [(name, .bool value)]) := by
  rw [addBool, if_pos (serves _ node), addItem_eq serves named]

theorem addNumber_eq (serves : alloc.Serves bound)
    (node : structSize ≤ bound) {name : CString}
    (named : name.strlen + 1 ≤ bound) (value : Rat) :
    addNumber alloc members name value =
      .ok (members ++ [(name, .number (some value))]) := by
  rw [addNumber, if_pos (serves _ node), addItem_eq serves named]

/-! ## Members that may be absent -/

/-- The members that are there, in their order. -/
def present (fields : List (CString × Option JsonTree)) :
    List (CString × JsonTree) :=
  fields.filterMap fun field => field.2.map (Prod.mk field.1)

/-- The names differ in more than their case. -/
abbrev Apart (names : List CString) : Prop :=
  names.Pairwise fun left right =>
    left.characters.map toLower ≠ right.characters.map toLower

theorem present_cons_some (name : CString) (item : JsonTree)
    (fields : List (CString × Option JsonTree)) :
    present ((name, some item) :: fields) = (name, item) :: present fields :=
  rfl

theorem present_append (fields others : List (CString × Option JsonTree)) :
    present (fields ++ others) = present fields ++ present others :=
  List.filterMap_append

theorem createObject_present (serves : alloc.Serves bound)
    (node : structSize ≤ bound) (text : String) :
    createObject alloc text = .ok (present []) := by
  rw [createObject, if_pos (serves _ node)]
  rfl

section Adding

variable (serves : alloc.Serves bound) (node : structSize ≤ bound)
  (fields : List (CString × Option JsonTree)) {name : CString}
  (named : name.strlen + 1 ≤ bound)

include serves named

theorem addItem_present (item : JsonTree) :
    addItem alloc (present fields) name item =
      present (fields ++ [(name, some item)]) := by
  rw [addItem_eq serves named, present_append]
  rfl

include node

theorem addText_present (value : Option CString)
    (valued : ∀ text, value = some text → text.strlen + 1 ≤ bound) :
    addText alloc (present fields) name value =
      .ok (present (fields ++ [(name, value.map .string)])) := by
  rw [present_append]
  cases value with
  | none => exact congrArg _ (List.append_nil _).symm
  | some text => exact addString_eq serves node named (valued text rfl)

theorem addBool_present (value : Bool) :
    addBool alloc (present fields) name value =
      .ok (present (fields ++ [(name, some (.bool value))])) := by
  rw [addBool_eq serves node named, present_append]
  rfl

theorem addNumber_present (value : Rat) :
    addNumber alloc (present fields) name value =
      .ok (present (fields ++ [(name, some (.number (some value)))])) := by
  rw [addNumber_eq serves node named, present_append]
  rfl

end Adding

variable {library : JsonLibrary}

theorem getItem_present_absent {name : CString}
    {fields : List (CString × Option JsonTree)}
    (apart : ∀ field ∈ fields,
      field.1.characters.map toLower ≠ name.characters.map toLower) :
    library.getItem (.object (present fields)) name = none := by
  induction fields with
  | nil => rfl
  | cons field fields induction =>
      obtain ⟨first, later⟩ := List.forall_mem_cons.mp apart
      obtain ⟨other, item⟩ := field
      cases item with
      | none => exact induction later
      | some item =>
          rw [present_cons_some,
            JsonLibrary.getItem_later item
              (JsonLibrary.sameName_false first)]
          exact induction later

/-- A member is found where the names are told apart. -/
theorem getItem_present {name : CString} {value : Option JsonTree}
    {fields : List (CString × Option JsonTree)}
    (apart : Apart (fields.map Prod.fst))
    (listed : (name, value) ∈ fields) :
    library.getItem (.object (present fields)) name = value := by
  induction fields with
  | nil => cases listed
  | cons field fields induction =>
      obtain ⟨first, later⟩ := List.pairwise_cons.mp apart
      obtain ⟨other, item⟩ := field
      rcases List.mem_cons.mp listed with same | further
      · cases same
        cases value with
        | none =>
            change library.getItem (.object (present fields)) name = none
            apply getItem_present_absent
            intro field member
            exact (first _ (List.mem_map_of_mem member)).symm
        | some item => exact JsonLibrary.getItem_first name item
      · have different := first _ (List.mem_map_of_mem further)
        cases item with
        | none => exact induction later further
        | some item =>
            rw [present_cons_some,
              JsonLibrary.getItem_later item
                (JsonLibrary.sameName_false different)]
            exact induction later further

/-- A listed member is found where the names are told apart. -/
theorem getItem_of_mem {name : CString} {item : JsonTree}
    {members : List (CString × JsonTree)}
    (apart : Apart (members.map Prod.fst))
    (listed : (name, item) ∈ members) :
    library.getItem (.object members) name = some item := by
  have same :
      present (members.map fun member => (member.1, some member.2)) =
        members := by
    simp [present, List.filterMap_map]
  rw [← same]
  apply getItem_present
  · rw [List.map_map]
    exact apart
  · exact List.mem_map_of_mem (f := fun member => (member.1, some member.2))
      listed

end JsonTree

end NeoC
