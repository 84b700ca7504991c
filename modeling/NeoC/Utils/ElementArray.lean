import Mathlib.Data.List.Forall2
import NeoC.Foundation.Reports
import NeoC.Utils.PointerTable

/-!
# Arrays that own copies of their elements

The `neoc_array_t` of `utils/array.h` keeps a pointer for every element, to an
object it has allocated for a copy of it.  Insertion shifts the pointers before
the copy is allocated, and setting frees the old element before that, so an
allocation that fails in between is seen in the array.
-/

namespace NeoC

open Foundation

/--
A `neoc_array_t` with the objects that were allocated for its elements.  A
pointer is the number of an object, or `none` for `NULL`; an object that was
freed is `none`.
-/
structure ElementArray (elementSize : Nat) where
  table : PointerTable (Option Nat)
  objects : List (Option (Bytes elementSize))
deriving DecidableEq

namespace ElementArray

variable {elementSize : Nat}

/-! ## The calls -/

/-- `sizeof(neoc_array_t)`. -/
def structSize : Nat := 32

/-- `DEFAULT_ARRAY_CAPACITY`. -/
def defaultCapacity : Nat := 16

/-- `neoc_array_create`. -/
def create (alloc : Allocator) (elementSize initialCapacity : Nat) :
    Outcome (ElementArray elementSize) :=
  if elementSize = 0 then
    .error (.error .invalidArgument "")
  else if alloc.neocGrants structSize = false then
    .error (.error .outOfMemory "")
  else
    match
      PointerTable.new alloc
        (if initialCapacity > 0 then initialCapacity else defaultCapacity)
    with
    | none => .error (.error .outOfMemory "")
    | some table => .ok { table, objects := [] }

/-- `neoc_array_resize`, where the array is full. -/
def makeRoom (alloc : Allocator) : Routine (ElementArray elementSize) Unit :=
  fun array =>
    match array.table.makeRoom alloc with
    | (true, table) => (.ok (), { array with table })
    | (false, table) => errorSet .outOfMemory "" { array with table }

/-- A copy of an element is allocated. -/
def newElement (alloc : Allocator) (element : Bytes elementSize) :
    Routine (ElementArray elementSize) Nat :=
  fun array =>
    if alloc.neocGrants elementSize = false then
      errorSet .outOfMemory "" array
    else
      (.ok array.objects.length,
        { array with objects := array.objects ++ [some element] })

/-- `array->elements[index] = pointer;`. -/
def storePointer (index : Nat) (pointer : Option Nat) :
    Routine (ElementArray elementSize) Unit :=
  fun array =>
    match array.table.items.store index (Cells.written [pointer]) with
    | .error reason => Call.halt reason array
    | .ok items => (.ok (), { array with table := { array.table with items } })

/-- A loop that moves pointers. -/
def shift (loop : Cells (Option Nat) → Option (Cells (Option Nat))) :
    Routine (ElementArray elementSize) Unit :=
  fun array =>
    match loop array.table.items with
    | none => Call.halt .illegalAccess array
    | some items => (.ok (), { array with table := { array.table with items } })

/-- `array->count` after a call. -/
def setCount (count : Nat) : Routine (ElementArray elementSize) Unit :=
  Call.update fun array =>
    { array with table := { array.table with count } }

/-- `neoc_free(array->elements[index]);`. -/
def release (index : Nat) : Routine (ElementArray elementSize) Unit :=
  fun array =>
    match array.table.items[index]? with
    | some (some none) => (.ok (), array)
    | some (some (some pointer)) =>
        match array.objects[pointer]? with
        | some (some _) =>
            (.ok (), { array with objects := array.objects.set pointer none })
        | _ => Call.halt .illegalAccess array
    | _ => Call.halt .illegalAccess array

/-- `neoc_array_append`; `none` is `NULL`. -/
def append (alloc : Allocator) (element : Option (Bytes elementSize)) :
    Routine (ElementArray elementSize) Unit :=
  match element with
  | none => errorSet .invalidArgument ""
  | some element => do
      makeRoom alloc
      let pointer ← newElement alloc element
      let count ← Call.read (·.table.count)
      storePointer count (some pointer)
      setCount (count + 1)

/-- `neoc_array_insert`. -/
def insert (alloc : Allocator) (index : Nat)
    (element : Option (Bytes elementSize)) :
    Routine (ElementArray elementSize) Unit :=
  match element with
  | none => errorSet .invalidArgument ""
  | some element => do
      let count ← Call.read (·.table.count)
      if index > count then
        errorSet .invalidArgument ""
      else do
        makeRoom alloc
        shift (InPlace.shiftRight (count - index) index)
        let pointer ← newElement alloc element
        storePointer index (some pointer)
        setCount (count + 1)

/-- `neoc_array_prepend`. -/
def prepend (alloc : Allocator) (element : Option (Bytes elementSize)) :
    Routine (ElementArray elementSize) Unit :=
  insert alloc 0 element

/-- `neoc_array_remove`. -/
def remove (index : Nat) : Routine (ElementArray elementSize) Unit := do
  let count ← Call.read (·.table.count)
  if index ≥ count then
    errorSet .invalidArgument ""
  else do
    release index
    shift (InPlace.shiftLeft (count - 1 - index) index)
    setCount (count - 1)

/-- `neoc_array_set`. -/
def set (alloc : Allocator) (index : Nat)
    (element : Option (Bytes elementSize)) :
    Routine (ElementArray elementSize) Unit :=
  match element with
  | none => errorSet .invalidArgument ""
  | some element => do
      let count ← Call.read (·.table.count)
      if index ≥ count then
        errorSet .invalidArgument ""
      else do
        release index
        if alloc.neocGrants elementSize = false then do
          storePointer index none
          errorSet .outOfMemory ""
        else do
          let pointer ← newElement alloc element
          storePointer index (some pointer)

/-- `for (size_t i = 0; i < array->count; i++)` the elements are freed. -/
def releaseFrom : (turns i : Nat) → Routine (ElementArray elementSize) Unit
  | 0, _ => pure ()
  | turns + 1, i => do
      release i
      releaseFrom turns (i + 1)

/-- `neoc_array_clear`. -/
def clear : Routine (ElementArray elementSize) Unit := do
  let count ← Call.read (·.table.count)
  releaseFrom count 0
  setCount 0

/-! ## Runs and the list they are compared with -/

/-- The calls of a run. -/
inductive Change (elementSize : Nat) where
  | append (element : Option (Bytes elementSize))
  | prepend (element : Option (Bytes elementSize))
  | insert (index : Nat) (element : Option (Bytes elementSize))
  | remove (index : Nat)
  | set (index : Nat) (element : Option (Bytes elementSize))
  | clear

def Change.perform (alloc : Allocator) :
    Change elementSize → Routine (ElementArray elementSize) Unit
  | .append element => ElementArray.append alloc element
  | .prepend element => ElementArray.prepend alloc element
  | .insert index element => ElementArray.insert alloc index element
  | .remove index => ElementArray.remove index
  | .set index element => ElementArray.set alloc index element
  | .clear => ElementArray.clear

/-- What a call is to do to a list.  `NULL` is no element. -/
def Change.apply :
    Change elementSize → List (Bytes elementSize) → List (Bytes elementSize)
  | .append element, list => list ++ element.toList
  | .prepend element, list => element.toList ++ list
  | .insert index element, list =>
      element.elim list fun element => list.insertIdx index element
  | .remove index, list => list.eraseIdx index
  | .set index element, list =>
      element.elim list fun element => list.set index element
  | .clear, _ => []

/-- A call and the allocator it meets. -/
abbrev Step (elementSize : Nat) := Allocator × Change elementSize

/-- How a call ended: an error code is a report of failure. -/
def report : Outcome Unit → Report
  | .ok _ => .succeeded
  | .error (.error _ _) => .failed
  | .error _ => .halted

def perform (step : Step elementSize) (array : ElementArray elementSize) :
    Report × ElementArray elementSize :=
  ((report (step.2.perform step.1 array).1),
    (step.2.perform step.1 array).2)

/-- What a pointer points to. -/
def deref (objects : List (Option (Bytes elementSize)))
    (cell : Option (Option Nat)) : Option (Bytes elementSize) := do
  let pointer ← cell
  let pointer ← pointer
  let object ← objects[pointer]?
  object

/-- The elements, if every pointer leads to one. -/
def elements (array : ElementArray elementSize) :
    Option (List (Bytes elementSize)) :=
  array.table.sequence.mapM (deref array.objects)

/-- The pointers that the array keeps. -/
def pointers (array : ElementArray elementSize) : Cells (Option Nat) :=
  array.table.sequence

/-- The array holds a list. -/
structure Holds (array : ElementArray elementSize)
    (list : List (Bytes elementSize)) : Prop where
  count_le : array.table.count ≤ array.table.capacity
  elements_eq : array.elements = some list

/-- An insertion finds the room that it needs, or it is refused in time. -/
def InsertsCleanly (alloc : Allocator) (index : Nat)
    (array : ElementArray elementSize) : Prop :=
  array.table.count < index ∨ array.table.GrowthRefused alloc ∨
    if alloc.neocGrants elementSize then
      array.table.Roomy
    else
      index = array.table.count ∨
        array.table.Roomy ∧ array.table.count ≤ index + 1

instance (alloc : Allocator) (index : Nat)
    (array : ElementArray elementSize) :
    Decidable (InsertsCleanly alloc index array) :=
  inferInstanceAs (Decidable (_ ∨ _ ∨ _))

/--
An insertion finds its room, and no allocation fails once an element is freed
or has been moved inside the array.
-/
def Exact (array : ElementArray elementSize) (step : Step elementSize) :
    Prop :=
  match step.2 with
  | .append (some _) => InsertsCleanly step.1 array.table.count array
  | .prepend (some _) => InsertsCleanly step.1 0 array
  | .insert index (some _) => InsertsCleanly step.1 index array
  | .set index (some _) =>
      array.table.count ≤ index ∨ step.1.neocGrants elementSize = true
  | _ => True

/-! ## Arrays by the lists they hold -/

/-- The objects of an array by their numbers. -/
structure Represents (array : ElementArray elementSize) (names : List Nat)
    (free : Cells (Option Nat)) (list : List (Bytes elementSize)) : Prop where
  table : array.table.Holds (names.map some) free
  distinct : names.Nodup
  objects :
    List.Forall₂
      (fun name element => array.objects[name]? = some (some element))
      names list

/-- Every element has an object of its own. -/
def Stands (array : ElementArray elementSize)
    (list : List (Bytes elementSize)) : Prop :=
  ∃ names free, array.Represents names free list

variable {array : ElementArray elementSize} {names : List Nat}
variable {free : Cells (Option Nat)} {list : List (Bytes elementSize)}

theorem mapM_deref {objects : List (Option (Bytes elementSize))}
    (leads :
      List.Forall₂
        (fun name element => objects[name]? = some (some element))
        names list) :
    (Cells.written (names.map some)).mapM (deref objects) = some list := by
  induction leads with
  | nil => rfl
  | @cons name element names list found _ induction =>
      have here : deref objects (some (some name)) = some element := by
        change objects[name]? >>= id = _
        rw [found]
        rfl
      rw [List.map_cons, Cells.written, List.map_cons, List.mapM_cons, here]
      change (Cells.written (names.map some)).mapM (deref objects) >>= _ = _
      rw [induction]
      rfl

theorem Represents.holds (represents : array.Represents names free list) :
    array.Holds list where
  count_le := represents.table.count_le
  elements_eq := by
    rw [elements, represents.table.sequence_eq]
    exact mapM_deref represents.objects

theorem Represents.count_eq (represents : array.Represents names free list) :
    array.table.count = names.length := by
  rw [represents.table.count_eq, List.length_map]

/-- What an index inside cuts an array into. -/
theorem Represents.split (represents : array.Represents names free list)
    {index : Nat} (inside : index ≤ array.table.count) :
    ∃ front back listFront listBack,
      names = front ++ back ∧ list = listFront ++ listBack ∧
        front.length = index ∧ listFront.length = index ∧
        List.Forall₂
          (fun name element => array.objects[name]? = some (some element))
          front listFront ∧
        List.Forall₂
          (fun name element => array.objects[name]? = some (some element))
          back listBack := by
  have length := represents.objects.length_eq
  rw [represents.count_eq] at inside
  refine
    ⟨names.take index, names.drop index, list.take index, list.drop index,
      (List.take_append_drop index names).symm,
      (List.take_append_drop index list).symm, ?_, ?_,
      List.forall₂_take index represents.objects,
      List.forall₂_drop index represents.objects⟩
  · rw [List.length_take, Nat.min_eq_left inside]
  · rw [List.length_take, Nat.min_eq_left (by omega)]

/-! ## Objects that come and go -/

/-- A new object does not change the old ones. -/
theorem leads_push {objects : List (Option (Bytes elementSize))}
    (added : Option (Bytes elementSize))
    (leads :
      List.Forall₂
        (fun name element => objects[name]? = some (some element))
        names list) :
    List.Forall₂
      (fun name element => (objects ++ [added])[name]? = some (some element))
      names list := by
  refine leads.imp fun name element found => ?_
  rw [List.getElem?_append_left (List.getElem?_eq_some_iff.mp found).1, found]

/-- An object that is freed is none of the others. -/
theorem leads_free {objects : List (Option (Bytes elementSize))} {freed : Nat}
    (other : freed ∉ names)
    (leads :
      List.Forall₂
        (fun name element => objects[name]? = some (some element))
        names list) :
    List.Forall₂
      (fun name element =>
        (objects.set freed none)[name]? = some (some element))
      names list := by
  induction leads with
  | nil => exact .nil
  | @cons name element names list found _ induction =>
      rw [List.mem_cons, not_or] at other
      refine .cons ?_ (induction other.2)
      rw [List.getElem?_set_ne other.1, found]

/-- The names of objects are smaller than the number of objects. -/
theorem not_mem_of_leads {objects : List (Option (Bytes elementSize))}
    (leads :
      List.Forall₂
        (fun name element => objects[name]? = some (some element))
        names list) :
    objects.length ∉ names := by
  induction leads with
  | nil => exact List.not_mem_nil
  | cons found _ induction =>
      rw [List.mem_cons, not_or]
      refine ⟨?_, induction⟩
      rintro rfl
      have inside := (List.getElem?_eq_some_iff.mp found).1
      exact absurd inside (Nat.lt_irrefl _)

/-! ## Insertion -/

theorem makeRoom_run (alloc : Allocator)
    (represents : array.Represents names free list) :
    array.table.GrowthRefused alloc ∧
        makeRoom alloc array = (.error (.error .outOfMemory ""), array) ∨
      ¬ array.table.GrowthRefused alloc ∧
        ∃ table' free',
          makeRoom alloc array = (.ok (), { array with table := table' }) ∧
            { array with table := table' }.Represents names free' list ∧
            (free' = [] ↔ ¬ array.table.Roomy) := by
  rcases PointerTable.makeRoom_cases alloc represents.table with
    ⟨refused, same⟩ | ⟨granted, table', free', grown, holds, roomy⟩
  · refine .inl ⟨refused, ?_⟩
    rw [makeRoom, same]
    rfl
  · refine .inr ⟨granted, table', free', ?_, ?_, roomy⟩
    · rw [makeRoom, grown]
    · exact ⟨holds, represents.distinct, represents.objects⟩

/-- What is left of an insertion when there is room. -/
def place (alloc : Allocator) (count index : Nat)
    (element : Bytes elementSize) :
    Routine (ElementArray elementSize) Unit := do
  shift (InPlace.shiftRight (count - index) index)
  let pointer ← newElement alloc element
  storePointer index (some pointer)
  setCount (count + 1)

theorem insert_run (alloc : Allocator) {index : Nat}
    (element : Bytes elementSize) (inside : index ≤ array.table.count) :
    insert alloc index (some element) array =
      (makeRoom alloc >>= fun _ =>
        place alloc array.table.count index element) array := by
  rw [insert]
  refine (Call.bind_of_ok (Call.read_run _ _)).trans ?_
  rw [if_neg (Nat.not_lt.mpr inside)]
  rfl

/-- An element that is appended is inserted at the end. -/
theorem append_eq_insert (alloc : Allocator) (element : Bytes elementSize)
    (array : ElementArray elementSize) :
    append alloc (some element) array =
      insert alloc array.table.count (some element) array := by
  have count := PointerTable.count_makeRoom alloc array.table
  rw [insert_run alloc element le_rfl, append]
  cases made : array.table.makeRoom alloc with
  | mk room table =>
      rw [made] at count
      cases room with
      | false =>
          have refused :
              makeRoom alloc array =
                (.error (.error .outOfMemory ""), { array with table }) := by
            rw [makeRoom, made]
            rfl
          rw [Call.bind_of_error refused, Call.bind_of_error refused]
      | true =>
          have ran :
              makeRoom alloc array = (.ok (), { array with table }) := by
            rw [makeRoom, made]
          have still (index : Nat) (array : ElementArray elementSize) :
              shift (InPlace.shiftRight 0 index) array = (.ok (), array) :=
            rfl
          rw [Call.bind_of_ok ran, Call.bind_of_ok ran, place, Nat.sub_self,
            Call.bind_of_ok (still _ _)]
          dsimp only at count
          rw [← count]
          by_cases refused : alloc.neocGrants elementSize = false
          · have failed (array : ElementArray elementSize) :
                newElement alloc element array =
                  (.error (.error .outOfMemory ""), array) :=
              if_pos refused
            rw [Call.bind_of_error (failed _)]
            exact (Call.bind_of_error (failed _)).symm
          · have new (array : ElementArray elementSize) :
                newElement alloc element array =
                  (.ok array.objects.length,
                    { array with
                      objects := array.objects ++ [some element] }) :=
              if_neg refused
            rw [Call.bind_of_ok (new _), Call.bind_of_ok (new _)]
            rfl

/-- The pointers behind the index move one cell further. -/
theorem shift_run (represents : array.Represents names free list)
    {front back : List Nat} {cell : Option (Option Nat)}
    {free' : Cells (Option Nat)} (parted : names = front ++ back)
    (cells : free = cell :: free') :
    shift
        (InPlace.shiftRight (array.table.count - front.length) front.length)
        array =
      (.ok (),
        { array with
          table :=
            { array.table with
              items :=
                Cells.written (front.map some) ++
                  ((Cells.written (back.map some)).head?.getD cell ::
                    Cells.written (back.map some) ++ free') } }) := by
  have moved :=
    @InPlace.shiftRight_eq _ (Cells.written (front.map some))
      (Cells.written (back.map some)) free' cell
  have turns :
      array.table.count - front.length =
        (Cells.written (back.map some)).length := by
    rw [represents.count_eq, parted, List.length_append,
      Cells.length_written, List.length_map]
    omega
  have length : (Cells.written (front.map some)).length = front.length := by
    rw [Cells.length_written, List.length_map]
  have before :
      array.table.items =
        Cells.written (front.map some) ++
          (Cells.written (back.map some) ++ cell :: free') := by
    rw [represents.table.items_eq, parted, cells, List.map_append,
      Cells.written_append, List.append_assoc]
  rw [← turns, length, ← before] at moved
  rw [shift, moved]

/-- The new element is inserted, if it is granted. -/
theorem place_granted {alloc : Allocator} {element : Bytes elementSize}
    (represents : array.Represents names free list)
    (granted : alloc.neocGrants elementSize = true)
    {index : Nat} (inside : index ≤ array.table.count)
    (room : free ≠ []) :
    ∃ array',
      place alloc array.table.count index element array = (.ok (), array') ∧
        array'.Stands (list.insertIdx index element) := by
  rcases represents.split inside with
    ⟨front, back, listFront, listBack, rfl, rfl, rfl, same, leads, leads'⟩
  rcases List.exists_cons_of_ne_nil room with ⟨cell, free', rfl⟩
  have inserted :=
    @PointerTable.Holds.inserted _ array.table free' (front.map some)
      (back.map some) cell (by simpa using represents.table)
      (some array.objects.length)
  refine
    ⟨{ table :=
        { array.table with
          items :=
            Cells.written
                (front.map some ++
                  some array.objects.length :: back.map some) ++
              free'
          count := array.table.count + 1 }
       objects := array.objects ++ [some element] }, ?_,
      front ++ array.objects.length :: back, free', ?_⟩
  · have stored :=
      @Cells.store_append _ (Cells.written (front.map some))
        [(Cells.written (back.map some)).head?.getD cell]
        (Cells.written [some array.objects.length])
        (Cells.written (back.map some) ++ free') rfl
    rw [Cells.length_written, List.length_map] at stored
    have put :
        storePointer front.length (some array.objects.length)
            { table :=
                { array.table with
                  items :=
                    Cells.written (front.map some) ++
                      ((Cells.written (back.map some)).head?.getD cell ::
                        Cells.written (back.map some) ++ free') }
              objects := array.objects ++ [some element] } =
          (.ok (),
            { table :=
                { array.table with
                  items :=
                    Cells.written
                        (front.map some ++
                          some array.objects.length :: back.map some) ++
                      free' }
              objects := array.objects ++ [some element] }) := by
      rw [storePointer]
      dsimp only
      rw [show
        ((Cells.written (back.map some)).head?.getD cell ::
            Cells.written (back.map some) ++ free') =
          [(Cells.written (back.map some)).head?.getD cell] ++
            (Cells.written (back.map some) ++ free') from rfl, stored,
        Cells.written_append, List.append_assoc]
      rfl
    have new (array : ElementArray elementSize) :
        newElement alloc element array =
          (.ok array.objects.length,
            { array with objects := array.objects ++ [some element] }) := by
      rw [newElement, granted]
      rfl
    rw [place, Call.bind_of_ok (shift_run represents rfl rfl),
      Call.bind_of_ok (new _), Call.bind_of_ok put]
    rfl
  · have fresh := not_mem_of_leads represents.objects
    refine ⟨?_, ?_, ?_⟩
    · rw [List.map_append, List.map_cons]
      exact inserted
    · exact
        List.perm_middle.nodup_iff.mpr
          (List.nodup_cons.mpr ⟨fresh, represents.distinct⟩)
    · rw [← same, InPlace.insertIdx_here]
      refine List.rel_append (leads_push _ leads) (.cons ?_ (leads_push _ leads'))
      exact List.getElem?_concat_length

theorem newElement_refused {alloc : Allocator} (element : Bytes elementSize)
    (refused : alloc.neocGrants elementSize = false)
    (array : ElementArray elementSize) :
    newElement alloc element array =
      (.error (.error .outOfMemory ""), array) :=
  if_pos refused

/-- At the end nothing is shifted, and a refusal changes nothing. -/
theorem place_end {alloc : Allocator} {element : Bytes elementSize}
    (refused : alloc.neocGrants elementSize = false) :
    place alloc array.table.count array.table.count element array =
      (.error (.error .outOfMemory ""), array) := by
  have still :
      shift (InPlace.shiftRight 0 array.table.count) array = (.ok (), array) :=
    rfl
  rw [place, Nat.sub_self, Call.bind_of_ok still,
    Call.bind_of_error (newElement_refused element refused array)]

/--
Where the new element is refused, one pointer is there twice.  If it is the
last one, its copy does not count.
-/
theorem place_refused {alloc : Allocator} {element : Bytes elementSize}
    (represents : array.Represents names free list)
    (refused : alloc.neocGrants elementSize = false)
    {index : Nat} (inside : index < array.table.count)
    (room : free ≠ []) :
    ∃ array',
      place alloc array.table.count index element array =
          (.error (.error .outOfMemory ""), array') ∧
        (array.table.count ≤ index + 1 →
          array'.pointers = array.pointers ∧ array'.Stands list) ∧
        (index + 1 < array.table.count →
          array'.pointers ≠ array.pointers) := by
  rcases represents.split (Nat.le_of_lt inside) with
    ⟨front, back, listFront, listBack, parted, -, rfl, -, -, leads⟩
  rcases List.exists_cons_of_ne_nil room with ⟨cell, free', rfl⟩
  have count := represents.count_eq
  rw [parted, List.length_append] at count
  refine
    ⟨_, by
      rw [place, Call.bind_of_ok (shift_run represents parted rfl)]
      exact Call.bind_of_error (newElement_refused element refused _),
      ?_, ?_⟩
  · intro last
    rcases back with _ | ⟨name, _ | ⟨other, rest⟩⟩
    · rw [List.length_nil] at count
      omega
    · have holds :
          { array.table with
            items :=
              Cells.written ((front ++ [name]).map some) ++
                some (some name) :: free' }.Holds
            ((front ++ [name]).map some) (some (some name) :: free') := by
        have table := represents.table
        rw [parted] at table
        have replaced :=
          @PointerTable.Holds.replace _ _ _ _
            ((front ++ [name]).map some) (some (some name) :: free') table rfl
        rwa [← table.count_eq] at replaced
      have shape :
          Cells.written (front.map some) ++
              ((Cells.written ([name].map some)).head?.getD cell ::
                Cells.written ([name].map some) ++ free') =
            Cells.written ((front ++ [name]).map some) ++
              some (some name) :: free' := by
        rw [List.map_append, Cells.written_append, List.append_assoc]
        rfl
      rw [shape]
      constructor
      · rw [pointers, holds.sequence_eq, pointers,
          represents.table.sequence_eq, parted]
      · exact
          ⟨front ++ [name], some (some name) :: free', holds,
            parted ▸ represents.distinct, parted ▸ represents.objects⟩
    · simp only [List.length_cons] at count
      omega
  · intro more same
    rcases back with _ | ⟨name, _ | ⟨other, rest⟩⟩
    · rw [List.length_nil] at count
      omega
    · rw [List.length_singleton] at count
      omega
    · -- behind the index the same pointer stands instead of the next one
      have here := congrArg (fun cells => cells[front.length + 1]?) same
      dsimp only [pointers, PointerTable.sequence] at here
      rw [List.getElem?_take_of_lt more, List.getElem?_take_of_lt more,
        represents.table.items_eq, parted] at here
      have length : (Cells.written (front.map some)).length = front.length := by
        rw [Cells.length_written, List.length_map]
      have behind (rest : Cells (Option Nat)) :
          (Cells.written (front.map some) ++ rest)[front.length + 1]? =
            rest[1]? := by
        rw [List.getElem?_append_right (by omega), length,
          Nat.add_sub_cancel_left]
      rw [List.map_append, Cells.written_append, List.append_assoc, behind,
        behind] at here
      have equal : name = other := by
        have cells : some (some name) = some (some other) :=
          Option.some.inj here
        exact Option.some.inj (Option.some.inj cells)
      have distinct := represents.distinct
      rw [parted, equal] at distinct
      have twice := (List.nodup_append.mp distinct).2.1
      rw [List.nodup_cons] at twice
      exact twice.1 List.mem_cons_self

/-- Without a cell for it, an element leaves the storage. -/
theorem place_narrow {alloc : Allocator} {element : Bytes elementSize}
    (represents : array.Represents names [] list)
    {index : Nat} (inside : index ≤ array.table.count)
    (reached :
      alloc.neocGrants elementSize = true ∨ index < array.table.count) :
    ∃ array',
      place alloc array.table.count index element array =
        (.error .illegalAccess, array') := by
  have length := represents.table.length_eq
  rw [List.length_nil, Nat.add_zero, List.length_map,
    ← represents.count_eq] at length
  by_cases last : index = array.table.count
  · have granted : alloc.neocGrants elementSize = true :=
      reached.resolve_right (by omega)
    have still :
        shift (InPlace.shiftRight 0 array.table.count) array =
          (.ok (), array) :=
      rfl
    have new :
        newElement alloc element array =
          (.ok array.objects.length,
            { array with objects := array.objects ++ [some element] }) := by
      rw [newElement, granted]
      rfl
    have outside :
        storePointer array.table.count (some array.objects.length)
            { array with objects := array.objects ++ [some element] } =
          (.error .illegalAccess,
            { array with objects := array.objects ++ [some element] }) := by
      rw [storePointer, Cells.store, if_neg]
      · rfl
      · rw [Cells.length_written, List.length_singleton]
        dsimp only
        omega
    rw [last, place, Nat.sub_self, Call.bind_of_ok still,
      Call.bind_of_ok new]
    exact ⟨_, Call.bind_of_error outside⟩
  · have outside :
        shift (InPlace.shiftRight (array.table.count - index) index) array =
          (.error .illegalAccess, array) := by
      rw [shift, InPlace.shiftRight_outside]
      · rfl
      · omega
      · omega
    rw [place]
    exact ⟨_, Call.bind_of_error outside⟩

/-! ## Removal -/

/-- An element that counts is freed. -/
theorem release_run {front back : List Nat} {name : Nat}
    {element : Bytes elementSize}
    (holds : array.table.Holds ((front ++ name :: back).map some) free)
    (found : array.objects[name]? = some (some element)) :
    release front.length array =
      (.ok (), { array with objects := array.objects.set name none }) := by
  have here : array.table.items[front.length]? = some (some (some name)) := by
    rw [holds.items_eq, List.map_append, Cells.written_append,
      List.append_assoc, List.getElem?_append_right, Cells.length_written,
      List.length_map, Nat.sub_self]
    · rfl
    · rw [Cells.length_written, List.length_map]
  rw [release, here]
  dsimp only
  rw [found]

/-- What is inside is cut at an element. -/
theorem Represents.split_at
    (represents : array.Represents names free list) {index : Nat}
    (inside : index < array.table.count) :
    ∃ front name back listFront element listBack,
      names = front ++ name :: back ∧
        list = listFront ++ element :: listBack ∧
        front.length = index ∧ listFront.length = index ∧
        name ∉ front ∧ name ∉ back ∧ (front ++ back).Nodup ∧
        array.objects[name]? = some (some element) ∧
        List.Forall₂
          (fun name element => array.objects[name]? = some (some element))
          front listFront ∧
        List.Forall₂
          (fun name element => array.objects[name]? = some (some element))
          back listBack := by
  rcases represents.split (Nat.le_of_lt inside) with
    ⟨front, back, listFront, listBack, parted, rfl, rfl, same, leads, leads'⟩
  have count := represents.count_eq
  rw [parted, List.length_append] at count
  cases leads' with
  | nil =>
      rw [List.length_nil] at count
      omega
  | @cons name element back listBack found others =>
      have distinct := represents.distinct
      rw [parted] at distinct
      have apart := List.perm_middle.nodup_iff.mp distinct
      rw [List.nodup_cons, List.mem_append, not_or] at apart
      exact
        ⟨front, name, back, listFront, element, listBack, parted, rfl, rfl,
          same, apart.1.1, apart.1.2, apart.2, found, leads, others⟩

/-- An element is removed. -/
theorem remove_run (represents : array.Represents names free list)
    {index : Nat} (inside : index < array.table.count) :
    ∃ array',
      remove index array = (.ok (), array') ∧
        array'.Stands (list.eraseIdx index) := by
  rcases represents.split_at inside with
    ⟨front, name, back, listFront, element, listBack, rfl, rfl, rfl, same,
      other, other', distinct, found, leads, leads'⟩
  have count := represents.count_eq
  rw [List.length_append, List.length_cons] at count
  have moved :=
    @InPlace.shiftLeft_eq _ (Cells.written (front.map some))
      (Cells.written (back.map some)) free (some (some name))
  have length : (Cells.written (front.map some)).length = front.length := by
    rw [Cells.length_written, List.length_map]
  have turns :
      (Cells.written (back.map some)).length =
        array.table.count - 1 - front.length := by
    rw [Cells.length_written, List.length_map]
    omega
  have before :
      Cells.written (front.map some) ++
          (some (some name) :: Cells.written (back.map some) ++ free) =
        array.table.items := by
    rw [represents.table.items_eq, List.map_append, List.map_cons,
      Cells.written_append, List.append_assoc]
    rfl
  rw [length, turns, before] at moved
  have table := represents.table
  rw [List.map_append, List.map_cons] at table
  have removed :=
    table.removed
      ((Cells.written (back.map some)).getLast?.getD (some (some name)))
  have shifted :
      shift
          (InPlace.shiftLeft (array.table.count - 1 - front.length)
            front.length)
          { array with objects := array.objects.set name none } =
        (.ok (),
          { table :=
              { array.table with
                items :=
                  Cells.written (front.map some ++ back.map some) ++
                    (Cells.written (back.map some)).getLast?.getD
                        (some (some name)) ::
                      free }
            objects := array.objects.set name none }) := by
    rw [shift]
    dsimp only
    rw [moved, Cells.written_append, List.append_assoc]
  refine
    ⟨{ table :=
        { array.table with
          items :=
            Cells.written (front.map some ++ back.map some) ++
              (Cells.written (back.map some)).getLast?.getD
                  (some (some name)) ::
                free
          count := array.table.count - 1 }
       objects := array.objects.set name none },
      ?_, front ++ back,
      (Cells.written (back.map some)).getLast?.getD (some (some name)) ::
        free,
      ?_, distinct, ?_⟩
  · rw [remove]
    refine (Call.bind_of_ok (Call.read_run _ _)).trans ?_
    rw [if_neg (Nat.not_le.mpr inside),
      Call.bind_of_ok (release_run represents.table found),
      Call.bind_of_ok shifted]
    rfl
  · rw [List.map_append]
    exact removed
  · rw [← same, InPlace.eraseIdx_here]
    exact List.rel_append (leads_free other leads) (leads_free other' leads')

/-! ## Setting -/

/-- A pointer that counts is overwritten. -/
theorem storePointer_run {front back : List Nat} {name : Nat}
    (holds : array.table.Holds ((front ++ name :: back).map some) free)
    (pointer : Option Nat) (objects : List (Option (Bytes elementSize))) :
    storePointer front.length pointer { array with objects } =
      (.ok (),
        { table :=
            { array.table with
              items :=
                Cells.written (front.map some ++ pointer :: back.map some) ++
                  free }
          objects }) := by
  rw [List.map_append, List.map_cons] at holds
  have stored := holds.store pointer
  rw [List.length_map] at stored
  rw [storePointer]
  dsimp only
  rw [stored]

/-- An element is replaced. -/
theorem set_granted {alloc : Allocator} {element : Bytes elementSize}
    (represents : array.Represents names free list)
    (granted : alloc.neocGrants elementSize = true) {index : Nat}
    (inside : index < array.table.count) :
    ∃ array',
      set alloc index (some element) array = (.ok (), array') ∧
        array'.Stands (list.set index element) := by
  rcases represents.split_at inside with
    ⟨front, name, back, listFront, old, listBack, rfl, rfl, rfl, same,
      other, other', distinct, found, leads, leads'⟩
  have freed := leads_free other leads
  have freed' := leads_free other' leads'
  have unused := not_mem_of_leads (List.rel_append freed freed')
  have new :
      newElement alloc element
          { array with objects := array.objects.set name none } =
        (.ok (array.objects.set name none).length,
          { array with
            objects := array.objects.set name none ++ [some element] }) := by
    rw [newElement, granted]
    rfl
  have table := represents.table
  rw [List.map_append, List.map_cons] at table
  refine
    ⟨{ table :=
        { array.table with
          items :=
            Cells.written
                (front.map some ++
                  some (array.objects.set name none).length ::
                    back.map some) ++
              free }
       objects := array.objects.set name none ++ [some element] },
      ?_, front ++ (array.objects.set name none).length :: back, free, ?_,
      ?_, ?_⟩
  · rw [set]
    refine (Call.bind_of_ok (Call.read_run _ _)).trans ?_
    rw [if_neg (Nat.not_le.mpr inside),
      Call.bind_of_ok (release_run represents.table found), granted,
      if_neg (by decide), Call.bind_of_ok new]
    exact storePointer_run represents.table _ _
  · rw [List.map_append, List.map_cons]
    exact table.exchanged (some (array.objects.set name none).length)
  · exact
      List.perm_middle.nodup_iff.mpr
        (List.nodup_cons.mpr ⟨unused, distinct⟩)
  · rw [← same, InPlace.set_here]
    refine
      List.rel_append (leads_push _ freed) (.cons ?_ (leads_push _ freed'))
    exact List.getElem?_concat_length

/-- Where the new element is refused, a `NULL` stands for the old one. -/
theorem set_refused {alloc : Allocator} {element : Bytes elementSize}
    (represents : array.Represents names free list)
    (refused : alloc.neocGrants elementSize = false) {index : Nat}
    (inside : index < array.table.count) :
    ∃ array',
      set alloc index (some element) array =
          (.error (.error .outOfMemory ""), array') ∧
        array'.pointers ≠ array.pointers := by
  rcases represents.split_at inside with
    ⟨front, name, back, listFront, old, listBack, rfl, rfl, rfl, same,
      other, other', distinct, found, leads, leads'⟩
  have table := represents.table
  rw [List.map_append, List.map_cons] at table
  refine
    ⟨{ table :=
        { array.table with
          items :=
            Cells.written (front.map some ++ none :: back.map some) ++ free }
       objects := array.objects.set name none }, ?_, ?_⟩
  · rw [set]
    refine (Call.bind_of_ok (Call.read_run _ _)).trans ?_
    rw [if_neg (Nat.not_le.mpr inside),
      Call.bind_of_ok (release_run represents.table found),
      if_pos refused]
    exact Call.bind_of_ok (storePointer_run represents.table none _)
  · intro equal
    rw [pointers, pointers, (table.exchanged none).sequence_eq,
      table.sequence_eq, Cells.written_inj, List.append_right_inj] at equal
    cases equal

/-! ## Clearing -/

/-- The elements from an index on are freed. -/
theorem releaseFrom_run {front back : List Nat}
    {listBack : List (Bytes elementSize)}
    (holds : array.table.Holds ((front ++ back).map some) free)
    (distinct : back.Nodup)
    (leads :
      List.Forall₂
        (fun name element => array.objects[name]? = some (some element))
        back listBack) :
    ∃ objects,
      releaseFrom back.length front.length array =
        (.ok (), { array with objects }) := by
  induction back generalizing front array listBack with
  | nil => exact ⟨array.objects, rfl⟩
  | cons name back induction =>
      rcases List.forall₂_cons_left_iff.mp leads with
        ⟨element, others, found, rest, rfl⟩
      rcases List.nodup_cons.mp distinct with ⟨other, later⟩
      have released := release_run holds found
      have next :=
        @induction { array with objects := array.objects.set name none }
          (front ++ [name]) others
          (by rw [List.append_assoc]; exact holds) later
          (leads_free other rest)
      rcases next with ⟨objects, ran⟩
      refine ⟨objects, ?_⟩
      rw [List.length_cons, releaseFrom, Call.bind_of_ok released]
      rw [List.length_append, List.length_singleton] at ran
      exact ran

/-- All elements go. -/
theorem clear_run (represents : array.Represents names free list) :
    ∃ array', clear array = (.ok (), array') ∧ array'.Stands [] := by
  rcases
      @releaseFrom_run _ array free [] names list represents.table
        represents.distinct represents.objects with
    ⟨objects, ran⟩
  rw [← represents.count_eq] at ran
  have emptied :=
    @PointerTable.Holds.replace _ array.table _ _ [] array.table.items
      represents.table
      (by rw [represents.table.length_eq, List.length_nil, Nat.zero_add])
  refine
    ⟨{ table := { array.table with count := 0 }, objects }, ?_, [],
      array.table.items, emptied, List.nodup_nil, .nil⟩
  rw [clear]
  refine (Call.bind_of_ok (Call.read_run _ _)).trans ?_
  exact Call.bind_of_ok ran

/-! ## How one call can end -/

/-- A call and what it leaves, as its caller sees them. -/
def seen (result : Outcome Unit × ElementArray elementSize) :
    Report × ElementArray elementSize :=
  (report result.1, result.2)

/-- Every way in which an insertion can end. -/
theorem insert_ends (represents : array.Represents names free list)
    (alloc : Allocator) (index : Nat) (element : Bytes elementSize) :
    Reports.Ends pointers Stands array list (list.insertIdx index element)
      (InsertsCleanly alloc index array)
      (seen (insert alloc index (some element) array)) := by
  have stands : array.Stands list := ⟨names, free, represents⟩
  by_cases inside : index ≤ array.table.count
  · rw [insert_run alloc element inside]
    rcases makeRoom_run alloc represents with
      ⟨refused, failed⟩ | ⟨granted, table', free', ran, grown, roomy⟩
    · rw [Call.bind_of_error failed]
      exact .fails (.inr (.inl refused)) rfl stands
    · have count : table'.count = array.table.count :=
        grown.count_eq.trans represents.count_eq.symm
      have kept :
          { array with table := table' }.pointers = array.pointers := by
        rw [pointers, pointers, grown.table.sequence_eq,
          represents.table.sequence_eq]
      have exact_iff :
          InsertsCleanly alloc index array ↔
            if alloc.neocGrants elementSize then
              free' ≠ []
            else
              index = table'.count ∨
                free' ≠ [] ∧ table'.count ≤ index + 1 := by
        rw [InsertsCleanly, or_iff_right (Nat.not_lt.mpr inside),
          or_iff_right granted, Ne, roomy, Decidable.not_not, count]
      have inside' : index ≤ { array with table := table' }.table.count := by
        rwa [← count] at inside
      rw [Call.bind_of_ok ran, ← count]
      refine Reports.Ends.congr exact_iff.symm ?_
      cases served : alloc.neocGrants elementSize with
      | true =>
          by_cases room : free' = []
          · subst room
            rcases @place_narrow _ _ _ _ alloc element grown index inside'
                (.inl served) with ⟨array', outside⟩
            rw [outside]
            exact .halts fun some => some rfl
          · rcases place_granted grown served inside' room with
              ⟨array', placed, stands'⟩
            rw [placed]
            exact .succeeds room stands'
      | false =>
          rw [if_neg (by decide)]
          by_cases last : index = table'.count
          · subst last
            have failed :=
              @place_end _ { array with table := table' } alloc element served
            rw [failed]
            exact .fails (.inl rfl) kept ⟨names, free', grown⟩
          · have before : index < { array with table := table' }.table.count :=
              Nat.lt_of_le_of_ne inside' last
            by_cases room : free' = []
            · subst room
              rcases @place_narrow _ _ _ _ alloc element grown index inside'
                  (.inr before) with ⟨array', outside⟩
              rw [outside]
              refine .halts ?_
              rintro (same | ⟨some, -⟩)
              · exact last same
              · exact some rfl
            · rcases @place_refused _ _ _ _ _ alloc element grown served index
                  before room with ⟨array', failed, same, different⟩
              rw [failed]
              by_cases next : table'.count ≤ index + 1
              · rcases same next with ⟨equal, stands'⟩
                exact .fails (.inr ⟨room, next⟩) (equal.trans kept) stands'
              · refine .spoils ?_ ?_
                · rintro (same | ⟨-, near⟩)
                  · exact last same
                  · exact next near
                · rw [← kept]
                  exact different (Nat.not_le.mp next)
  · have failed :
        insert alloc index (some element) array =
          (.error (.error .invalidArgument ""), array) := by
      rw [insert]
      refine (Call.bind_of_ok (Call.read_run _ _)).trans ?_
      rw [if_pos (Nat.not_le.mp inside)]
      rfl
    rw [failed]
    exact .fails (.inl (Nat.not_le.mp inside)) rfl stands

theorem remove_ends (represents : array.Represents names free list)
    (index : Nat) :
    Reports.Ends pointers Stands array list (list.eraseIdx index) True
      (seen (remove index array)) := by
  by_cases inside : index < array.table.count
  · rcases remove_run represents inside with ⟨array', ran, stands⟩
    rw [ran]
    exact .succeeds trivial stands
  · have failed :
        remove index array =
          (.error (.error .invalidArgument ""), array) := by
      rw [remove]
      refine (Call.bind_of_ok (Call.read_run _ _)).trans ?_
      rw [if_pos (Nat.not_lt.mp inside)]
      rfl
    rw [failed]
    exact .fails trivial rfl ⟨names, free, represents⟩

theorem set_ends (represents : array.Represents names free list)
    (alloc : Allocator) (index : Nat) (element : Bytes elementSize) :
    Reports.Ends pointers Stands array list (list.set index element)
      (array.table.count ≤ index ∨ alloc.neocGrants elementSize = true)
      (seen (set alloc index (some element) array)) := by
  by_cases inside : index < array.table.count
  · cases served : alloc.neocGrants elementSize with
    | true =>
        rcases @set_granted _ _ _ _ _ alloc element represents served index
            inside with ⟨array', ran, stands⟩
        rw [ran]
        exact .succeeds (.inr rfl) stands
    | false =>
        rcases @set_refused _ _ _ _ _ alloc element represents served index
            inside with ⟨array', failed, different⟩
        rw [failed]
        refine .spoils ?_ different
        rintro (outside | granted)
        · exact Nat.not_le.mpr inside outside
        · cases granted
  · have failed :
        set alloc index (some element) array =
          (.error (.error .invalidArgument ""), array) := by
      rw [set]
      refine (Call.bind_of_ok (Call.read_run _ _)).trans ?_
      rw [if_pos (Nat.not_lt.mp inside)]
      rfl
    rw [failed]
    exact .fails (.inl (Nat.not_lt.mp inside)) rfl ⟨names, free, represents⟩

/-- Every way in which a call can end. -/
theorem perform_ends (represents : array.Represents names free list)
    (step : Step elementSize) :
    Reports.Ends pointers Stands array list (step.2.apply list)
      (Exact array step) (perform step array) := by
  have stands : array.Stands list := ⟨names, free, represents⟩
  have length : array.table.count = list.length :=
    represents.count_eq.trans represents.objects.length_eq
  rcases step with
    ⟨alloc, (_ | element) | (_ | element) | ⟨index, _ | element⟩ | index |
      ⟨index, _ | element⟩ | _⟩
  · have same : Change.apply (.append none) list = list :=
      List.append_nil list
    rw [same]
    exact .fails trivial rfl stands
  · have same :
        Change.apply (.append (some element)) list =
          list.insertIdx array.table.count element := by
      rw [length, List.insertIdx_length_self]
      rfl
    rw [same]
    change
      Reports.Ends _ _ _ _ _ _ (seen (append alloc (some element) array))
    rw [append_eq_insert]
    exact insert_ends represents alloc array.table.count element
  · exact .fails trivial rfl stands
  · have same :
        Change.apply (.prepend (some element)) list =
          list.insertIdx 0 element :=
      rfl
    rw [same]
    exact insert_ends represents alloc 0 element
  · exact .fails trivial rfl stands
  · exact insert_ends represents alloc index element
  · exact remove_ends represents index
  · exact .fails trivial rfl stands
  · exact set_ends represents alloc index element
  · rcases clear_run represents with ⟨array', ran, stands'⟩
    change Reports.Ends _ _ _ _ _ _ (seen (clear array))
    rw [ran]
    exact .succeeds trivial stands'

/-- A new array holds no elements. -/
theorem create_stands {alloc : Allocator} {initialCapacity : Nat}
    (made : create alloc elementSize initialCapacity = .ok array) :
    array.Stands [] := by
  rw [create] at made
  split at made
  · cases made
  split at made
  · cases made
  split at made
  · cases made
  · rename_i table new
    injection made with same
    rw [← same]
    exact
      ⟨[], _, PointerTable.holds_new new, List.nodup_nil, .nil⟩

/--
Along every run, the calls keep to their reports and the array holds the list
in every state reached, exactly if each insertion finds its room and no
allocation fails after the array has been changed.
-/
theorem keeps_and_holds {alloc : Allocator} {initialCapacity : Nat}
    (made : create alloc elementSize initialCapacity = .ok array)
    (steps : List (Step elementSize)) :
    (Along (Reports.next perform) (Reports.Keeps perform pointers) array
          steps ∧
        ∀ reached, reached <+: steps →
          (finalState (Reports.next perform) array reached).Holds
            (predict (Reports.next perform)
              (Reports.follow perform fun step => step.2.apply) array []
              reached)) ↔
      Along (Reports.next perform) Exact array steps :=
  @Reports.keeps_and_holds_iff _ _ _ _ perform
    (fun step => step.2.apply) pointers Stands Holds Exact
    (fun _ _ ⟨_, _, represents⟩ => represents.holds)
    (fun _ _ step ⟨_, _, represents⟩ => perform_ends represents step)
    _ _ (create_stands made) steps

end ElementArray

end NeoC
