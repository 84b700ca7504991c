import NeoC.Foundation.Run
import NeoC.Protocol.StackItem

/-!
# Reference counts of stack items

Clients create items, take and drop references to them and put them into
containers.  Beside the heap a state keeps how many references the clients
hold to every item.  The books are right where the count of every item is the
number of references that clients and slots hold, and where no slot of an item
holds one that was released.

`stack_item_map_set` drops the value that it replaces before it takes the new
one.  This keeps the books exactly where the new value and the map are held by
more than the slot that is replaced.
-/

namespace NeoC.Protocol.StackItem

open Foundation CountedHeap

/-! ## Runs -/

/-- The calls of the constructors. -/
inductive Construction where
  | any
  | boolean (value : Bool)
  | integer (value : Int64)
  | bigInteger (bytes : Buffer) (isNegative : Bool)
  | byteString (data : Buffer)
  | buffer (data : Buffer)
  | array (initialCapacity : Nat)
  | struct (initialCapacity : Nat)
  | map (initialCapacity : Nat)
  | pointer (ptr position : Nat)
  | interopInterface (interface : Nat)

/-- Make a new item. -/
def Construction.perform (alloc : Allocator) :
    Construction → Routine Heap (Option Nat)
  | .any => createAny alloc
  | .boolean value => createBoolean alloc value
  | .integer value => createInteger alloc value
  | .bigInteger bytes isNegative => createBigInteger alloc bytes isNegative
  | .byteString data => createByteString alloc data
  | .buffer data => createBuffer alloc data
  | .array initialCapacity => createArray alloc initialCapacity
  | .struct initialCapacity => createStruct alloc initialCapacity
  | .map initialCapacity => createMap alloc initialCapacity
  | .pointer ptr position => createPointer alloc ptr position
  | .interopInterface interface => createInteropInterface alloc interface

/-- The calls of a run, with the memory that each of them finds. -/
inductive Operation where
  | create (alloc : Allocator) (construction : Construction)
  | ref (item : Option Nat)
  | unref (item : Option Nat)
  | arrayAdd (alloc : Allocator) (array item : Option Nat)
  | mapSet (alloc : Allocator) (map key value : Option Nat)

/-- The heap, and the number of references that clients hold to each item. -/
structure State where
  heap : Heap
  clients : Nat → Nat

/-- Nothing has been created. -/
def State.start : State where
  heap := CountedHeap.empty
  clients _ := 0

/-- One reference less to an item. -/
def removeClient (clients : Nat → Nat) (target : Nat) : Nat → Nat :=
  fun address => clients address - [target].count address

/-- The state after a call. -/
def State.next (state : State) : Operation → State
  | .create alloc construction =>
      match construction.perform alloc state.heap with
      | (.ok (some item), heap) => ⟨heap, addClient state.clients item⟩
      | (_, heap) => ⟨heap, state.clients⟩
  | .ref item =>
      ⟨(ref item state.heap).2,
        item.elim state.clients (addClient state.clients)⟩
  | .unref item =>
      ⟨(unref item state.heap).2,
        item.elim state.clients (removeClient state.clients)⟩
  | .arrayAdd alloc array item =>
      ⟨(arrayAdd alloc array item state.heap).2, state.clients⟩
  | .mapSet alloc map key value =>
      ⟨(mapSet alloc map key value state.heap).2, state.clients⟩

/-- Clients pass live items or null pointers, and drop what they hold. -/
def State.Admits (state : State) : Operation → Prop
  | .create _ _ => True
  | .ref item => ∀ address ∈ item, address ∈ state.heap.live
  | .unref item => ∀ address ∈ item, 0 < state.clients address
  | .arrayAdd _ array item =>
      (∀ address ∈ array, address ∈ state.heap.live) ∧
        ∀ address ∈ item, address ∈ state.heap.live
  | .mapSet _ map key value =>
      (∀ address ∈ map, address ∈ state.heap.live) ∧
        (∀ address ∈ key, address ∈ state.heap.live) ∧
          ∀ address ∈ value, address ∈ state.heap.live

instance (state : State) (operation : Operation) :
    Decidable (state.Admits operation) :=
  match operation with
  | .create _ _ => inferInstanceAs (Decidable True)
  | .ref _ => inferInstanceAs (Decidable (∀ _, _))
  | .unref _ => inferInstanceAs (Decidable (∀ _, _))
  | .arrayAdd _ _ _ => inferInstanceAs (Decidable (_ ∧ _))
  | .mapSet _ _ _ _ => inferInstanceAs (Decidable (_ ∧ _))

/-! ## Books -/

/-- The slots of every item. -/
def slots (heap : Heap) : Nat → List Nat :=
  fun address =>
    ((heap.cell address).map fun object => object.content.children).getD []

/-- The counts are right, and the slots of live items hold live items. -/
structure State.Sound (state : State) : Prop where
  counts : ∀ address object, state.heap.cell address = some object →
    object.count =
      state.clients address +
        references (slots state.heap) state.heap.live address
  slots_live : ∀ holder ∈ state.heap.live,
    ∀ address ∈ slots state.heap holder, address ∈ state.heap.live

/-! ## Care -/

/-- The counts can be raised by the references that are taken. -/
def HasRoom (heap : Heap) (taken : List Nat) : Prop :=
  ∀ address object, heap.cell address = some object →
    object.count + taken.count address < sizeModulus

instance (heap : Heap) (taken : List Nat) : Decidable (HasRoom heap taken) :=
  decidable_of_iff
    (∀ address ∈ heap.live, ∀ object ∈ heap.cell address,
      object.count + taken.count address < sizeModulus)
    ⟨fun room address object there =>
        room address (mem_live.mpr ⟨object, there⟩) object there,
      fun room address _ object there => room address object there⟩

/-- The slots of a map without the value of an entry. -/
def slotsWithout : List (Nat × Nat) → Nat → List Nat
  | [], _ => []
  | entry :: rest, 0 =>
      entry.1 :: rest.flatMap fun other => [other.1, other.2]
  | entry :: rest, index + 1 => entry.1 :: entry.2 :: slotsWithout rest index

/-- The slots of every item, without the value of an entry of a map. -/
def slotsBeside (heap : Heap) (map : Nat) (entries : List (Nat × Nat))
    (index : Nat) : Nat → List Nat :=
  fun address =>
    if address = map then slotsWithout entries index else slots heap address

/--
The new value and the map are held by more than the slot of the old value.
They belong to a set of items, each of which is held by a client or by another
slot of the set.
-/
def State.HeldBeside (state : State) (map value : Nat)
    (entries : List (Nat × Nat)) (index : Nat) : Prop :=
  ∃ members : Set Nat,
    map ∈ members ∧ value ∈ members ∧
      (∀ address ∈ members, address ∈ state.heap.live) ∧
        Supported state.clients
          (slotsBeside state.heap map entries index) members

/-- A call of `stack_item_map_set` that finds a map. -/
def State.CarefulEntry (state : State) (map key value : Nat)
    (entries : List (Nat × Nat)) : Prop :=
  match findKey (equalsWithin state.heap (depthBound state.heap)) key
      entries with
  | .error _ => True
  | .ok none => HasRoom state.heap [key, value]
  | .ok (some index) =>
      state.HeldBeside map value entries index ∧
        ((entries[index]?).map Prod.snd = some value ∨
          HasRoom state.heap [value])

/-- No count leaves its range, and no value is dropped that is still used. -/
def State.Careful (state : State) : Operation → Prop
  | .ref (some item) => HasRoom state.heap [item]
  | .arrayAdd _ _ (some item) => HasRoom state.heap [item]
  | .mapSet _ (some map) (some key) (some value) =>
      match (state.heap.cell map).map Counted.content with
      | some (.map entries _) => state.CarefulEntry map key value entries
      | _ => True
  | _ => True

/-! ## Slots of a changed heap -/

section Slots

variable {heap : Heap} {address target : Nat} {content : Content}

theorem slots_of_cell {object : Counted Content}
    (there : heap.cell address = some object) :
    slots heap address = object.content.children := by
  rw [slots, there]
  rfl

theorem slots_setCount (heap : Heap) (target count : Nat) :
    slots (heap.setCount target count) = slots heap := by
  funext address
  rw [slots, slots]
  by_cases same : address = target
  · subst same
    cases found : heap.cell address with
    | none =>
        simp [CountedHeap.setCount, CountedHeap.modify, found]
    | some object =>
        rw [CountedHeap.setCount, cell_modify_self found]
        rfl
  · rw [CountedHeap.setCount, cell_modify_of_ne heap _ same]

theorem slots_setContent_self {object : Counted Content}
    (there : heap.cell target = some object) :
    slots (heap.setContent target content) target = content.children := by
  rw [slots, CountedHeap.setContent, cell_modify_self there]
  rfl

theorem slots_setContent_of_ne (different : address ≠ target) :
    slots (heap.setContent target content) address = slots heap address := by
  rw [slots, slots, CountedHeap.setContent,
    cell_modify_of_ne heap _ different]

/-- A change of capacity is none of the slots. -/
theorem slots_setContent {object : Counted Content}
    (there : heap.cell target = some object)
    (same : content.children = object.content.children) :
    slots (heap.setContent target content) = slots heap := by
  funext address
  by_cases equal : address = target
  · rw [equal, slots_setContent_self there, slots_of_cell there, same]
  · exact slots_setContent_of_ne equal

theorem slots_push (heap : Heap) (childless : content.children = []) :
    slots (heap.push content) =
      fun holder => if holder = heap.next then [] else slots heap holder := by
  funext holder
  rw [slots, cell_push]
  split
  · exact childless
  · rfl

/-- What remains of a heap has the slots it had. -/
theorem slots_of_remains {after : Heap} (remains : Remains heap after)
    (member : address ∈ after.live) :
    slots heap address = slots after address := by
  rcases mem_live.mp member with ⟨object, there⟩
  rcases remains.kept address object there with ⟨count, before⟩
  rw [slots_of_cell there, slots_of_cell before]

end Slots

/-- The slots of a map are one value and the other slots. -/
theorem slotsWithout_perm {entries : List (Nat × Nat)} {index : Nat}
    {entry : Nat × Nat} (found : entries[index]? = some entry) :
    (entries.flatMap fun other => [other.1, other.2]).Perm
      (entry.2 :: slotsWithout entries index) := by
  induction entries generalizing index with
  | nil => cases found
  | cons first rest induction =>
      cases index with
      | zero =>
          injection found with same
          subst same
          exact List.Perm.swap _ _ _
      | succ index =>
          have later := induction found
          refine ((later.cons first.2).cons first.1).trans ?_
          refine ((List.Perm.swap entry.2 first.2 _).cons first.1).trans ?_
          exact List.Perm.swap entry.2 first.1 _

theorem slotsWithout_modify (entries : List (Nat × Nat)) (index value : Nat) :
    slotsWithout (entries.modify index fun entry => (entry.1, value)) index =
      slotsWithout entries index := by
  induction entries generalizing index with
  | nil => cases index <;> rfl
  | cons first rest induction =>
      cases index with
      | zero => rfl
      | succ index =>
          rw [List.modify_succ_cons, slotsWithout, slotsWithout, induction]

theorem findKey_lt {same : Nat → Nat → Outcome Bool} {key : Nat}
    {entries : List (Nat × Nat)} {index : Nat}
    (found : findKey same key entries = .ok (some index)) :
    index < entries.length := by
  induction entries generalizing index with
  | nil => cases found
  | cons entry rest induction =>
      rw [findKey] at found
      rcases Except.bind_eq_ok_iff.mp found with ⟨equal, -, chosen⟩
      cases equal with
      | true =>
          cases chosen
          exact Nat.succ_pos _
      | false =>
          rcases Except.bind_eq_ok_iff.mp chosen with
            ⟨later, searched, counted⟩
          cases later with
          | none => cases counted
          | some position =>
              cases counted
              exact Nat.succ_lt_succ (induction searched)

/-! ## Steps -/

/-- The invariant of a run. -/
def State.InBalance (state : State) : Prop :=
  Balanced sizeModulus state.clients (slots state.heap) [] ∅ state.heap

theorem State.InBalance.sound {state : State} (balance : state.InBalance) :
    state.Sound := by
  refine ⟨?_, ?_⟩
  · intro address object there
    have counts := balance.counts address object there
    rwa [Finset.sdiff_empty, List.count_nil, Nat.add_zero] at counts
  · intro holder member
    exact balance.slots_live holder (by rwa [Finset.sdiff_empty])

theorem State.inBalance_start : State.start.InBalance := by
  refine ⟨?_, ?_, ?_, ?_, ?_, ?_⟩
  · intro address object there
    cases there
  · intro address object there
    cases there
  · intro address member
    exact absurd member (Finset.notMem_empty address)
  · intro holder member
    rcases mem_live.mp (Finset.mem_sdiff.mp member).1 with ⟨object, there⟩
    cases there
  · intro address member
    cases member
  · intro address positive
    exact absurd positive (Nat.lt_irrefl 0)

/-- The slots in use of a container fit its capacity. -/
def Content.Sized : Content → Prop
  | .array items capacity => items.length ≤ capacity ∧ 0 < capacity
  | .struct items capacity => items.length ≤ capacity ∧ 0 < capacity
  | .map entries capacity => entries.length ≤ capacity ∧ 0 < capacity
  | _ => True

/-- The value of a new item: no slot is in use, and all slots fit. -/
structure Initial (heap : Heap) (content : Content) : Prop where
  childless : content.children = []
  sized : content.Sized
  fits :
    content.slotBytes = 0 ∨ footprint heap + content.slotBytes ≤ sizeModulus

/-- A call makes one new item, or none. -/
def Makes (call : Routine Heap (Option Nat)) (heap : Heap) : Prop :=
  (∃ outcome, call heap = (outcome, heap) ∧
      ∀ item, outcome ≠ .ok (some item)) ∨
    ∃ content, Initial heap content ∧
      call heap = (.ok (some heap.next), heap.push content)

theorem makes_of_none {call : Routine Heap (Option Nat)} {heap : Heap}
    (nothing : call heap = (.ok none, heap)) :
    Makes call heap := by
  refine Or.inl ⟨_, nothing, ?_⟩
  intro item same
  cases same

theorem makes_stackItemAlloc (alloc : Allocator) {content : Content}
    {heap : Heap} (initial : Initial heap content) :
    Makes (stackItemAlloc alloc content) heap := by
  by_cases granted : alloc.grants structSize = true
  · refine Or.inr ⟨content, initial, ?_⟩
    rw [stackItemAlloc, if_pos granted]
  · apply makes_of_none
    rw [stackItemAlloc, if_neg granted]

theorem makes_stackItemAllocWith (alloc : Allocator) {granted : Heap → Bool}
    {content : Content} {heap : Heap}
    (initial : granted heap = true → Initial heap content) :
    Makes (stackItemAllocWith alloc granted content) heap := by
  by_cases given : granted heap = true
  · have made := makes_stackItemAlloc alloc (initial given)
    rw [Makes, stackItemAllocWith, if_pos given]
    exact made
  · apply makes_of_none
    rw [stackItemAllocWith, if_neg given]

theorem makes_createContainer (alloc : Allocator) {kind : Nat → Content}
    (childless : ∀ capacity, (kind capacity).children = [])
    (sized : ∀ capacity, 0 < capacity → (kind capacity).Sized)
    (initialCapacity : Nat) (heap : Heap) :
    Makes (createContainer kind alloc initialCapacity) heap := by
  apply makes_stackItemAllocWith
  intro granted
  rw [grantsSlots, Bool.and_eq_true, decide_eq_true_iff] at granted
  refine ⟨childless _, sized _ ?_, Or.inr granted.2⟩
  split
  · decide
  · omega

theorem makes_createInteger (alloc : Allocator) (value : Int64)
    (heap : Heap) :
    Makes (createInteger alloc value) heap := by
  rw [Makes, createInteger]
  split_ifs with missing short least
  · exact makes_of_none rfl
  · exact makes_of_none rfl
  · refine Or.inl ⟨_, rfl, ?_⟩
    intro item same
    cases same
  · exact makes_stackItemAlloc alloc ⟨rfl, trivial, Or.inl rfl⟩

theorem makes_createBigInteger (alloc : Allocator) (bytes : Buffer)
    (isNegative : Bool) (heap : Heap) :
    Makes (createBigInteger alloc bytes isNegative) heap := by
  cases bytes with
  | null count => exact makes_of_none rfl
  | items content =>
      rw [createBigInteger]
      split
      · exact makes_of_none rfl
      · exact makes_stackItemAllocWith alloc fun _ => ⟨rfl, trivial, Or.inl rfl⟩

theorem Construction.makes (alloc : Allocator) (construction : Construction)
    (heap : Heap) :
    Makes (construction.perform alloc) heap := by
  cases construction with
  | any => exact makes_stackItemAlloc alloc ⟨rfl, trivial, Or.inl rfl⟩
  | boolean value => exact makes_stackItemAlloc alloc ⟨rfl, trivial, Or.inl rfl⟩
  | integer value => exact makes_createInteger alloc value heap
  | bigInteger bytes isNegative =>
      exact makes_createBigInteger alloc bytes isNegative heap
  | byteString data =>
      exact makes_stackItemAllocWith alloc fun _ => ⟨rfl, trivial, Or.inl rfl⟩
  | buffer data =>
      exact makes_stackItemAllocWith alloc fun _ => ⟨rfl, trivial, Or.inl rfl⟩
  | array initialCapacity =>
      apply makes_createContainer
      · intro capacity
        rfl
      · intro capacity positive
        exact ⟨Nat.zero_le _, positive⟩
  | struct initialCapacity =>
      apply makes_createContainer
      · intro capacity
        rfl
      · intro capacity positive
        exact ⟨Nat.zero_le _, positive⟩
  | map initialCapacity =>
      apply makes_createContainer
      · intro capacity
        rfl
      · intro capacity positive
        exact ⟨Nat.zero_le _, positive⟩
  | pointer ptr position =>
      exact makes_stackItemAlloc alloc ⟨rfl, trivial, Or.inl rfl⟩
  | interopInterface interface =>
      exact makes_stackItemAlloc alloc ⟨rfl, trivial, Or.inl rfl⟩

theorem State.InBalance.create {state : State} (balance : state.InBalance)
    (alloc : Allocator) (construction : Construction) :
    (state.next (.create alloc construction)).InBalance := by
  rw [State.next]
  rcases construction.makes alloc state.heap with
    ⟨outcome, same, nothing⟩ | ⟨content, initial, made⟩
  · rw [same]
    split
    · rename_i item heap returned
      cases returned
      exact absurd rfl (nothing item)
    · rename_i reason heap returned
      cases returned
      exact balance
  · rw [made]
    dsimp only
    rw [State.InBalance, balanced_addClient_iff,
      slots_push state.heap initial.childless]
    exact balance.push content (by decide)

/-- A reference that is taken is pending until it is kept. -/
theorem ref_balanced {clients : Nat → Nat} {owned : Nat → List Nat}
    {pending : List Nat} {heap : Heap} {address : Nat}
    {object : Counted Content}
    (balanced : Balanced sizeModulus clients owned pending ∅ heap)
    (there : heap.cell address = some object)
    (room : object.count + 1 < sizeModulus) :
    ref (some address) heap =
        (.ok (), heap.setCount address (object.count + 1)) ∧
      Balanced sizeModulus clients owned (address :: pending) ∅
        (heap.setCount address (object.count + 1)) :=
  balanced.take there room

/-- A pending reference that is dropped spares every supported set. -/
theorem unref_dropped {clients : Nat → Nat} {owned : Nat → List Nat}
    {pending : List Nat} {heap : Heap} {address : Nat} {members : Set Nat}
    (supported : Supported clients owned members)
    (balanced :
      Balanced sizeModulus clients owned (address :: pending) ∅ heap)
    (stands : Stands Content.children owned members ∅ heap) :
    ∃ after,
      unref (some address) heap = (.ok (), after) ∧
        Dropped sizeModulus clients owned pending ∅ members heap after := by
  apply drop_dropped supported balanced stands
  rw [Finset.sdiff_empty]
  exact Nat.lt_succ_of_le heap.card_live_le

theorem State.InBalance.ref {state : State} (balance : state.InBalance)
    {item : Option Nat}
    (live : ∀ address ∈ item, address ∈ state.heap.live)
    (room : state.Careful (.ref item)) :
    (state.next (.ref item)).InBalance := by
  cases item with
  | none => exact balance
  | some address =>
      rcases mem_live.mp (live address rfl) with ⟨object, there⟩
      have small := room address object there
      rw [List.count_singleton_self] at small
      obtain ⟨ran, taken⟩ := ref_balanced balance there small
      rw [State.InBalance, State.next, ran]
      dsimp only
      rw [slots_setCount]
      exact balanced_addClient_iff.mpr taken

theorem addClient_removeClient {clients : Nat → Nat} {address : Nat}
    (held : 0 < clients address) :
    addClient (removeClient clients address) address = clients := by
  funext other
  by_cases same : other = address
  · subst same
    rw [addClient_self, removeClient, List.count_singleton_self]
    omega
  · rw [addClient_of_ne _ same, removeClient,
      List.count_eq_zero_of_not_mem (by simpa using same), Nat.sub_zero]

theorem State.InBalance.unref {state : State} (balance : state.InBalance)
    {item : Option Nat}
    (held : ∀ address ∈ item, 0 < state.clients address) :
    (state.next (.unref item)).InBalance := by
  cases item with
  | none => exact balance
  | some address =>
      rw [State.InBalance, ← addClient_removeClient (held address rfl),
        balanced_addClient_iff] at balance
      have unsupported :
          Supported (removeClient state.clients address) (slots state.heap)
            ∅ := by
        intro other member
        exact member.elim
      have stands :
          Stands Content.children (slots state.heap) ∅ ∅ state.heap := by
        refine ⟨?_, ?_⟩
        · intro other member
          exact member.elim
        · intro other object there _
          exact slots_of_cell there
      obtain ⟨after, ran, dropped⟩ :=
        unref_dropped unsupported balance stands
      rw [State.InBalance, State.next, ran]
      apply dropped.balanced.congr
      intro holder member
      rw [Finset.sdiff_empty] at member
      rw [slots_of_remains dropped.remains member]

/-- Several more slots of a holder. -/
def addSlots (owned : Nat → List Nat) (holder : Nat) (added : List Nat) :
    Nat → List Nat :=
  fun address => if address = holder then added ++ owned address
    else owned address

theorem balanced_addSlots {clients : Nat → Nat} {pending : List Nat}
    {owned : Nat → List Nat} {heap : Heap} {holder : Nat}
    (member : holder ∈ heap.live) (added : List Nat)
    (balanced : Balanced sizeModulus clients owned (added ++ pending) ∅ heap) :
    Balanced sizeModulus clients (addSlots owned holder added) pending ∅
      heap := by
  have inside : holder ∈ heap.live \ ∅ := by
    rwa [Finset.sdiff_empty]
  induction added generalizing pending with
  | nil =>
      apply balanced.congr
      intro other _
      rw [addSlots]
      split <;> rfl
  | cons address rest induction =>
      have first : Balanced sizeModulus clients owned
          (rest ++ address :: pending) ∅ heap := by
        have moved : (rest ++ address :: pending).Perm
            (address :: rest ++ pending) :=
          List.perm_middle
        refine ⟨?_, balanced.bounded, balanced.spent, balanced.slots_live,
          ?_, balanced.clients_live⟩
        · intro other object there
          rw [balanced.counts other object there, moved.count_eq]
        · intro other found
          exact balanced.pending_live other (moved.mem_iff.mp found)
      apply ((balanced_addSlot_iff inside).mpr (induction first)).congr
      intro other _
      rw [addSlot, addSlots, addSlots]
      split <;> rfl

/-- Pending references are stored in new slots. -/
theorem Balanced.store {clients : Nat → Nat} {pending : List Nat}
    {owned : Nat → List Nat} {heap : Heap} {holder : Nat}
    {object : Counted Content} {content : Content} (added : List Nat)
    (balanced :
      Balanced sizeModulus clients owned (added ++ pending) ∅ heap)
    (there : heap.cell holder = some object)
    (others : ∀ other ∈ heap.live, other ≠ holder →
      owned other = slots heap other)
    (grown : (added ++ owned holder).Perm content.children) :
    Balanced sizeModulus clients (slots (heap.setContent holder content))
      pending ∅ (heap.setContent holder content) := by
  have member : holder ∈ heap.live := mem_live.mpr ⟨object, there⟩
  have stored :=
    (balanced_addSlots member added balanced).setContent holder content
  apply stored.congr
  intro other found
  rw [Finset.sdiff_empty, CountedHeap.setContent, live_modify] at found
  rw [addSlots]
  split
  · rename_i same
    rw [same, slots_setContent_self there]
    exact grown
  · rename_i different
    rw [slots_setContent_of_ne different, others other found different]

/-- The references to all items of a list are taken, if all counts allow. -/
theorem refs_balanced {clients : Nat → Nat} {owned : Nat → List Nat}
    {pending : List Nat} {heap : Heap} (taken : List Nat)
    (balanced : Balanced sizeModulus clients owned pending ∅ heap)
    (live : ∀ address ∈ taken, address ∈ heap.live)
    (room : HasRoom heap taken) :
    ∃ after,
      Call.forEach (fun address => ref (some address)) taken heap =
          (.ok (), after) ∧
        Balanced sizeModulus clients owned (taken.reverse ++ pending) ∅
            after ∧
          after.live = heap.live ∧ slots after = slots heap := by
  induction taken generalizing heap pending with
  | nil => exact ⟨heap, rfl, balanced, rfl, rfl⟩
  | cons address rest induction =>
      rcases mem_live.mp (live address List.mem_cons_self) with
        ⟨object, there⟩
      have small := room address object there
      rw [List.count_cons_self] at small
      obtain ⟨ran, counted⟩ := ref_balanced balanced there (by omega)
      have same : (heap.setCount address (object.count + 1)).live =
          heap.live :=
        live_modify _ _ _
      have room' : HasRoom (heap.setCount address (object.count + 1))
          rest := by
        intro other changed found
        rcases of_cell_modify found with
          ⟨rfl, before, was, rfl⟩ | ⟨different, was⟩
        · dsimp only
          omega
        · have before := room other changed was
          rwa [List.count_cons_of_ne different.symm] at before
      obtain ⟨after, later, balancedAfter, liveAfter, slotsAfter⟩ :=
        induction counted
          (by
            rw [same]
            exact fun other member =>
              live other (List.mem_cons_of_mem _ member))
          room'
      refine ⟨after, Call.bind_eq_ok_iff.mpr ⟨(), _, ran, later⟩, ?_,
        liveAfter.trans same, slotsAfter.trans (slots_setCount _ _ _)⟩
      rwa [List.reverse_cons, List.append_assoc]

/-- A container takes references to items and keeps them in new slots. -/
theorem storing_balanced {clients : Nat → Nat} {heap : Heap} {holder : Nat}
    {object : Counted Content} {content grown : Content} {taken : List Nat}
    (balanced : Balanced sizeModulus clients (slots heap) [] ∅ heap)
    (there : heap.cell holder = some object)
    (resized : content.children = object.content.children)
    (live : ∀ address ∈ taken, address ∈ heap.live)
    (room : HasRoom heap taken)
    (added : (taken.reverse ++ content.children).Perm grown.children) :
    ∃ after,
      Call.forEach (fun address => ref (some address)) taken
          (heap.setContent holder content) =
          (.ok (), after) ∧
        Balanced sizeModulus clients (slots (after.setContent holder grown))
          [] ∅ (after.setContent holder grown) := by
  have same : (heap.setContent holder content).live = heap.live :=
    live_modify _ _ _
  have room' : HasRoom (heap.setContent holder content) taken := by
    intro other changed found
    rcases of_cell_modify found with ⟨rfl, before, was, rfl⟩ | ⟨-, was⟩
    · exact room other before was
    · exact room other changed was
  have resizedBalanced := balanced.setContent holder content
  rw [← slots_setContent there resized] at resizedBalanced
  obtain ⟨after, ran, counted, liveAfter, slotsAfter⟩ :=
    refs_balanced taken resizedBalanced
      (by
        rw [same]
        exact live)
      room'
  have stays : holder ∈ after.live := by
    rw [liveAfter, same]
    exact mem_live.mpr ⟨object, there⟩
  rcases mem_live.mp stays with ⟨object', there'⟩
  refine ⟨after, ran, Balanced.store _ counted there' ?_ ?_⟩
  · intro other _ _
    rw [slotsAfter]
  · rwa [slots_setContent_self there]

theorem storeItem_balanced {clients : Nat → Nat} {heap : Heap}
    {array item capacity : Nat} {items : List Nat} {object : Counted Content}
    {kind : List Nat → Nat → Content}
    (children : ∀ items capacity, (kind items capacity).children = items)
    (balanced : Balanced sizeModulus clients (slots heap) [] ∅ heap)
    (there : heap.cell array = some object)
    (holds : object.content.children = items)
    (live : item ∈ heap.live)
    (room : HasRoom heap [item]) :
    Balanced sizeModulus clients
      (slots (storeItem array item items capacity kind heap).2) [] ∅
      (storeItem array item items capacity kind heap).2 := by
  have resized :
      (kind items capacity).children = object.content.children := by
    rw [children, holds]
  have added : ([item].reverse ++ (kind items capacity).children).Perm
      (kind (items ++ [item]) capacity).children := by
    rw [children, children]
    exact List.perm_append_comm
  obtain ⟨after, ran, stored⟩ :=
    storing_balanced balanced there resized (by simpa using live) room added
  rcases Call.bind_eq_ok_iff.mp ran with ⟨_, middle, taken, done⟩
  cases done
  rw [storeItem, Call.bind_of_ok (Call.update_run _ _),
    Call.bind_of_ok taken, Call.update_run]
  exact stored

theorem storeEntry_balanced {clients : Nat → Nat} {heap : Heap}
    {map key value capacity : Nat} {entries : List (Nat × Nat)}
    {object : Counted Content}
    (balanced : Balanced sizeModulus clients (slots heap) [] ∅ heap)
    (there : heap.cell map = some object)
    (holds : object.content.children =
      entries.flatMap fun entry => [entry.1, entry.2])
    (live : ∀ address ∈ [key, value], address ∈ heap.live)
    (room : HasRoom heap [key, value]) :
    Balanced sizeModulus clients
      (slots (storeEntry map key value entries capacity heap).2) [] ∅
      (storeEntry map key value entries capacity heap).2 := by
  have resized : (Content.map entries capacity).children =
      object.content.children :=
    holds.symm
  have added : ([key, value].reverse ++
      (Content.map entries capacity).children).Perm
        (Content.map (entries ++ [(key, value)]) capacity).children := by
    rw [Content.children, Content.children, List.flatMap_append]
    refine List.perm_append_comm.trans (List.Perm.append_left _ ?_)
    exact List.Perm.swap key value []
  obtain ⟨after, ran, stored⟩ :=
    storing_balanced balanced there resized live room added
  rcases Call.bind_eq_ok_iff.mp ran with ⟨_, first, taken, rest⟩
  rcases Call.bind_eq_ok_iff.mp rest with ⟨_, second, taken', done⟩
  cases done
  rw [storeEntry, Call.bind_of_ok (Call.update_run _ _),
    Call.bind_of_ok taken, Call.bind_of_ok taken', Call.update_run]
  exact stored

/-- The books without the slot that is replaced. -/
theorem balanced_slotsBeside {clients : Nat → Nat} {heap : Heap}
    {map capacity count index : Nat} {entries : List (Nat × Nat)}
    {entry : Nat × Nat}
    (balanced : Balanced sizeModulus clients (slots heap) [] ∅ heap)
    (there : heap.cell map = some ⟨count, .map entries capacity⟩)
    (found : entries[index]? = some entry) :
    Balanced sizeModulus clients (slotsBeside heap map entries index)
      [entry.2] ∅ heap := by
  have inside : map ∈ heap.live \ ∅ := by
    rw [Finset.sdiff_empty]
    exact mem_live.mpr ⟨_, there⟩
  rw [← balanced_addSlot_iff inside]
  apply balanced.congr
  intro other _
  rw [addSlot, slotsBeside]
  split
  · rename_i same
    rw [same, slots_of_cell there]
    exact slotsWithout_perm found
  · rfl

/-- A drop of a value raises no count. -/
theorem count_le_of_dropped {clients : Nat → Nat} {owned : Nat → List Nat}
    {heap after : Heap} {address dropped : Nat} {members : Set Nat}
    {object object' : Counted Content}
    (balanced : Balanced sizeModulus clients owned [dropped] ∅ heap)
    (drops : Dropped sizeModulus clients owned [] ∅ members heap after)
    (there : heap.cell address = some object)
    (there' : after.cell address = some object') :
    object'.count + [dropped].count address ≤ object.count := by
  have before := balanced.counts address object there
  have books := drops.balanced.counts address object' there'
  have fewer : references owned (after.live \ ∅) address ≤
      references owned (heap.live \ ∅) address := by
    apply Finset.sum_le_sum_of_subset
    rw [Finset.sdiff_empty, Finset.sdiff_empty]
    exact drops.remains.live_subset
  rw [List.count_nil] at books
  omega

theorem replaceValue_balanced {state : State} {map value capacity : Nat}
    {count index : Nat} {entries : List (Nat × Nat)} {entry : Nat × Nat}
    (balance : state.InBalance)
    (there : state.heap.cell map = some ⟨count, .map entries capacity⟩)
    (found : entries[index]? = some entry)
    (held : state.HeldBeside map value entries index)
    (room : entry.2 = value ∨ HasRoom state.heap [value]) :
    Balanced sizeModulus state.clients
      (slots (replaceValue map value entries capacity index state.heap).2)
      [] ∅ (replaceValue map value entries capacity index state.heap).2 := by
  obtain ⟨members, mapInside, valueInside, live, supported⟩ := held
  have opened := balanced_slotsBeside balance there found
  have stands : Stands Content.children
      (slotsBeside state.heap map entries index) members ∅ state.heap := by
    refine ⟨?_, ?_⟩
    · rw [Finset.sdiff_empty]
      exact live
    · intro address object stored outside
      have different : address ≠ map := by
        rintro rfl
        exact outside mapInside
      rw [slotsBeside, if_neg different, slots_of_cell stored]
  obtain ⟨after, ran, dropped⟩ := unref_dropped supported opened stands
  have survive : ∀ address ∈ members, address ∈ after.live := by
    have survive := dropped.survive
    rwa [Finset.sdiff_empty] at survive
  rcases mem_live.mp (survive value valueInside) with ⟨object, stored⟩
  rcases mem_live.mp (live value valueInside) with ⟨before, storedBefore⟩
  have fewer := count_le_of_dropped opened dropped storedBefore stored
  have bounded := balance.bounded value before storedBefore
  have small : object.count + 1 < sizeModulus := by
    rcases room with same | room
    · rw [same, List.count_singleton_self] at fewer
      omega
    · have limit := room value before storedBefore
      rw [List.count_singleton_self] at limit
      omega
  obtain ⟨taken, counted⟩ := ref_balanced dropped.balanced stored small
  have mapStays : map ∈
      (after.setCount value (object.count + 1)).live := by
    rw [CountedHeap.setCount, live_modify]
    exact survive map mapInside
  rcases mem_live.mp mapStays with ⟨mapObject, mapStored⟩
  have loaded : load map (after.setCount value (object.count + 1)) =
      (.ok mapObject, after.setCount value (object.count + 1)) := by
    rw [load, CountedHeap.load, mapStored]
  rw [replaceValue, found, Option.map_some, Call.bind_of_ok ran,
    Call.bind_of_ok taken, Call.bind_of_ok loaded, Call.update_run]
  have modified :
      (entries.modify index fun entry => (entry.1, value))[index]? =
        some (entry.1, value) := by
    rw [List.getElem?_modify_eq, found]
    rfl
  have grown := (slotsWithout_perm modified).symm
  rw [slotsWithout_modify] at grown
  refine Balanced.store [value] counted mapStored ?_ ?_
  · intro other member different
    rw [slots_setCount, slotsBeside, if_neg different]
    apply slots_of_remains dropped.remains
    rwa [CountedHeap.setCount, live_modify] at member
  · rw [slotsBeside, if_pos rfl]
    exact grown

theorem appendItem_balanced {clients : Nat → Nat} {heap : Heap}
    {array item capacity : Nat} {items : List Nat} {object : Counted Content}
    {kind : List Nat → Nat → Content}
    (children : ∀ items capacity, (kind items capacity).children = items)
    (balanced : Balanced sizeModulus clients (slots heap) [] ∅ heap)
    (there : heap.cell array = some object)
    (holds : object.content.children = items)
    (live : item ∈ heap.live)
    (room : HasRoom heap [item])
    (alloc : Allocator) :
    Balanced sizeModulus clients
      (slots (appendItem alloc array item items capacity kind heap).2) [] ∅
      (appendItem alloc array item items capacity kind heap).2 := by
  rw [appendItem]
  split
  · split
    · exact storeItem_balanced children balanced there holds live room
    · exact balanced
  · exact storeItem_balanced children balanced there holds live room

theorem State.InBalance.arrayAdd {state : State} (balance : state.InBalance)
    {alloc : Allocator} {array item : Option Nat}
    (admitted : state.Admits (.arrayAdd alloc array item))
    (careful : state.Careful (.arrayAdd alloc array item)) :
    (state.next (.arrayAdd alloc array item)).InBalance := by
  rw [State.next, State.InBalance]
  dsimp only
  rcases array with _ | array
  · exact balance
  rcases item with _ | item
  · exact balance
  obtain ⟨arrayLive, itemLive⟩ := admitted
  rcases mem_live.mp (arrayLive array rfl) with ⟨object, there⟩
  have loaded : load array state.heap = (.ok object, state.heap) := by
    rw [load, CountedHeap.load, there]
  rw [StackItem.arrayAdd, Call.bind_of_ok loaded]
  obtain ⟨count, content⟩ := object
  cases content
  case array items capacity =>
    exact appendItem_balanced (fun _ _ => rfl) balance there rfl
      (itemLive item rfl) careful alloc
  case struct items capacity =>
    exact appendItem_balanced (fun _ _ => rfl) balance there rfl
      (itemLive item rfl) careful alloc
  all_goals exact balance

theorem setEntry_balanced {state : State} {map key value capacity : Nat}
    {count : Nat} {entries : List (Nat × Nat)}
    (balance : state.InBalance)
    (there : state.heap.cell map = some ⟨count, .map entries capacity⟩)
    (live : ∀ address ∈ [key, value], address ∈ state.heap.live)
    (careful : state.CarefulEntry map key value entries)
    (alloc : Allocator) :
    Balanced sizeModulus state.clients
      (slots (setEntry alloc map key value entries capacity state.heap).2)
      [] ∅ (setEntry alloc map key value entries capacity state.heap).2 := by
  rw [State.CarefulEntry] at careful
  rw [setEntry]
  cases searched : findKey
      (equalsWithin state.heap (depthBound state.heap)) key entries with
  | error reason => exact balance
  | ok position =>
      rw [searched] at careful
      cases position with
      | none =>
          dsimp only at careful ⊢
          rw [appendEntry]
          split
          · split
            · exact storeEntry_balanced balance there rfl live careful
            · exact balance
          · exact storeEntry_balanced balance there rfl live careful
      | some index =>
          obtain ⟨held, room⟩ := careful
          have found := List.getElem?_eq_getElem (findKey_lt searched)
          rw [found] at room
          exact replaceValue_balanced balance there found held
            (room.imp_left Option.some.inj)

theorem State.InBalance.mapSet {state : State} (balance : state.InBalance)
    {alloc : Allocator} {map key value : Option Nat}
    (admitted : state.Admits (.mapSet alloc map key value))
    (careful : state.Careful (.mapSet alloc map key value)) :
    (state.next (.mapSet alloc map key value)).InBalance := by
  rw [State.next, State.InBalance]
  dsimp only
  rcases map with _ | map
  · exact balance
  rcases key with _ | key
  · exact balance
  rcases value with _ | value
  · exact balance
  obtain ⟨mapLive, keyLive, valueLive⟩ := admitted
  rcases mem_live.mp (mapLive map rfl) with ⟨object, there⟩
  have loaded : load map state.heap = (.ok object, state.heap) := by
    rw [load, CountedHeap.load, there]
  rw [State.Careful, there] at careful
  rw [StackItem.mapSet, Call.bind_of_ok loaded]
  obtain ⟨count, content⟩ := object
  cases content
  case map entries capacity =>
    refine setEntry_balanced balance there ?_ careful alloc
    rw [List.forall_mem_cons, List.forall_mem_singleton]
    exact ⟨keyLive key rfl, valueLive value rfl⟩
  all_goals exact balance

/-- An admitted and careful call keeps the books. -/
theorem State.InBalance.next {state : State} {operation : Operation}
    (balance : state.InBalance)
    (admitted : state.Admits operation)
    (careful : state.Careful operation) :
    (state.next operation).InBalance := by
  cases operation with
  | create alloc construction => exact balance.create alloc construction
  | ref item => exact balance.ref admitted careful
  | unref item => exact balance.unref admitted
  | arrayAdd alloc array item => exact balance.arrayAdd admitted careful
  | mapSet alloc map key value => exact balance.mapSet admitted careful

/-! ## Safety -/

/-- In a careful run the books are right in every state. -/
theorem sound_of_careful
    (operations : List Operation)
    (admitted : Along State.next State.Admits .start operations)
    (careful : Along State.next State.Careful .start operations) :
    Along State.next
      (fun state operation => state.Sound ∧ (state.next operation).Sound)
      .start operations := by
  have guarded := (along_and State.start operations).mpr ⟨admitted, careful⟩
  refine
    along_of_invariant State.InBalance ?_ ?_ State.inBalance_start guarded
  · rintro state operation balance ⟨admits, careful⟩
    exact balance.next admits careful
  · rintro state operation balance ⟨admits, careful⟩
    exact ⟨balance.sound, (balance.next admits careful).sound⟩

/-- A map with one entry is set to the value that it already has. -/
def replacement (between : List Operation) : List Operation :=
  [.create .ample (.map 1), .create .ample .any,
      .create .ample (.boolean true),
      .mapSet .ample (some 0) (some 1) (some 2)] ++
    between ++ [.mapSet .ample (some 0) (some 1) (some 2)]

/-- The client still holds the value that is replaced by itself. -/
theorem replacement_sound :
    Along State.next
      (fun state operation => state.Sound ∧ (state.next operation).Sound)
      .start (replacement []) := by
  apply sound_of_careful
  · decide
  · refine ⟨trivial, trivial, trivial, ?_, ?_, trivial⟩
    · change HasRoom _ [1, 2]
      decide
    · change State.HeldBeside _ 0 2 [(1, 2)] 0 ∧ _
      refine ⟨⟨{0, 2}, ?_, ?_, ?_, ?_⟩, Or.inl rfl⟩
      · exact Or.inl rfl
      · exact Or.inr rfl
      · rintro address (rfl | rfl)
        · decide
        · decide
      · rintro address (rfl | rfl)
        · exact Or.inl (by decide)
        · exact Or.inl (by decide)

/-- The client has dropped the value, and the map is left with a dead one. -/
theorem replacement_unsound :
    Along State.next State.Admits .start (replacement [.unref (some 2)]) ∧
      ¬ (finalState State.next .start
          (replacement [.unref (some 2)])).Sound := by
  constructor
  · decide
  · intro sound
    have dead : 2 ∈ (finalState State.next .start
        (replacement [.unref (some 2)])).heap.live :=
      sound.slots_live 0 (by decide) 2 (by decide)
    revert dead
    decide

end NeoC.Protocol.StackItem
