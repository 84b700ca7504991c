import NeoC.Protocol.ItemEquality
import Mathlib.Algebra.BigOperators.Ring.Finset

/-!
# Maps built by calls

Clients create items and put them into arrays, structs and maps, and keep
their references.  Beside the state a history keeps the calls of
`stack_item_map_set` that succeeded.

The keys that were passed are items without cycles, and nothing that a key
leads to is changed by the call or later.  Then a map has one entry for every
class of keys that were passed for it, with the value of the last call.  The
slots fit into the address space, so that no count of references leaves its
range on the way.
-/

namespace NeoC.Protocol.StackItem

open Foundation CountedHeap

/-! ## Histories -/

/-- A call of `stack_item_map_set` that succeeded. -/
structure MapCall where
  map : Nat
  key : Nat
  value : Nat

/-- A state with the calls that led to its maps. -/
structure History where
  state : State
  calls : List MapCall

/-- Nothing has been created. -/
def History.start : History where
  state := .start
  calls := []

/-- What a call adds to the record. -/
def setCalls (heap : Heap) : Operation → List MapCall
  | .mapSet alloc (some map) (some key) (some value) =>
      match (mapSet alloc (some map) (some key) (some value) heap).1 with
      | .ok () => [⟨map, key, value⟩]
      | .error _ => []
  | _ => []

/-- The history after a call. -/
def History.next (history : History) (operation : Operation) : History where
  state := history.state.next operation
  calls := history.calls ++ setCalls history.state.heap operation

/-- The call creates or fills items. -/
def Operation.Builds : Operation → Prop
  | .ref _ => False
  | .unref _ => False
  | _ => True

/-- The key that a call is about. -/
def Operation.key : Operation → Option Nat
  | .mapSet _ _ key _ => key
  | _ => none

/-- An item serves as a key in the call or in an earlier one. -/
def History.ServesAsKey (history : History) (operation : Operation)
    (key : Nat) : Prop :=
  key ∈ operation.key ∨ key ∈ history.calls.map MapCall.key

/-- Keys are items without cycles, and they are not changed. -/
structure History.Allows (history : History) (operation : Operation) :
    Prop where
  builds : operation.Builds
  admits : history.state.Admits operation
  acyclic : ∀ key ∈ operation.key, Acyclic history.state.heap key
  keeps : ∀ key, history.ServesAsKey operation key →
    ∀ inner, Reaches history.state.heap key inner →
      contentAt (history.state.next operation).heap inner =
        contentAt history.state.heap inner

/-- The keys and values that were set in a map, in order. -/
def callsOn (calls : List MapCall) (map : Nat) : List (Nat × Nat) :=
  (calls.filter fun call => call.map = map).map fun call =>
    (call.key, call.value)

/-! ## Values of a changed heap -/

section Contents

variable {heap : Heap} {target item : Nat}

theorem contentAt_of_cell {object : Counted Content}
    (there : heap.cell item = some object) :
    contentAt heap item = some object.content := by
  rw [contentAt, there, Option.map_some]

theorem cell_of_contentAt {content : Content}
    (there : contentAt heap item = some content) :
    ∃ count, heap.cell item = some ⟨count, content⟩ := by
  obtain ⟨object, stored, rfl⟩ := Option.map_eq_some_iff.mp there
  exact ⟨object.count, stored⟩

theorem contentAt_setCount (heap : Heap) (target count item : Nat) :
    contentAt (heap.setCount target count) item = contentAt heap item := by
  rw [contentAt, contentAt]
  by_cases same : item = target
  · subst same
    cases found : heap.cell item with
    | none =>
        simp [CountedHeap.setCount, CountedHeap.modify, found]
    | some object =>
        rw [CountedHeap.setCount, cell_modify_self found]
        rfl
  · rw [CountedHeap.setCount, cell_modify_of_ne heap _ same]

theorem contentAt_setContent_self (live : target ∈ heap.live)
    (content : Content) :
    contentAt (heap.setContent target content) target = some content := by
  obtain ⟨object, there⟩ := mem_live.mp live
  rw [contentAt, CountedHeap.setContent, cell_modify_self there]
  rfl

theorem contentAt_setContent_of_ne (different : item ≠ target)
    (content : Content) :
    contentAt (heap.setContent target content) item =
      contentAt heap item := by
  rw [contentAt, contentAt, CountedHeap.setContent,
    cell_modify_of_ne heap _ different]

theorem contentAt_push (heap : Heap) (content : Content) (item : Nat) :
    contentAt (heap.push content) item =
      if item = heap.next then some content else contentAt heap item := by
  rw [contentAt, cell_push]
  split <;> rfl

theorem contentAt_of_remains {after : Heap} (remains : Remains heap after)
    (survive : ∀ item ∈ heap.live, item ∈ after.live) (item : Nat) :
    contentAt after item = contentAt heap item := by
  by_cases live : item ∈ heap.live
  · obtain ⟨object, there⟩ := mem_live.mp (survive item live)
    obtain ⟨count, before⟩ := remains.kept item object there
    rw [contentAt_of_cell there, contentAt_of_cell before]
  · have gone : item ∉ after.live := fun inside =>
      live (remains.live_subset inside)
    rw [contentAt, contentAt, not_mem_live.mp live, not_mem_live.mp gone]

theorem ref_run (live : item ∈ heap.live) :
    ∃ count, ref (some item) heap = (.ok (), heap.setCount item count) := by
  obtain ⟨object, there⟩ := mem_live.mp live
  have loaded : CountedHeap.load Halt.illegalAccess item heap =
      (.ok object, heap) := by
    rw [CountedHeap.load, there]
  exact ⟨_, by rw [ref, CountedHeap.take, Call.bind_of_ok loaded,
    Call.update_run]⟩

end Contents

/-! ## Steps -/

/-- One value of a heap is changed, and all slots still fit. -/
structure Rewritten (heap after : Heap) (target : Nat) (old new : Content) :
    Prop where
  next : after.next = heap.next
  before : contentAt heap target = some old
  result : contentAt after target = some new
  others : ∀ item, item ≠ target →
    contentAt after item = contentAt heap item
  sized : old.Sized → new.Sized
  fits : footprint heap ≤ sizeModulus →
    footprint heap + new.slotBytes ≤ sizeModulus + old.slotBytes

/-- What a call does to items, with its key and what it records. -/
inductive Effect (heap after : Heap) (key : Option Nat) :
    List MapCall → Prop
  | unchanged (next : after.next = heap.next)
      (content : ∀ item, contentAt after item = contentAt heap item) :
      Effect heap after key []
  | grown (array : Nat) (old new : Content)
      (rewritten : Rewritten heap after array old new)
      (noMap : ∀ entries capacity, new ≠ .map entries capacity) :
      Effect heap after key []
  | replaced (map passed value index capacity : Nat)
      (entries : List (Nat × Nat)) (isKey : key = some passed)
      (found : findKey (equalsWithin heap (depthBound heap)) passed entries =
        .ok (some index))
      (rewritten : Rewritten heap after map (.map entries capacity)
        (.map (entries.modify index fun entry => (entry.1, value))
          capacity)) :
      Effect heap after key [⟨map, passed, value⟩]
  | appended (map passed value capacity capacity' : Nat)
      (entries : List (Nat × Nat)) (isKey : key = some passed)
      (absent : findKey (equalsWithin heap (depthBound heap)) passed entries =
        .ok none)
      (rewritten : Rewritten heap after map (.map entries capacity)
        (.map (entries ++ [(passed, value)]) capacity')) :
      Effect heap after key [⟨map, passed, value⟩]

/-- References to items are taken without a change of any value. -/
theorem refs_run (heap : Heap) (taken : List Nat)
    (live : ∀ item ∈ taken, item ∈ heap.live) :
    ∃ after,
      Call.forEach (fun item => ref (some item)) taken heap =
          (.ok (), after) ∧
        after.next = heap.next ∧ after.live = heap.live ∧
          ∀ item, contentAt after item = contentAt heap item := by
  induction taken generalizing heap with
  | nil => exact ⟨heap, rfl, rfl, rfl, fun _ => rfl⟩
  | cons first rest induction =>
      obtain ⟨firstLive, restLive⟩ := List.forall_mem_cons.mp live
      obtain ⟨count, ran⟩ := ref_run firstLive
      have same : (heap.setCount first count).live = heap.live :=
        live_modify _ _ _
      obtain ⟨after, later, next, liveAfter, contents⟩ :=
        induction (heap.setCount first count) (by rwa [same])
      refine ⟨after, Call.bind_eq_ok_iff.mpr ⟨(), _, ran, later⟩, next,
        liveAfter.trans same, ?_⟩
      intro item
      rw [contents, contentAt_setCount]

/-- A container is resized, takes references and has a new value. -/
theorem storing_rewritten {heap : Heap} {target : Nat} {old new : Content}
    (resized : Content) (taken : List Nat)
    (there : contentAt heap target = some old)
    (live : ∀ item ∈ taken, item ∈ heap.live)
    (sized : old.Sized → new.Sized)
    (fits : footprint heap ≤ sizeModulus →
      footprint heap + new.slotBytes ≤ sizeModulus + old.slotBytes) :
    ∃ after,
      Call.forEach (fun item => ref (some item)) taken
          (heap.setContent target resized) =
          (.ok (), after) ∧
        Rewritten heap (after.setContent target new) target old new := by
  have same : (heap.setContent target resized).live = heap.live :=
    live_modify _ _ _
  obtain ⟨after, ran, next, liveAfter, contents⟩ :=
    refs_run (heap.setContent target resized) taken (by rwa [same])
  have targetLive : target ∈ after.live := by
    rw [liveAfter, same]
    exact mem_live_iff_contentAt.mpr ⟨old, there⟩
  refine ⟨after, ran, next, there,
    contentAt_setContent_self targetLive new, ?_, sized, fits⟩
  intro item different
  rw [contentAt_setContent_of_ne different, contents,
    contentAt_setContent_of_ne different]

theorem storeItem_rewritten {heap : Heap} {array item : Nat}
    (items : List Nat) (capacity : Nat) {old : Content}
    {kind : List Nat → Nat → Content}
    (there : contentAt heap array = some old)
    (live : item ∈ heap.live)
    (sized : old.Sized → (kind (items ++ [item]) capacity).Sized)
    (fits : footprint heap ≤ sizeModulus →
      footprint heap + (kind (items ++ [item]) capacity).slotBytes ≤
        sizeModulus + old.slotBytes) :
    ∃ after,
      storeItem array item items capacity kind heap = (.ok (), after) ∧
        Rewritten heap after array old (kind (items ++ [item]) capacity) := by
  obtain ⟨after, ran, rewritten⟩ :=
    storing_rewritten (kind items capacity) [item] there
      (by simpa using live) sized fits
  rcases Call.bind_eq_ok_iff.mp ran with ⟨_, middle, taken, done⟩
  cases done
  refine ⟨_, ?_, rewritten⟩
  rw [storeItem, Call.bind_of_ok (Call.update_run _ _),
    Call.bind_of_ok taken, Call.update_run]

theorem storeEntry_rewritten {heap : Heap} {map key value : Nat}
    (entries : List (Nat × Nat)) (capacity : Nat) {old : Content}
    (there : contentAt heap map = some old)
    (live : ∀ item ∈ [key, value], item ∈ heap.live)
    (sized : old.Sized →
      (Content.map (entries ++ [(key, value)]) capacity).Sized)
    (fits : footprint heap ≤ sizeModulus →
      footprint heap +
          (Content.map (entries ++ [(key, value)]) capacity).slotBytes ≤
        sizeModulus + old.slotBytes) :
    ∃ after,
      storeEntry map key value entries capacity heap = (.ok (), after) ∧
        Rewritten heap after map old
          (.map (entries ++ [(key, value)]) capacity) := by
  obtain ⟨after, ran, rewritten⟩ :=
    storing_rewritten (.map entries capacity) [key, value] there live sized
      fits
  rcases Call.bind_eq_ok_iff.mp ran with ⟨_, first, taken, rest⟩
  rcases Call.bind_eq_ok_iff.mp rest with ⟨_, second, taken', done⟩
  cases done
  refine ⟨_, ?_, rewritten⟩
  rw [storeEntry, Call.bind_of_ok (Call.update_run _ _),
    Call.bind_of_ok taken, Call.bind_of_ok taken', Call.update_run]

/-- A replaced value is not released, because a client holds it. -/
theorem replaceValue_rewritten {state : State} {map value capacity : Nat}
    {index : Nat} {entries : List (Nat × Nat)} {entry : Nat × Nat}
    (balance : state.InBalance)
    (held : ∀ item ∈ state.heap.live, 0 < state.clients item)
    (there : contentAt state.heap map = some (.map entries capacity))
    (found : entries[index]? = some entry)
    (live : value ∈ state.heap.live) :
    ∃ after,
      replaceValue map value entries capacity index state.heap =
          (.ok (), after) ∧
        Rewritten state.heap after map (.map entries capacity)
          (.map (entries.modify index fun entry => (entry.1, value))
            capacity) := by
  obtain ⟨count, stored⟩ := cell_of_contentAt there
  have mapLive : map ∈ state.heap.live := mem_live.mpr ⟨_, stored⟩
  have supported : Supported state.clients
      (slotsBeside state.heap map entries index)
      {item | item ∈ state.heap.live} := by
    intro item inside
    exact Or.inl (held item inside)
  have stands : Stands Content.children
      (slotsBeside state.heap map entries index)
      {item | item ∈ state.heap.live} ∅ state.heap := by
    refine ⟨?_, ?_⟩
    · intro item inside
      rwa [Finset.sdiff_empty]
    · intro item object present outside
      exact absurd (mem_live.mpr ⟨object, present⟩) outside
  obtain ⟨middle, ran, dropped⟩ :=
    unref_dropped supported (balanced_slotsBeside balance stored found) stands
  have survive : ∀ item ∈ state.heap.live, item ∈ middle.live := by
    have survive := dropped.survive
    rwa [Finset.sdiff_empty] at survive
  obtain ⟨raised, taken⟩ := ref_run (survive value live)
  have mapStays : map ∈ (middle.setCount value raised).live := by
    rw [CountedHeap.setCount, live_modify]
    exact survive map mapLive
  obtain ⟨object, present⟩ := mem_live.mp mapStays
  have loaded : load map (middle.setCount value raised) =
      (.ok object, middle.setCount value raised) := by
    rw [load, CountedHeap.load, present]
  refine ⟨(middle.setCount value raised).setContent map
      (.map (entries.modify index fun entry => (entry.1, value)) capacity),
    ?_, dropped.remains.next, there, contentAt_setContent_self mapStays _,
    ?_, ?_, ?_⟩
  · rw [replaceValue, found, Option.map_some, Call.bind_of_ok ran,
      Call.bind_of_ok taken, Call.bind_of_ok loaded, Call.update_run]
  · intro item different
    rw [contentAt_setContent_of_ne different, contentAt_setCount,
      contentAt_of_remains dropped.remains survive]
  · rintro ⟨small, positive⟩
    rw [← List.length_modify] at small
    exact ⟨small, positive⟩
  · intro small
    exact Nat.add_le_add_right small _

theorem appendItem_effect {heap : Heap} {array item capacity : Nat}
    {items : List Nat} {kind : List Nat → Nat → Content}
    (sized : ∀ items capacity, (kind items capacity).Sized ↔
      items.length ≤ capacity ∧ 0 < capacity)
    (bytes : ∀ items capacity, (kind items capacity).slotBytes = capacity * 8)
    (noMap : ∀ items capacity entries capacity',
      kind items capacity ≠ .map entries capacity')
    (there : contentAt heap array = some (kind items capacity))
    (live : item ∈ heap.live) (alloc : Allocator) (key : Option Nat) :
    Effect heap (appendItem alloc array item items capacity kind heap).2 key
      [] := by
  rw [appendItem]
  split
  · rename_i full
    split
    · rename_i granted
      rw [grantsSlots, Bool.and_eq_true, decide_eq_true_iff] at granted
      obtain ⟨after, ran, rewritten⟩ :=
        storeItem_rewritten items (capacity * 2) there live
          (by
            rw [sized, sized, List.length_append, List.length_singleton]
            omega)
          (by
            rw [bytes, bytes]
            omega)
      rw [ran]
      exact Effect.grown array _ _ rewritten (noMap _ _)
    · exact Effect.unchanged rfl fun _ => rfl
  · rename_i room
    obtain ⟨after, ran, rewritten⟩ :=
      storeItem_rewritten items capacity there live
        (by
          rw [sized, sized, List.length_append, List.length_singleton]
          omega)
        (by
          rw [bytes, bytes]
          omega)
    rw [ran]
    exact Effect.grown array _ _ rewritten (noMap _ _)

theorem arrayAdd_effect {heap : Heap} (alloc : Allocator)
    (array : Option Nat) {item : Option Nat}
    (live : ∀ address ∈ item, address ∈ heap.live) (key : Option Nat) :
    Effect heap (arrayAdd alloc array item heap).2 key [] := by
  rcases array with _ | array
  · exact Effect.unchanged rfl fun _ => rfl
  rcases item with _ | item
  · exact Effect.unchanged rfl fun _ => rfl
  rw [arrayAdd]
  cases there : heap.cell array with
  | none =>
      have missing : load array heap = (.error .illegalAccess, heap) := by
        rw [load, CountedHeap.load, there]
        rfl
      rw [Call.bind_of_error missing]
      exact Effect.unchanged rfl fun _ => rfl
  | some object =>
      have loaded : load array heap = (.ok object, heap) := by
        rw [load, CountedHeap.load, there]
      have value := contentAt_of_cell there
      rw [Call.bind_of_ok loaded]
      obtain ⟨count, content⟩ := object
      cases content
      case array items capacity =>
        exact appendItem_effect (fun _ _ => Iff.rfl) (fun _ _ => rfl)
          (fun _ _ _ _ same => by cases same) value (live item rfl) alloc key
      case struct items capacity =>
        exact appendItem_effect (fun _ _ => Iff.rfl) (fun _ _ => rfl)
          (fun _ _ _ _ same => by cases same) value (live item rfl) alloc key
      all_goals exact Effect.unchanged rfl fun _ => rfl

/-- What `stack_item_map_set` does to a map. -/
theorem setEntry_effect {state : State} (key value : Nat)
    {map capacity : Nat} {entries : List (Nat × Nat)}
    (balance : state.InBalance)
    (held : ∀ item ∈ state.heap.live, 0 < state.clients item)
    (there : contentAt state.heap map = some (.map entries capacity))
    (live : ∀ item ∈ [key, value], item ∈ state.heap.live)
    (alloc : Allocator) :
    ∃ outcome after calls,
      setEntry alloc map key value entries capacity state.heap =
          (outcome, after) ∧
        Effect state.heap after (some key) calls ∧
          (outcome = .ok () ∧ calls = [⟨map, key, value⟩] ∨
            outcome ≠ .ok () ∧ calls = []) := by
  rw [setEntry]
  cases searched : findKey
      (equalsWithin state.heap (depthBound state.heap)) key entries with
  | error reason =>
      exact ⟨_, _, [], rfl, Effect.unchanged rfl fun _ => rfl,
        Or.inr ⟨(by intro same; cases same), rfl⟩⟩
  | ok position =>
      cases position with
      | some index =>
          have found := List.getElem?_eq_getElem (findKey_lt searched)
          obtain ⟨after, ran, rewritten⟩ :=
            replaceValue_rewritten balance held there found
              (live value (List.mem_cons_of_mem _ List.mem_cons_self))
          exact ⟨_, _, _, ran,
            Effect.replaced map key value index capacity entries rfl searched
              rewritten,
            Or.inl ⟨rfl, rfl⟩⟩
      | none =>
          dsimp only
          rw [appendEntry]
          split
          · rename_i full
            split
            · rename_i granted
              rw [grantsSlots, Bool.and_eq_true,
                decide_eq_true_iff] at granted
              obtain ⟨after, ran, rewritten⟩ :=
                storeEntry_rewritten entries (capacity * 2) there live
                  (by
                    simp only [Content.Sized, List.length_append,
                      List.length_singleton]
                    omega)
                  (by
                    simp only [Content.slotBytes]
                    omega)
              exact ⟨_, _, _, ran,
                Effect.appended map key value capacity _ entries rfl searched
                  rewritten,
                Or.inl ⟨rfl, rfl⟩⟩
            · exact ⟨_, _, [], rfl, Effect.unchanged rfl fun _ => rfl,
                Or.inr ⟨(by intro same; cases same), rfl⟩⟩
          · rename_i room
            obtain ⟨after, ran, rewritten⟩ :=
              storeEntry_rewritten entries capacity there live
                (by
                  simp only [Content.Sized, List.length_append,
                    List.length_singleton]
                  omega)
                (by
                  simp only [Content.slotBytes]
                  omega)
            exact ⟨_, _, _, ran,
              Effect.appended map key value capacity _ entries rfl searched
                rewritten,
              Or.inl ⟨rfl, rfl⟩⟩

theorem mapSet_effect {state : State} {map key value : Option Nat}
    (balance : state.InBalance)
    (held : ∀ item ∈ state.heap.live, 0 < state.clients item)
    (keyLive : ∀ item ∈ key, item ∈ state.heap.live)
    (valueLive : ∀ item ∈ value, item ∈ state.heap.live)
    (alloc : Allocator) :
    Effect state.heap (mapSet alloc map key value state.heap).2 key
      (setCalls state.heap (.mapSet alloc map key value)) := by
  rcases map with _ | map
  · exact Effect.unchanged rfl fun _ => rfl
  rcases key with _ | key
  · exact Effect.unchanged rfl fun _ => rfl
  rcases value with _ | value
  · exact Effect.unchanged rfl fun _ => rfl
  have failing {reason : Halt}
      (failed : mapSet alloc (some map) (some key) (some value) state.heap =
        (.error reason, state.heap)) :
      Effect state.heap
        (mapSet alloc (some map) (some key) (some value) state.heap).2
        (some key)
        (setCalls state.heap
          (.mapSet alloc (some map) (some key) (some value))) := by
    rw [setCalls, failed]
    exact Effect.unchanged rfl fun _ => rfl
  cases there : state.heap.cell map with
  | none =>
      apply failing
      have missing : load map state.heap =
          (.error .illegalAccess, state.heap) := by
        rw [load, CountedHeap.load, there]
        rfl
      rw [mapSet, Call.bind_of_error missing]
  | some object =>
      have loaded : load map state.heap = (.ok object, state.heap) := by
        rw [load, CountedHeap.load, there]
      have value_eq := contentAt_of_cell there
      obtain ⟨count, content⟩ := object
      cases content
      case map entries capacity =>
        obtain ⟨outcome, after, calls, ran, effect, recorded⟩ :=
          setEntry_effect key value balance held value_eq
            (by
              rw [List.forall_mem_cons, List.forall_mem_singleton]
              exact ⟨keyLive key rfl, valueLive value rfl⟩)
            alloc
        have set : mapSet alloc (some map) (some key) (some value)
            state.heap = (outcome, after) := by
          rw [mapSet, Call.bind_of_ok loaded]
          exact ran
        rw [setCalls, set]
        rcases recorded with ⟨rfl, rfl⟩ | ⟨failed, rfl⟩
        · exact effect
        · cases outcome with
          | ok returned => exact absurd rfl failed
          | error reason => exact effect
      all_goals
        apply failing
        rw [mapSet, Call.bind_of_ok loaded]
        rfl

/-- What one call does: it makes a new item, or has an effect on the others. -/
theorem State.next_cases {state : State} {operation : Operation}
    (balance : state.InBalance)
    (held : ∀ item ∈ state.heap.live, 0 < state.clients item)
    (builds : operation.Builds) (admits : state.Admits operation) :
    (∃ content, Initial state.heap content ∧
        state.next operation =
            ⟨state.heap.push content,
              addClient state.clients state.heap.next⟩ ∧
          setCalls state.heap operation = []) ∨
      (state.next operation).clients = state.clients ∧
        Effect state.heap (state.next operation).heap operation.key
          (setCalls state.heap operation) := by
  cases operation with
  | ref item => exact builds.elim
  | unref item => exact builds.elim
  | arrayAdd alloc array item =>
      exact Or.inr ⟨rfl, arrayAdd_effect alloc array admits.2 none⟩
  | mapSet alloc map key value =>
      exact Or.inr
        ⟨rfl, mapSet_effect balance held admits.2.1 admits.2.2 alloc⟩
  | create alloc construction =>
      rw [State.next]
      rcases construction.makes alloc state.heap with
        ⟨outcome, same, nothing⟩ | ⟨content, initial, made⟩
      · refine Or.inr ?_
        rw [same]
        split
        · rename_i item heap returned
          cases returned
          exact absurd rfl (nothing item)
        · rename_i reason heap returned
          cases returned
          exact ⟨rfl, Effect.unchanged rfl fun _ => rfl⟩
      · refine Or.inl ⟨content, initial, ?_, rfl⟩
        rw [made]

/-! ## Room -/

/-- Every item has one client, and all slots fit into the address space. -/
structure State.Roomy (state : State) : Prop where
  balance : state.InBalance
  held : ∀ item ∈ state.heap.live, 0 < state.clients item
  single : ∀ item, state.clients item ≤ 1
  sized : ∀ item content, contentAt state.heap item = some content →
    content.Sized
  fits : footprint state.heap ≤ sizeModulus

/-- The bytes of the slots of an item that may not be there. -/
def bytesOf (content : Option Content) : Nat :=
  (content.map Content.slotBytes).getD 0

theorem footprint_eq (heap : Heap) :
    footprint heap = ∑ item ∈ heap.live, bytesOf (contentAt heap item) := by
  refine Finset.sum_congr rfl fun item _ => ?_
  rw [bytesOf, contentAt, Option.map_map]
  rfl

theorem live_eq_of_contentAt {heap after : Heap}
    (content : ∀ item,
      (contentAt after item).isSome = (contentAt heap item).isSome) :
    after.live = heap.live := by
  ext item
  rw [mem_live_iff_contentAt, mem_live_iff_contentAt,
    ← Option.isSome_iff_exists, ← Option.isSome_iff_exists, content]

theorem Rewritten.live_eq {heap after : Heap} {target : Nat}
    {old new : Content} (rewritten : Rewritten heap after target old new) :
    after.live = heap.live := by
  apply live_eq_of_contentAt
  intro item
  by_cases same : item = target
  · rw [same, rewritten.before, rewritten.result]
    rfl
  · rw [rewritten.others item same]

theorem Rewritten.footprint_add {heap after : Heap} {target : Nat}
    {old new : Content} (rewritten : Rewritten heap after target old new) :
    footprint after + old.slotBytes = footprint heap + new.slotBytes := by
  have member : target ∈ heap.live :=
    mem_live_iff_contentAt.mpr ⟨old, rewritten.before⟩
  have rest :
      ∑ item ∈ heap.live.erase target, bytesOf (contentAt after item) =
        ∑ item ∈ heap.live.erase target, bytesOf (contentAt heap item) := by
    refine Finset.sum_congr rfl fun item inside => ?_
    rw [rewritten.others item (Finset.ne_of_mem_erase inside)]
  have before := Finset.sum_erase_add heap.live
    (fun item => bytesOf (contentAt heap item)) member
  have result := Finset.sum_erase_add heap.live
    (fun item => bytesOf (contentAt after item)) member
  rw [rewritten.before, bytesOf, Option.map_some, Option.getD_some] at before
  rw [rewritten.result, bytesOf, Option.map_some,
    Option.getD_some, rest] at result
  rw [footprint_eq, footprint_eq, rewritten.live_eq, ← before, ← result]
  omega

theorem footprint_push (heap : Heap) (content : Content) :
    footprint (heap.push content) = content.slotBytes + footprint heap := by
  have absent := heap.next_not_mem_live
  rw [footprint_eq, footprint_eq, live_push, Finset.sum_insert absent,
    contentAt_push, if_pos rfl]
  congr 1
  refine Finset.sum_congr rfl fun item inside => ?_
  rw [contentAt_push, if_neg]
  rintro rfl
  exact absent inside

theorem Content.Sized.children_le {content : Content}
    (sized : content.Sized) :
    content.children.length * 8 ≤ content.slotBytes := by
  cases content
  case array items capacity => exact Nat.mul_le_mul_right 8 sized.1
  case struct items capacity => exact Nat.mul_le_mul_right 8 sized.1
  case map entries capacity =>
    have length : (Content.map entries capacity).children.length =
        entries.length * 2 := by
      rw [Content.children, List.length_flatMap]
      simp
    rw [length, Content.slotBytes]
    have small := sized.1
    omega
  all_goals exact Nat.zero_le _

/-- The slots that hold an item take up bytes. -/
theorem State.Roomy.references_le {state : State} (roomy : state.Roomy)
    (item : Nat) :
    references (slots state.heap) state.heap.live item * 8 ≤
      footprint state.heap := by
  rw [references, footprint_eq, Finset.sum_mul]
  refine Finset.sum_le_sum fun holder inside => ?_
  obtain ⟨content, there⟩ := mem_live_iff_contentAt.mp inside
  rw [slots_eq_contentAt, there, bytesOf]
  refine (Nat.mul_le_mul_right 8 List.count_le_length).trans ?_
  exact (roomy.sized holder content there).children_le

theorem State.Roomy.hasRoom {state : State} (roomy : state.Roomy)
    {taken : List Nat} (few : taken.length ≤ 2) :
    HasRoom state.heap taken := by
  intro item object there
  have counts := roomy.balance.sound.counts item object there
  have slots_le := roomy.references_le item
  have single := roomy.single item
  have fits := roomy.fits
  have some_taken : taken.count item ≤ taken.length := List.count_le_length
  simp only [sizeModulus] at fits ⊢
  omega

theorem State.Roomy.heldBeside {state : State} (roomy : state.Roomy)
    {map value : Nat} (mapLive : map ∈ state.heap.live)
    (valueLive : value ∈ state.heap.live) (entries : List (Nat × Nat))
    (index : Nat) :
    state.HeldBeside map value entries index :=
  ⟨{item | item ∈ state.heap.live}, mapLive, valueLive,
    fun _ inside => inside, fun item inside => Or.inl (roomy.held item inside)⟩

theorem State.Roomy.careful {state : State} (roomy : state.Roomy)
    {operation : Operation} (builds : operation.Builds)
    (admits : state.Admits operation) :
    state.Careful operation := by
  cases operation with
  | ref item => exact builds.elim
  | unref item => exact builds.elim
  | create alloc construction => exact trivial
  | arrayAdd alloc array item =>
      cases item with
      | none => exact trivial
      | some item => exact roomy.hasRoom (by simp)
  | mapSet alloc map key value =>
      rcases map with _ | map
      · exact trivial
      rcases key with _ | key
      · exact trivial
      rcases value with _ | value
      · exact trivial
      rw [State.Careful]
      split
      · rw [State.CarefulEntry]
        split
        · exact trivial
        · exact roomy.hasRoom (by simp)
        · exact ⟨roomy.heldBeside (admits.1 map rfl) (admits.2.2 value rfl)
            _ _, Or.inr (roomy.hasRoom (by simp))⟩
      · exact trivial

theorem State.roomy_start : State.start.Roomy := by
  refine ⟨State.inBalance_start, ?_, ?_, ?_, ?_⟩
  · intro item live
    obtain ⟨object, there⟩ := mem_live.mp live
    cases there
  · intro item
    exact Nat.zero_le 1
  · intro item content there
    cases there
  · decide +kernel

theorem State.Roomy.next {state : State} (roomy : state.Roomy)
    {operation : Operation} (builds : operation.Builds)
    (admits : state.Admits operation) :
    (state.next operation).Roomy := by
  have balance := roomy.balance.next admits (roomy.careful builds admits)
  rcases State.next_cases roomy.balance roomy.held builds admits with
    ⟨content, initial, made, -⟩ | ⟨clients, effect⟩
  · rw [made] at balance ⊢
    have clientless : state.clients state.heap.next = 0 := by
      by_contra held
      exact state.heap.next_not_mem_live
        (roomy.balance.clients_live _ (Nat.pos_of_ne_zero held))
    refine ⟨balance, ?_, ?_, ?_, ?_⟩
    · intro item live
      rw [live_push, Finset.mem_insert] at live
      rcases live with rfl | live
      · dsimp only
        rw [addClient_self]
        exact Nat.succ_pos _
      · exact Nat.lt_of_lt_of_le (roomy.held item live)
          (Nat.le_add_right _ _)
    · intro item
      dsimp only
      by_cases same : item = state.heap.next
      · subst same
        rw [addClient_self, clientless]
      · rw [addClient_of_ne _ same]
        exact roomy.single item
    · intro item content' there
      rw [contentAt_push] at there
      split at there
      · cases there
        exact initial.sized
      · exact roomy.sized item content' there
    · have fits := roomy.fits
      rw [footprint_push]
      rcases initial.fits with slotless | fits
      · omega
      · omega
  · have rewritten_roomy {target : Nat} {old new : Content}
        (rewritten :
          Rewritten state.heap (state.next operation).heap target old new) :
        (state.next operation).Roomy := by
      refine ⟨balance, ?_, ?_, ?_, ?_⟩
      · rw [clients, rewritten.live_eq]
        exact roomy.held
      · rw [clients]
        exact roomy.single
      · intro item content there
        by_cases same : item = target
        · rw [same, rewritten.result] at there
          cases there
          exact rewritten.sized (roomy.sized target old rewritten.before)
        · rw [rewritten.others item same] at there
          exact roomy.sized item content there
      · have added := rewritten.footprint_add
        have fits := rewritten.fits roomy.fits
        omega
    generalize operation.key = key, setCalls state.heap operation = calls
      at effect
    cases effect with
    | unchanged next content =>
        have live : (state.next operation).heap.live = state.heap.live :=
          live_eq_of_contentAt fun item => by rw [content]
        refine ⟨balance, ?_, ?_, ?_, ?_⟩
        · rw [clients, live]
          exact roomy.held
        · rw [clients]
          exact roomy.single
        · intro item value there
          rw [content] at there
          exact roomy.sized item value there
        · rw [footprint_eq, live]
          simp only [content]
          rw [← footprint_eq]
          exact roomy.fits
    | grown array old new rewritten noMap =>
        exact rewritten_roomy rewritten
    | replaced map passed value index capacity entries isKey found
        rewritten =>
        exact rewritten_roomy rewritten
    | appended map passed value capacity capacity' entries isKey absent
        rewritten =>
        exact rewritten_roomy rewritten

/-! ## Maps -/

/-- Every map is what the calls made of it. -/
structure History.Kept (history : History) : Prop where
  roomy : history.state.Roomy
  keys : ∀ call ∈ history.calls,
    Proper history.state.heap call.key ∧ call.map ∈ history.state.heap.live
  maps : ∀ map entries capacity,
    contentAt history.state.heap map = some (.map entries capacity) →
      KeyedList.Represents (same history.state.heap)
        (callsOn history.calls map) entries

theorem History.kept_start : History.start.Kept := by
  refine ⟨State.roomy_start, ?_, ?_⟩
  · intro call called
    cases called
  · intro map entries capacity there
    cases there

theorem mem_callsOn {calls : List MapCall} {map : Nat} {entry : Nat × Nat} :
    entry ∈ callsOn calls map ↔
      ∃ call ∈ calls, call.map = map ∧ (call.key, call.value) = entry := by
  rw [callsOn, List.mem_map]
  simp only [List.mem_filter, decide_eq_true_eq, and_assoc]

theorem callsOn_append (calls : List MapCall) (call : MapCall) (map : Nat) :
    callsOn (calls ++ [call]) map =
      callsOn calls map ++
        if call.map = map then [(call.key, call.value)] else [] := by
  rw [callsOn, List.filter_append, List.map_append]
  congr 1
  by_cases same : call.map = map <;> simp [same]

section Kept

variable {history : History} (kept : history.Kept)

include kept

theorem History.Kept.slotsLive : SlotsLive history.state.heap :=
  kept.roomy.balance.sound.slots_live

theorem History.Kept.keysDistinct : KeysDistinct history.state.heap := by
  intro map count entries capacity there
  exact (kept.maps map entries capacity (contentAt_of_cell there)).distinct

theorem History.Kept.equivalent :
    KeyedList.EquivalentOn (same history.state.heap)
      {item | Proper history.state.heap item} :=
  same_equivalent kept.slotsLive kept.keysDistinct

theorem History.Kept.callsOn_proper (map : Nat) :
    ∀ call ∈ callsOn history.calls map,
      call.1 ∈ {item | Proper history.state.heap item} := by
  intro entry called
  obtain ⟨call, listed, -, rfl⟩ := mem_callsOn.mp called
  exact (kept.keys call listed).1

/-- The search in a map compares its keys. -/
theorem History.Kept.findKey_eq {map key capacity : Nat}
    {entries : List (Nat × Nat)}
    (there : contentAt history.state.heap map = some (.map entries capacity))
    (proper : Proper history.state.heap key) :
    findKey
        (equalsWithin history.state.heap (depthBound history.state.heap)) key
        entries =
      .ok (entries.findIdx? fun entry =>
        same history.state.heap entry.1 key) := by
  rw [← findKey_ok]
  apply findKey_congr
  intro entry listed
  have entryProper := (kept.maps map entries capacity there).key_mem
    (kept.callsOn_proper map) entry listed
  exact equalsWithin_total kept.slotsLive entryProper proper
    ⟨rank_lt_depthBound _ _, rank_lt_depthBound _ _⟩

variable {operation : Operation} (allows : history.Allows operation)

include allows

theorem History.Kept.serves_proper {key : Nat}
    (serves : history.ServesAsKey operation key) :
    Proper history.state.heap key := by
  rcases serves with passed | earlier
  · refine ⟨?_, allows.acyclic key passed⟩
    cases operation with
    | mapSet alloc map key' value =>
        exact allows.admits.2.1 key passed
    | _ => cases passed
  · obtain ⟨call, listed, rfl⟩ := List.mem_map.mp earlier
    exact (kept.keys call listed).1

omit kept in
/-- What the keys lead to is not changed. -/
theorem History.Allows.agrees :
    Agrees history.state.heap (history.state.next operation).heap
      {inner | ∃ key, history.ServesAsKey operation key ∧
        Reaches history.state.heap key inner} := by
  refine ⟨?_, ?_⟩
  · rintro inner ⟨key, serves, reached⟩
    exact allows.keeps key serves inner reached
  · rintro inner ⟨key, serves, reached⟩ child held
    exact ⟨key, serves, reached.tail held⟩

theorem History.Kept.serves_after {key : Nat}
    (serves : history.ServesAsKey operation key) :
    Proper (history.state.next operation).heap key :=
  (allows.agrees.proper_iff ⟨key, serves, Relation.ReflTransGen.refl⟩).mpr
    (kept.serves_proper allows serves)

theorem History.Kept.same_after {key key' : Nat}
    (serves : history.ServesAsKey operation key)
    (serves' : history.ServesAsKey operation key') :
    same history.state.heap key key' =
      same (history.state.next operation).heap key key' := by
  have roomy := kept.roomy.next allows.builds allows.admits
  exact (allows.agrees.same_eq kept.slotsLive roomy.balance.sound.slots_live
    ⟨key, serves, Relation.ReflTransGen.refl⟩
    ⟨key', serves', Relation.ReflTransGen.refl⟩
    (kept.serves_proper allows serves)
    (kept.serves_proper allows serves')).symm

/-- A map is represented in the changed heap as it is in the old one. -/
theorem History.Kept.represents_after
    {calls entries : List (Nat × Nat)}
    (serves : ∀ key ∈ calls.map Prod.fst, history.ServesAsKey operation key)
    (represents :
      KeyedList.Represents (same history.state.heap) calls entries) :
    KeyedList.Represents (same (history.state.next operation).heap) calls
      entries := by
  apply represents.congr
  intro key member key' member'
  exact kept.same_after allows (serves key member) (serves key' member')

omit kept allows in
theorem History.serves_of_callsOn (operation : Operation) {map key : Nat}
    (member : key ∈ (callsOn history.calls map).map Prod.fst) :
    history.ServesAsKey operation key := by
  obtain ⟨entry, called, rfl⟩ := List.mem_map.mp member
  obtain ⟨call, listed, -, rfl⟩ := mem_callsOn.mp called
  exact Or.inr (List.mem_map_of_mem listed)

/-- Calls for other maps leave a map as it is. -/
theorem History.Kept.others_after {calls : List MapCall}
    (recorded : setCalls history.state.heap operation = calls)
    {map capacity : Nat} {entries : List (Nat × Nat)}
    (elsewhere : ∀ call ∈ calls, call.map ≠ map)
    (there : contentAt history.state.heap map = some (.map entries capacity)) :
    KeyedList.Represents (same (history.state.next operation).heap)
      (callsOn (history.next operation).calls map) entries := by
  have calls_eq : callsOn (history.next operation).calls map =
      callsOn history.calls map := by
    have nothing : (calls.filter fun call => call.map = map) = [] := by
      rw [List.filter_eq_nil_iff]
      intro call listed
      simpa using elsewhere call listed
    rw [History.next, recorded, callsOn, List.filter_append, nothing,
      List.append_nil]
    rfl
  rw [calls_eq]
  exact kept.represents_after allows
    (fun _ member => history.serves_of_callsOn operation member)
    (kept.maps map entries capacity there)

/-- The map of a call is represented with the call. -/
theorem History.Kept.target_after {map key value : Nat}
    {entries' : List (Nat × Nat)} (isKey : operation.key = some key)
    (recorded :
      setCalls history.state.heap operation = [⟨map, key, value⟩])
    (represents : KeyedList.Represents (same history.state.heap)
      (callsOn history.calls map ++ [(key, value)]) entries') :
    KeyedList.Represents (same (history.state.next operation).heap)
      (callsOn (history.next operation).calls map) entries' := by
  have calls_eq : callsOn (history.next operation).calls map =
      callsOn history.calls map ++ [(key, value)] := by
    rw [History.next, recorded, callsOn_append, if_pos rfl]
  rw [calls_eq]
  apply kept.represents_after allows _ represents
  intro other member
  rw [List.map_append, List.mem_append] at member
  rcases member with earlier | new
  · exact history.serves_of_callsOn operation earlier
  · rw [List.mem_singleton.mp new]
    exact Or.inl isKey

omit allows in
/-- A key that is found has its value replaced. -/
theorem History.Kept.replaced {map key value index capacity : Nat}
    {entries : List (Nat × Nat)}
    (there : contentAt history.state.heap map = some (.map entries capacity))
    (proper : Proper history.state.heap key)
    (found :
      findKey
          (equalsWithin history.state.heap (depthBound history.state.heap))
          key entries =
        .ok (some index)) :
    KeyedList.Represents (same history.state.heap)
      (callsOn history.calls map ++ [(key, value)])
      (entries.modify index fun entry => (entry.1, value)) := by
  rw [kept.findKey_eq there proper] at found
  injection found with found
  obtain ⟨bound, matched, -⟩ := List.findIdx?_eq_some_iff_getElem.mp found
  exact (kept.maps map entries capacity there).replace kept.equivalent
    (kept.callsOn_proper map) proper (List.getElem?_eq_getElem bound) matched

omit allows in
/-- A key that is not found is added with its value. -/
theorem History.Kept.appended {map key value capacity : Nat}
    {entries : List (Nat × Nat)}
    (there : contentAt history.state.heap map = some (.map entries capacity))
    (proper : Proper history.state.heap key)
    (absent :
      findKey
          (equalsWithin history.state.heap (depthBound history.state.heap))
          key entries =
        .ok none) :
    KeyedList.Represents (same history.state.heap)
      (callsOn history.calls map ++ [(key, value)])
      (entries ++ [(key, value)]) := by
  rw [kept.findKey_eq there proper] at absent
  injection absent with absent
  exact (kept.maps map entries capacity there).append kept.equivalent
    (kept.callsOn_proper map) proper (List.findIdx?_eq_none_iff.mp absent)

omit allows in
/-- There are no calls for an item that does not exist yet. -/
theorem History.Kept.callsOn_next :
    callsOn history.calls history.state.heap.next = [] := by
  rw [List.eq_nil_iff_forall_not_mem]
  intro entry called
  obtain ⟨call, listed, same, -⟩ := mem_callsOn.mp called
  apply history.state.heap.next_not_mem_live
  rw [← same]
  exact (kept.keys call listed).2

/-- The value of a map after one call. -/
theorem History.Kept.maps_after :
    ∀ map entries capacity,
      contentAt (history.state.next operation).heap map =
          some (.map entries capacity) →
        KeyedList.Represents (same (history.state.next operation).heap)
          (callsOn (history.next operation).calls map) entries := by
  intro map entries capacity there
  rcases State.next_cases kept.roomy.balance kept.roomy.held allows.builds
      allows.admits with
    ⟨content, initial, made, recorded⟩ | ⟨-, effect⟩
  · by_cases new : map = history.state.heap.next
    · rw [made, new] at there
      dsimp only at there
      rw [contentAt_push, if_pos rfl] at there
      cases there
      have empty : entries = [] := by
        cases entries with
        | nil => rfl
        | cons entry rest => cases initial.childless
      have calls_eq : callsOn (history.next operation).calls map = [] := by
        rw [History.next, recorded, List.append_nil, new, kept.callsOn_next]
      rw [calls_eq, empty]
      exact KeyedList.represents_nil _
    · rw [made] at there
      dsimp only at there
      rw [contentAt_push, if_neg new] at there
      exact kept.others_after allows recorded
        (fun _ listed => absurd listed List.not_mem_nil) there
  · have maps_after {calls : List MapCall}
        (recorded : setCalls history.state.heap operation = calls)
        (elsewhere : ∀ call ∈ calls, call.map ≠ map)
        (unchanged : contentAt (history.state.next operation).heap map =
          contentAt history.state.heap map) :
        KeyedList.Represents (same (history.state.next operation).heap)
          (callsOn (history.next operation).calls map) entries := by
      rw [unchanged] at there
      exact kept.others_after allows recorded elsewhere there
    have single {call : MapCall} (different : call.map ≠ map) :
        ∀ other ∈ [call], other.map ≠ map := by
      rwa [List.forall_mem_singleton]
    generalize recorded : setCalls history.state.heap operation = calls
      at effect
    generalize isKey' : operation.key = key at effect
    cases effect with
    | unchanged next content =>
        exact maps_after recorded
          (fun _ listed => absurd listed List.not_mem_nil) (content map)
    | grown array old new rewritten noMap =>
        by_cases same : map = array
        · rw [same, rewritten.result] at there
          cases there
          exact absurd rfl (noMap entries capacity)
        · exact maps_after recorded
            (fun _ listed => absurd listed List.not_mem_nil)
            (rewritten.others map same)
    | replaced target passed value index capacity' entries' isKey found
        rewritten =>
        by_cases same : map = target
        · rw [same, rewritten.result] at there
          cases there
          have serves := isKey'.trans isKey
          rw [same]
          exact kept.target_after allows serves recorded
            (kept.replaced rewritten.before
              (kept.serves_proper allows (Or.inl serves)) found)
        · exact maps_after recorded (single (Ne.symm same))
            (rewritten.others map same)
    | appended target passed value capacity' capacity'' entries' isKey absent
        rewritten =>
        by_cases same : map = target
        · rw [same, rewritten.result] at there
          cases there
          have serves := isKey'.trans isKey
          rw [same]
          exact kept.target_after allows serves recorded
            (kept.appended rewritten.before
              (kept.serves_proper allows (Or.inl serves)) absent)
        · exact maps_after recorded (single (Ne.symm same))
            (rewritten.others map same)

/-- What is recorded of a call is its key and a live map. -/
theorem History.Kept.recorded_mem {call : MapCall}
    (listed : call ∈ setCalls history.state.heap operation) :
    operation.key = some call.key ∧
      call.map ∈ (history.state.next operation).heap.live := by
  rcases State.next_cases kept.roomy.balance kept.roomy.held allows.builds
      allows.admits with
    ⟨content, initial, made, recorded⟩ | ⟨-, effect⟩
  · rw [recorded] at listed
    cases listed
  · generalize setCalls history.state.heap operation = calls
      at effect listed
    generalize operation.key = key at effect ⊢
    cases effect with
    | unchanged next content => cases listed
    | grown array old new rewritten noMap => cases listed
    | replaced map passed value index capacity entries isKey found
        rewritten =>
        rw [List.mem_singleton.mp listed]
        exact ⟨isKey, mem_live_iff_contentAt.mpr ⟨_, rewritten.result⟩⟩
    | appended map passed value capacity capacity' entries isKey absent
        rewritten =>
        rw [List.mem_singleton.mp listed]
        exact ⟨isKey, mem_live_iff_contentAt.mpr ⟨_, rewritten.result⟩⟩

/-- No item is released. -/
theorem History.Kept.live_after {item : Nat}
    (live : item ∈ history.state.heap.live) :
    item ∈ (history.state.next operation).heap.live := by
  rcases State.next_cases kept.roomy.balance kept.roomy.held allows.builds
      allows.admits with
    ⟨content, initial, made, recorded⟩ | ⟨-, effect⟩
  · rw [made, live_push]
    exact Finset.mem_insert_of_mem live
  · generalize setCalls history.state.heap operation = calls at effect
    generalize operation.key = key at effect
    cases effect with
    | unchanged next content =>
        rw [mem_live_iff_contentAt, content, ← mem_live_iff_contentAt]
        exact live
    | grown array old new rewritten noMap =>
        rwa [rewritten.live_eq]
    | replaced map passed value index capacity entries isKey found
        rewritten =>
        rwa [rewritten.live_eq]
    | appended map passed value capacity capacity' entries isKey absent
        rewritten =>
        rwa [rewritten.live_eq]

/-- One call keeps the maps. -/
theorem History.Kept.next : (history.next operation).Kept := by
  refine ⟨kept.roomy.next allows.builds allows.admits, ?_,
    kept.maps_after allows⟩
  intro call listed
  rcases List.mem_append.mp listed with earlier | new
  · exact
      ⟨kept.serves_after allows (Or.inr (List.mem_map_of_mem earlier)),
        kept.live_after allows (kept.keys call earlier).2⟩
  · obtain ⟨isKey, live⟩ := kept.recorded_mem allows new
    exact ⟨kept.serves_after allows (Or.inl isKey), live⟩

end Kept

/-! ## Equality and maps in every history -/

/-- Equality is an equivalence, and maps hold what was set last. -/
structure History.Lawful (history : History) : Prop where
  total : ∀ first second,
    Proper history.state.heap first → Proper history.state.heap second →
      ∃ result,
        equals history.state.heap (some first) (some second) = .ok result
  reflexive : ∀ item, Proper history.state.heap item →
    equals history.state.heap (some item) (some item) = .ok true
  symmetric : ∀ first second,
    Proper history.state.heap first → Proper history.state.heap second →
      equals history.state.heap (some first) (some second) = .ok true →
        equals history.state.heap (some second) (some first) = .ok true
  transitive : ∀ first second third,
    Proper history.state.heap first → Proper history.state.heap second →
      Proper history.state.heap third →
        equals history.state.heap (some first) (some second) = .ok true →
          equals history.state.heap (some second) (some third) = .ok true →
            equals history.state.heap (some first) (some third) = .ok true
  distinct : ∀ map entries capacity,
    contentAt history.state.heap map = some (.map entries capacity) →
      entries.Pairwise fun entry other =>
        equals history.state.heap (some entry.1) (some other.1) = .ok false
  get : ∀ map entries capacity key,
    contentAt history.state.heap map = some (.map entries capacity) →
      Proper history.state.heap key →
        mapGet history.state.heap (some map) (some key) =
          .ok (KeyedList.lastValue (same history.state.heap)
            (callsOn history.calls map) key)
  count : ∀ map entries capacity,
    contentAt history.state.heap map = some (.map entries capacity) →
      mapCount history.state.heap (some map) =
        (KeyedList.keyClasses (same history.state.heap)
          (callsOn history.calls map)).ncard

theorem History.Kept.equals_eq {history : History} (kept : history.Kept)
    {first second : Nat} (proper : Proper history.state.heap first)
    (proper' : Proper history.state.heap second) :
    equals history.state.heap (some first) (some second) =
      .ok (same history.state.heap first second) :=
  equalsWithin_total kept.slotsLive proper proper'
    ⟨rank_lt_depthBound _ _, rank_lt_depthBound _ _⟩

theorem same_iff {heap : Heap} {first second : Nat} :
    same heap first second = true ↔
      equals heap (some first) (some second) = .ok true := by
  rw [same, decide_eq_true_iff]

theorem History.Kept.lawful {history : History} (kept : history.Kept) :
    history.Lawful := by
  have entries_proper {map capacity : Nat} {entries : List (Nat × Nat)}
      (there :
        contentAt history.state.heap map = some (.map entries capacity)) :
      ∀ entry ∈ entries,
        entry.1 ∈ {item | Proper history.state.heap item} :=
    (kept.maps map entries capacity there).key_mem
      (kept.callsOn_proper map)
  refine ⟨?_, ?_, ?_, ?_, ?_, ?_, ?_⟩
  · intro first second proper proper'
    exact ⟨_, kept.equals_eq proper proper'⟩
  · intro item proper
    exact same_iff.mp (kept.equivalent.refl item proper)
  · intro first second proper proper' equal
    exact same_iff.mp
      (kept.equivalent.symm first proper second proper'
        (same_iff.mpr equal))
  · intro first second third proper proper' proper'' equal equal'
    exact same_iff.mp
      (kept.equivalent.trans first proper second proper' third proper''
        (same_iff.mpr equal) (same_iff.mpr equal'))
  · intro map entries capacity there
    apply (kept.maps map entries capacity there).distinct.imp_of_mem
    intro entry other listed listed' different
    rw [kept.equals_eq (entries_proper there entry listed)
      (entries_proper there other listed'), different]
  · intro map entries capacity key there proper
    obtain ⟨count, stored⟩ := cell_of_contentAt there
    have search : findValue
        (equalsWithin history.state.heap (depthBound history.state.heap)) key
        entries =
          .ok (KeyedList.lookup (same history.state.heap) entries key) := by
      rw [← findValue_ok]
      apply findValue_congr
      intro entry listed
      exact kept.equals_eq (entries_proper there entry listed) proper
    rw [mapGet, stored]
    dsimp only
    rw [search, (kept.maps map entries capacity there).lookup_eq
      kept.equivalent (kept.callsOn_proper map) proper]
  · intro map entries capacity there
    rw [mapCount, Option.bind_some,
      ← (kept.maps map entries capacity there).length_eq kept.equivalent
        (kept.callsOn_proper map)]
    rw [contentAt] at there
    rw [there]

/-- An item without slots leads to itself only. -/
theorem eq_of_reaches_leaf {heap : Heap} {item inner : Nat}
    (leaf : slots heap item = []) (reached : Reaches heap item inner) :
    inner = item := by
  induction reached with
  | refl => rfl
  | tail before held same =>
      rw [same, Holds, leaf] at held
      cases held

theorem acyclic_leaf {heap : Heap} {item : Nat}
    (leaf : slots heap item = []) :
    Acyclic heap item := by
  intro inner reached child held
  rw [eq_of_reaches_leaf leaf reached, leaf] at held
  cases held

/-- The keys of a call and of the calls before it. -/
def History.keysSoFar (history : History) (operation : Operation) :
    List Nat :=
  operation.key.toList ++ history.calls.map MapCall.key

/-- All keys are items without slots, and the call does not change them. -/
def History.AllowsLeaves (history : History) (operation : Operation) :
    Prop :=
  operation.Builds ∧ history.state.Admits operation ∧
    ∀ key ∈ history.keysSoFar operation,
      slots history.state.heap key = [] ∧
        contentAt (history.state.next operation).heap key =
          contentAt history.state.heap key

theorem allows_of_leaves {history : History} {operation : Operation}
    (leaves : history.AllowsLeaves operation) :
    history.Allows operation := by
  obtain ⟨builds, admits, keys⟩ := leaves
  refine ⟨builds, admits, ?_, ?_⟩
  · intro key passed
    apply acyclic_leaf
    refine (keys key (List.mem_append_left _ ?_)).1
    exact Option.mem_toList.mpr passed
  · intro key serves inner reached
    have member : key ∈ history.keysSoFar operation := by
      rcases serves with passed | earlier
      · exact List.mem_append_left _ (Option.mem_toList.mpr passed)
      · exact List.mem_append_right _ earlier
    rw [eq_of_reaches_leaf (keys key member).1 reached]
    exact (keys key member).2

instance (operation : Operation) : Decidable operation.Builds :=
  match operation with
  | .create _ _ => inferInstanceAs (Decidable True)
  | .ref _ => inferInstanceAs (Decidable False)
  | .unref _ => inferInstanceAs (Decidable False)
  | .arrayAdd _ _ _ => inferInstanceAs (Decidable True)
  | .mapSet _ _ _ _ => inferInstanceAs (Decidable True)

instance (history : History) (operation : Operation) :
    Decidable (history.AllowsLeaves operation) :=
  inferInstanceAs (Decidable (_ ∧ _ ∧ _))

/-- Two values are set in a map for equal keys. -/
def overwriting : List Operation :=
  [.create .ample (.map 1), .create .ample (.boolean true),
    .create .ample (.boolean true), .create .ample .any,
    .mapSet .ample (some 0) (some 1) (some 3),
    .mapSet .ample (some 0) (some 2) (some 1)]

end NeoC.Protocol.StackItem
