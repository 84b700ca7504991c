import NeoC.Foundation.CountedHeap
import Mathlib.Algebra.BigOperators.Group.Finset.Piecewise

/-!
# Balanced books of a counted heap

The count of every object is the number of clients that hold it, of slots
that hold it, and of references that are pending.  The rules below move one
reference between these three accounts; taking and dropping references are
described through the pending ones alone.

Dropping a reference to an object ends, because every object that is released
on the way is another one, and it spares every set of objects that is held
without the reference that is dropped.
-/

namespace NeoC.Foundation.CountedHeap

variable {α ε : Type}

/-! ## Accounts -/

/-- The number of slots of some holders that hold an object. -/
def references (owned : Nat → List Nat) (holders : Finset Nat)
    (address : Nat) : Nat :=
  ∑ holder ∈ holders, (owned holder).count address

/-- One more client of an object. -/
def addClient (clients : Nat → Nat) (target : Nat) : Nat → Nat :=
  fun address => clients address + [target].count address

/-- One more slot of a holder. -/
def addSlot (owned : Nat → List Nat) (holder target : Nat) :
    Nat → List Nat :=
  fun address => if address = holder then target :: owned address
    else owned address

theorem count_cons_split (target : Nat) (rest : List Nat) (address : Nat) :
    (target :: rest).count address =
      [target].count address + rest.count address := by
  rw [← List.count_append]
  rfl

theorem addClient_self (clients : Nat → Nat) (target : Nat) :
    addClient clients target target = clients target + 1 := by
  rw [addClient, List.count_singleton_self]

theorem addClient_of_ne (clients : Nat → Nat) {target address : Nat}
    (different : address ≠ target) :
    addClient clients target address = clients address := by
  rw [addClient, List.count_eq_zero_of_not_mem, Nat.add_zero]
  simpa using different

theorem references_addSlot (owned : Nat → List Nat) {holders : Finset Nat}
    {holder : Nat} (member : holder ∈ holders) (target address : Nat) :
    references (addSlot owned holder target) holders address =
      references owned holders address + [target].count address := by
  have each (other : Nat) :
      (addSlot owned holder target other).count address =
        (owned other).count address +
          if other = holder then [target].count address else 0 := by
    rw [addSlot]
    split
    · rw [count_cons_split, Nat.add_comm]
    · rfl
  rw [references, references, Finset.sum_congr rfl fun other _ => each other,
    Finset.sum_add_distrib, Finset.sum_ite_eq', if_pos member]

theorem references_insert (owned : Nat → List Nat) {live released : Finset Nat}
    {holder : Nat} (member : holder ∈ live \ released) (address : Nat) :
    references owned (live \ released) address =
      references owned (live \ insert holder released) address +
        (owned holder).count address := by
  rw [references, references, Finset.sdiff_insert,
    Finset.sum_erase_add _ _ member]

theorem references_pos {owned : Nat → List Nat} {holders : Finset Nat}
    {holder address : Nat} (member : holder ∈ holders)
    (held : address ∈ owned holder) :
    0 < references owned holders address := by
  have one := List.count_pos_iff.mpr held
  have part :=
    Finset.single_le_sum
      (fun other _ => Nat.zero_le ((owned other).count address)) member
  exact Nat.lt_of_lt_of_le one part

theorem references_congr {owned owned' : Nat → List Nat}
    {holders : Finset Nat}
    (same : ∀ holder ∈ holders, (owned holder).Perm (owned' holder))
    (address : Nat) :
    references owned holders address = references owned' holders address :=
  Finset.sum_congr rfl fun holder member =>
    (same holder member).count_eq address

/-- The books of a heap are balanced. -/
structure Balanced (modulus : Nat) (clients : Nat → Nat)
    (owned : Nat → List Nat) (pending : List Nat) (released : Finset Nat)
    (heap : CountedHeap α) : Prop where
  counts : ∀ address object, heap.cell address = some object →
    object.count =
      clients address +
          references owned (heap.live \ released) address +
        pending.count address
  bounded : ∀ address object, heap.cell address = some object →
    object.count < modulus
  spent : ∀ address ∈ released,
    ∃ content, heap.cell address = some ⟨0, content⟩
  slots_live : ∀ holder ∈ heap.live \ released,
    ∀ address ∈ owned holder, address ∈ heap.live
  pending_live : ∀ address ∈ pending, address ∈ heap.live
  clients_live : ∀ address, 0 < clients address → address ∈ heap.live

section Rules

variable {modulus : Nat} {clients : Nat → Nat} {owned : Nat → List Nat}
  {pending : List Nat} {released : Finset Nat} {heap : CountedHeap α}
  {address : Nat}

/-- A client's reference is a pending one, and back. -/
theorem balanced_addClient_iff :
    Balanced modulus (addClient clients address) owned pending released
        heap ↔
      Balanced modulus clients owned (address :: pending) released heap := by
  have sums (other : Nat) :
      addClient clients address other +
            references owned (heap.live \ released) other +
          pending.count other =
        clients other +
            references owned (heap.live \ released) other +
          (address :: pending).count other := by
    rw [addClient, count_cons_split address pending]
    omega
  constructor
  · intro balanced
    refine
      ⟨fun other object there => ?_, balanced.bounded, balanced.spent,
        balanced.slots_live, ?_, ?_⟩
    · rw [balanced.counts other object there, sums]
    · rw [List.forall_mem_cons]
      refine ⟨balanced.clients_live address ?_, balanced.pending_live⟩
      rw [addClient_self]
      exact Nat.succ_pos _
    · intro other positive
      apply balanced.clients_live
      rw [addClient]
      omega
  · intro balanced
    rcases List.forall_mem_cons.mp balanced.pending_live with ⟨first, others⟩
    refine
      ⟨fun other object there => ?_, balanced.bounded, balanced.spent,
        balanced.slots_live, others, ?_⟩
    · rw [balanced.counts other object there, sums]
    · intro other positive
      by_cases same : other = address
      · rw [same]
        exact first
      · rw [addClient_of_ne clients same] at positive
        exact balanced.clients_live other positive

/-- A reference in a slot is a pending one, and back. -/
theorem balanced_addSlot_iff {holder : Nat}
    (member : holder ∈ heap.live \ released) :
    Balanced modulus clients (addSlot owned holder address) pending released
        heap ↔
      Balanced modulus clients owned (address :: pending) released heap := by
  have sums (other : Nat) :
      clients other +
            references (addSlot owned holder address)
              (heap.live \ released) other +
          pending.count other =
        clients other +
            references owned (heap.live \ released) other +
          (address :: pending).count other := by
    rw [references_addSlot owned member, count_cons_split address pending]
    omega
  constructor
  · intro balanced
    refine
      ⟨fun other object there => ?_, balanced.bounded, balanced.spent, ?_, ?_,
        balanced.clients_live⟩
    · rw [balanced.counts other object there, sums]
    · intro other inside target held
      apply balanced.slots_live other inside target
      rw [addSlot]
      split
      · exact List.mem_cons_of_mem _ held
      · exact held
    · rw [List.forall_mem_cons]
      refine ⟨?_, balanced.pending_live⟩
      apply balanced.slots_live holder member address
      rw [addSlot, if_pos rfl]
      exact List.mem_cons_self
  · intro balanced
    rcases List.forall_mem_cons.mp balanced.pending_live with ⟨first, others⟩
    refine
      ⟨fun other object there => ?_, balanced.bounded, balanced.spent, ?_,
        others, balanced.clients_live⟩
    · rw [balanced.counts other object there, sums]
    · intro other inside target held
      rw [addSlot] at held
      split at held
      · rcases List.mem_cons.mp held with rfl | before
        · exact first
        · exact balanced.slots_live other inside target before
      · exact balanced.slots_live other inside target held

/-- The order of slots does not matter. -/
theorem Balanced.congr {owned' : Nat → List Nat}
    (balanced : Balanced modulus clients owned pending released heap)
    (same :
      ∀ holder ∈ heap.live \ released,
        (owned holder).Perm (owned' holder)) :
    Balanced modulus clients owned' pending released heap := by
  refine
    ⟨fun other object there => ?_, balanced.bounded, balanced.spent, ?_,
      balanced.pending_live, balanced.clients_live⟩
  · rw [balanced.counts other object there, references_congr same]
  · intro holder inside target held
    exact
      balanced.slots_live holder inside target
        ((same holder inside).mem_iff.mpr held)

/-- A heap with the same addresses and counts has the same books. -/
theorem Balanced.transfer {after : CountedHeap α}
    (balanced : Balanced modulus clients owned pending released heap)
    (live : after.live = heap.live)
    (kept :
      ∀ other object, after.cell other = some object →
        ∃ before,
          heap.cell other = some before ∧ object.count = before.count) :
    Balanced modulus clients owned pending released after := by
  refine ⟨?_, ?_, ?_, ?_, ?_, ?_⟩
  · intro other object there
    rcases kept other object there with ⟨before, was, same⟩
    rw [same, live, balanced.counts other before was]
  · intro other object there
    rcases kept other object there with ⟨before, was, same⟩
    rw [same]
    exact balanced.bounded other before was
  · intro other member
    rcases balanced.spent other member with ⟨content, was⟩
    have inside : other ∈ after.live := by
      rw [live]
      exact mem_live.mpr ⟨_, was⟩
    rcases mem_live.mp inside with ⟨object, there⟩
    rcases kept other object there with ⟨before, found, same⟩
    rw [was] at found
    injection found with equal
    rw [← equal] at same
    refine ⟨object.content, ?_⟩
    rw [there]
    exact congrArg some (congrArg (Counted.mk · object.content) same)
  · rw [live]
    exact balanced.slots_live
  · rw [live]
    exact balanced.pending_live
  · rw [live]
    exact balanced.clients_live

theorem Balanced.setContent
    (balanced : Balanced modulus clients owned pending released heap)
    (target : Nat) (content : α) :
    Balanced modulus clients owned pending released
      (heap.setContent target content) := by
  apply balanced.transfer (live_modify _ _ _)
  intro other object there
  rcases of_cell_modify there with
    ⟨rfl, before, found, rfl⟩ | ⟨-, found⟩
  · exact ⟨before, found, rfl⟩
  · exact ⟨object, found, rfl⟩

/-- A count may be set to what the books say of it. -/
theorem Balanced.setCount {object : Counted α} {pending' : List Nat}
    (balanced : Balanced modulus clients owned pending released heap)
    (there : heap.cell address = some object)
    {count : Nat}
    (agrees :
      count + pending.count address =
        object.count + pending'.count address)
    (others :
      ∀ other, other ≠ address →
        pending'.count other = pending.count other)
    (small : count < modulus)
    (outside : address ∉ released)
    (inside : ∀ other ∈ pending', other ∈ heap.live) :
    Balanced modulus clients owned pending' released
      (heap.setCount address count) := by
  have books := balanced.counts address object there
  refine ⟨?_, ?_, ?_, ?_, ?_, ?_⟩
  · intro other changed found
    rw [CountedHeap.setCount, live_modify]
    rcases of_cell_modify found with
      ⟨rfl, before, was, rfl⟩ | ⟨different, was⟩
    · dsimp only
      omega
    · rw [others other different]
      exact balanced.counts other changed was
  · intro other changed found
    rcases of_cell_modify found with
      ⟨rfl, before, was, rfl⟩ | ⟨different, was⟩
    · exact small
    · exact balanced.bounded other changed was
  · intro other member
    have different : other ≠ address := by
      rintro rfl
      exact outside member
    rcases balanced.spent other member with ⟨content, was⟩
    refine ⟨content, ?_⟩
    rw [CountedHeap.setCount, cell_modify_of_ne heap _ different, was]
  · rw [CountedHeap.setCount, live_modify]
    exact balanced.slots_live
  · rw [CountedHeap.setCount, live_modify]
    exact inside
  · rw [CountedHeap.setCount, live_modify]
    exact balanced.clients_live

/-- A new reference is pending until somebody keeps it. -/
theorem Balanced.take {missing : ε}
    (balanced : Balanced modulus clients owned pending ∅ heap)
    {object : Counted α} (there : heap.cell address = some object)
    (room : object.count + 1 < modulus) :
    CountedHeap.take modulus missing address heap =
        (.ok (), heap.setCount address (object.count + 1)) ∧
      Balanced modulus clients owned (address :: pending) ∅
        (heap.setCount address (object.count + 1)) := by
  constructor
  · have loaded : load missing address heap = (.ok object, heap) := by
      rw [load, there]
    rw [CountedHeap.take, Call.bind_of_ok loaded, Call.update_run,
      Nat.mod_eq_of_lt room]
  · refine
      balanced.setCount there ?_ ?_ room (Finset.notMem_empty _) ?_
    · rw [List.count_cons_self]
      omega
    · intro other different
      exact List.count_cons_of_ne different.symm
    · rw [List.forall_mem_cons]
      exact ⟨mem_live.mpr ⟨object, there⟩, balanced.pending_live⟩

/-- A new object has one reference, which is pending. -/
theorem Balanced.push
    (balanced : Balanced modulus clients owned pending ∅ heap)
    (content : α) (large : 1 < modulus) :
    Balanced modulus clients
      (fun holder => if holder = heap.next then [] else owned holder)
      (heap.next :: pending) ∅ (heap.push content) := by
  have absent := heap.next_not_mem_live
  have sums (other : Nat) :
      references
          (fun holder => if holder = heap.next then [] else owned holder)
          ((heap.push content).live \ ∅) other =
        references owned (heap.live \ ∅) other := by
    rw [Finset.sdiff_empty, Finset.sdiff_empty, live_push, references,
      Finset.sum_insert absent, if_pos rfl, List.count_nil, Nat.zero_add]
    refine Finset.sum_congr rfl fun holder member => ?_
    rw [if_neg]
    rintro rfl
    exact absent member
  have clientless : clients heap.next = 0 := by
    by_contra held
    exact absent (balanced.clients_live _ (Nat.pos_of_ne_zero held))
  have unreferenced : references owned (heap.live \ ∅) heap.next = 0 := by
    apply Finset.sum_eq_zero
    intro holder member
    apply List.count_eq_zero_of_not_mem
    intro held
    exact absent (balanced.slots_live holder member _ held)
  have idle : pending.count heap.next = 0 := by
    apply List.count_eq_zero_of_not_mem
    intro held
    exact absent (balanced.pending_live _ held)
  refine ⟨?_, ?_, ?_, ?_, ?_, ?_⟩
  · intro other object there
    rw [sums]
    rw [cell_push] at there
    split at there
    · rename_i same
      injection there with equal
      rw [← equal, same, clientless, unreferenced, List.count_cons_self,
        idle]
    · rename_i different
      rw [List.count_cons_of_ne (Ne.symm different)]
      exact balanced.counts other object there
  · intro other object there
    rw [cell_push] at there
    split at there
    · injection there with equal
      rw [← equal]
      exact large
    · exact balanced.bounded other object there
  · intro other member
    exact absurd member (Finset.notMem_empty other)
  · intro holder member target held
    rw [live_push]
    split at held
    · cases held
    · rename_i different
      rw [Finset.sdiff_empty, live_push, Finset.mem_insert] at member
      rcases member with same | before
      · exact absurd same different
      · apply Finset.mem_insert_of_mem
        apply balanced.slots_live holder _ target held
        rw [Finset.sdiff_empty]
        exact before
  · rw [live_push, List.forall_mem_cons]
    refine ⟨Finset.mem_insert_self _ _, ?_⟩
    intro other member
    exact Finset.mem_insert_of_mem (balanced.pending_live other member)
  · intro other positive
    rw [live_push]
    exact Finset.mem_insert_of_mem (balanced.clients_live other positive)

end Rules

/-! ## Dropping references -/

section Drop

variable {children : α → List Nat} {modulus : Nat} {missing endless : ε}
  {clients : Nat → Nat} {owned : Nat → List Nat}

/-- Every member of the set is held by a client or by another member. -/
def Supported (clients : Nat → Nat) (owned : Nat → List Nat)
    (members : Set Nat) : Prop :=
  ∀ address ∈ members,
    0 < clients address ∨ ∃ holder ∈ members, address ∈ owned holder

/-- The members are in the heap, and what the others own is in their slots. -/
structure Stands (children : α → List Nat) (owned : Nat → List Nat)
    (members : Set Nat) (released : Finset Nat) (heap : CountedHeap α) :
    Prop where
  inside : ∀ address ∈ members, address ∈ heap.live \ released
  owns : ∀ address object, heap.cell address = some object →
    address ∉ members → owned address = children object.content

/-- What is left of a heap after some objects were dropped. -/
structure Remains (heap after : CountedHeap α) : Prop where
  next : after.next = heap.next
  kept : ∀ address object, after.cell address = some object →
    ∃ count, heap.cell address = some ⟨count, object.content⟩

theorem Remains.refl (heap : CountedHeap α) : Remains heap heap :=
  ⟨rfl, fun _ object there => ⟨object.count, there⟩⟩

theorem Remains.trans {heap middle after : CountedHeap α}
    (first : Remains heap middle) (second : Remains middle after) :
    Remains heap after := by
  refine ⟨second.next.trans first.next, ?_⟩
  intro address object there
  rcases second.kept address object there with ⟨count, between⟩
  exact first.kept address ⟨count, object.content⟩ between

theorem Remains.live_subset {heap after : CountedHeap α}
    (remains : Remains heap after) :
    after.live ⊆ heap.live := by
  intro address member
  rcases mem_live.mp member with ⟨object, there⟩
  rcases remains.kept address object there with ⟨count, before⟩
  exact mem_live.mpr ⟨_, before⟩

theorem remains_setCount (heap : CountedHeap α) (target count : Nat) :
    Remains heap (heap.setCount target count) := by
  refine ⟨rfl, ?_⟩
  intro address object there
  rcases of_cell_modify there with
    ⟨rfl, before, found, rfl⟩ | ⟨-, found⟩
  · exact ⟨before.count, found⟩
  · exact ⟨object.count, found⟩

theorem remains_free (heap : CountedHeap α) (target : Nat) :
    Remains heap (heap.free target) := by
  refine ⟨rfl, ?_⟩
  intro address object there
  rw [free] at there
  dsimp only at there
  split at there
  · cases there
  · exact ⟨object.count, there⟩

/-- The members still stand where none of them was dropped. -/
theorem Stands.of_remains {members : Set Nat} {released : Finset Nat}
    {heap after : CountedHeap α}
    (stands : Stands children owned members released heap)
    (remains : Remains heap after)
    (inside : ∀ address ∈ members, address ∈ after.live \ released) :
    Stands children owned members released after := by
  refine ⟨inside, ?_⟩
  intro address object there outside
  rcases remains.kept address object there with ⟨count, before⟩
  exact stands.owns address ⟨count, object.content⟩ before outside

/-- A member of a supported set has a reference besides the pending ones. -/
theorem held_of_supported {members : Set Nat} {released : Finset Nat}
    {heap : CountedHeap α}
    (supported : Supported clients owned members)
    (stands : Stands children owned members released heap)
    {address : Nat} (member : address ∈ members) :
    0 < clients address + references owned (heap.live \ released) address := by
  rcases supported address member with client | ⟨holder, inside, held⟩
  · omega
  · have positive := references_pos (stands.inside holder inside) held
    omega

/-- What a drop does to balanced books. -/
structure Dropped (modulus : Nat) (clients : Nat → Nat)
    (owned : Nat → List Nat) (pending : List Nat) (released : Finset Nat)
    (members : Set Nat) (heap after : CountedHeap α) : Prop where
  balanced : Balanced modulus clients owned pending released after
  remains : Remains heap after
  survive : ∀ address ∈ members, address ∈ after.live \ released

/-- A series of drops, each of which keeps the books. -/
theorem forEach_dropped {call : Nat → Call ε (CountedHeap α) Unit}
    {members : Set Nat} {released : Finset Nat} {fuel : Nat}
    (each :
      ∀ address pending heap,
        Balanced modulus clients owned (address :: pending) released heap →
          Stands children owned members released heap →
            (heap.live \ released).card < fuel →
              ∃ after,
                call address heap = (.ok (), after) ∧
                  Dropped modulus clients owned pending released members heap
                    after)
    {pending : List Nat} (addresses : List Nat) {heap : CountedHeap α}
    (balanced :
      Balanced modulus clients owned (addresses ++ pending) released heap)
    (stands : Stands children owned members released heap)
    (enough : (heap.live \ released).card < fuel) :
    ∃ after,
      Call.forEach call addresses heap = (.ok (), after) ∧
        Dropped modulus clients owned pending released members heap
          after := by
  induction addresses generalizing heap with
  | nil =>
      exact ⟨heap, rfl, balanced, Remains.refl heap, stands.inside⟩
  | cons address rest induction =>
      rcases each address (rest ++ pending) heap balanced stands enough with
        ⟨middle, ran, dropped⟩
      have fewer :
          (middle.live \ released).card ≤ (heap.live \ released).card :=
        Finset.card_le_card
          (Finset.sdiff_subset_sdiff dropped.remains.live_subset
            (Finset.Subset.refl released))
      rcases induction dropped.balanced
          (stands.of_remains dropped.remains dropped.survive)
          (Nat.lt_of_le_of_lt fewer enough) with
        ⟨after, later, rest⟩
      refine
        ⟨after, Call.bind_eq_ok_iff.mpr ⟨(), middle, ran, later⟩,
          rest.balanced, dropped.remains.trans rest.remains, rest.survive⟩

/-- The references of a released object are pending. -/
theorem Balanced.release {pending : List Nat} {released : Finset Nat}
    {heap : CountedHeap α} {address : Nat} {content : α}
    (balanced : Balanced modulus clients owned pending released heap)
    (there : heap.cell address = some ⟨0, content⟩)
    (outside : address ∉ released) :
    Balanced modulus clients owned (owned address ++ pending)
      (insert address released) heap := by
  have member : address ∈ heap.live \ released :=
    Finset.mem_sdiff.mpr ⟨mem_live.mpr ⟨_, there⟩, outside⟩
  have fewer :
      heap.live \ insert address released ⊆ heap.live \ released :=
    Finset.sdiff_subset_sdiff (Finset.Subset.refl _)
      (Finset.subset_insert _ _)
  refine ⟨?_, balanced.bounded, ?_, ?_, ?_, balanced.clients_live⟩
  · intro other object found
    rw [balanced.counts other object found,
      references_insert owned member other, List.count_append]
    omega
  · intro other inside
    rcases Finset.mem_insert.mp inside with rfl | before
    · exact ⟨content, there⟩
    · exact balanced.spent other before
  · intro holder inside
    exact balanced.slots_live holder (fewer inside)
  · rw [List.forall_mem_append]
    exact ⟨balanced.slots_live address member, balanced.pending_live⟩

/-- An object that nothing holds can be freed. -/
theorem Balanced.free {pending : List Nat} {released : Finset Nat}
    {heap : CountedHeap α} {address : Nat}
    (balanced :
      Balanced modulus clients owned pending (insert address released) heap)
    (outside : address ∉ released) :
    Balanced modulus clients owned pending released (heap.free address) := by
  rcases balanced.spent address (Finset.mem_insert_self _ _) with
    ⟨content, there⟩
  have nothing := balanced.counts address _ there
  have holders :
      (heap.free address).live \ released =
        heap.live \ insert address released := by
    rw [live_free, Finset.sdiff_insert, Finset.erase_sdiff_comm]
  have still {other : Nat} (member : other ∈ heap.live)
      (different : other ≠ address) :
      other ∈ (heap.free address).live := by
    rw [live_free]
    exact Finset.mem_erase.mpr ⟨different, member⟩
  refine ⟨?_, ?_, ?_, ?_, ?_, ?_⟩
  · intro other object found
    rw [holders]
    have different : other ≠ address := by
      rintro rfl
      rw [cell_free_self] at found
      cases found
    rw [cell_free_of_ne heap different] at found
    exact balanced.counts other object found
  · intro other object found
    have different : other ≠ address := by
      rintro rfl
      rw [cell_free_self] at found
      cases found
    rw [cell_free_of_ne heap different] at found
    exact balanced.bounded other object found
  · intro other member
    have different : other ≠ address := by
      rintro rfl
      exact outside member
    rw [cell_free_of_ne heap different]
    exact balanced.spent other (Finset.mem_insert_of_mem member)
  · intro holder member target held
    rw [holders] at member
    apply still (balanced.slots_live holder member target held)
    rintro rfl
    have positive := references_pos member held
    dsimp only at nothing
    omega
  · intro other member
    apply still (balanced.pending_live other member)
    rintro rfl
    have positive := List.count_pos_iff.mpr member
    dsimp only at nothing
    omega
  · intro other positive
    apply still (balanced.clients_live other positive)
    rintro rfl
    dsimp only at nothing
    omega

/--
A pending reference is dropped.  The fuel has to exceed the number of objects
that can still be released, and a supported set survives.
-/
theorem drop_dropped {members : Set Nat}
    (supported : Supported clients owned members)
    {fuel : Nat} {address : Nat} {pending : List Nat}
    {released : Finset Nat} {heap : CountedHeap α}
    (balanced :
      Balanced modulus clients owned (address :: pending) released heap)
    (stands : Stands children owned members released heap)
    (enough : (heap.live \ released).card < fuel) :
    ∃ after,
      drop children modulus missing endless fuel address heap =
          (.ok (), after) ∧
        Dropped modulus clients owned pending released members heap
          after := by
  induction fuel generalizing address pending released heap with
  | zero => omega
  | succ fuel induction =>
      rcases List.forall_mem_cons.mp balanced.pending_live with
        ⟨inside, others⟩
      rcases mem_live.mp inside with ⟨object, there⟩
      have books := balanced.counts address object there
      rw [List.count_cons_self] at books
      have bounded := balanced.bounded address object there
      have lowered :
          (object.count + modulus - 1) % modulus = object.count - 1 := by
        rw [Nat.sub_add_comm (by omega), Nat.add_mod_right]
        exact Nat.mod_eq_of_lt (by omega)
      have outside : address ∉ released := by
        intro member
        rcases balanced.spent address member with ⟨content, found⟩
        rw [there] at found
        injection found with same
        rw [same] at books
        dsimp only at books
        omega
      have counted :
          Balanced modulus clients owned pending released
            (heap.setCount address (object.count - 1)) := by
        refine balanced.setCount there ?_ ?_ (by omega) outside others
        · rw [List.count_cons_self]
          omega
        · intro other different
          exact (List.count_cons_of_ne different.symm).symm
      have loaded : load missing address heap = (.ok object, heap) := by
        rw [load, there]
      have live :
          (heap.setCount address (object.count - 1)).live = heap.live :=
        live_modify _ _ _
      have remains := remains_setCount heap address (object.count - 1)
      have standing :
          Stands children owned members released
            (heap.setCount address (object.count - 1)) := by
        apply stands.of_remains remains
        rw [live]
        exact stands.inside
      rw [drop, Call.bind_of_ok loaded, lowered,
        Call.bind_of_ok (Call.update_run _ _)]
      by_cases shared : object.count - 1 > 0
      · rw [if_pos shared]
        exact ⟨_, rfl, counted, remains, standing.inside⟩
      · rw [if_neg shared]
        -- Nothing holds the object any more, so it is no member.
        have gone :
            (heap.setCount address (object.count - 1)).cell address =
              some ⟨0, object.content⟩ := by
          rw [CountedHeap.setCount, cell_modify_self there]
          exact
            congrArg some
              (congrArg (Counted.mk · object.content) (by omega))
        have unheld : address ∉ members := by
          intro member
          have held := held_of_supported supported stands member
          omega
        have owns := standing.owns address _ gone unheld
        have released' := counted.release gone outside
        rw [owns] at released'
        have standing' :
            Stands children owned members (insert address released)
              (heap.setCount address (object.count - 1)) := by
          refine ⟨?_, standing.owns⟩
          intro other member
          rw [Finset.sdiff_insert]
          refine Finset.mem_erase.mpr ⟨?_, standing.inside other member⟩
          rintro rfl
          exact unheld member
        have fewer :
            ((heap.setCount address (object.count - 1)).live \
                insert address released).card < fuel := by
          have member := Finset.mem_sdiff.mpr ⟨inside, outside⟩
          have some := Finset.card_pos.mpr ⟨address, member⟩
          rw [live, Finset.sdiff_insert, Finset.card_erase_of_mem member]
          omega
        rcases forEach_dropped
            (fun other later heap' balanced' stands' enough' =>
              induction balanced' stands' enough')
            (children object.content) released' standing' fewer with
          ⟨middle, ran, dropped⟩
        rw [Call.bind_of_ok ran, Call.update_run]
        refine
          ⟨_, rfl, dropped.balanced.free outside,
            (remains.trans dropped.remains).trans
              (remains_free middle address), ?_⟩
        intro other member
        have survived := dropped.survive other member
        rw [live_free, Finset.erase_sdiff_comm, ← Finset.sdiff_insert]
        exact survived

end Drop

end NeoC.Foundation.CountedHeap
