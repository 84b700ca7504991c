import NeoC.Runtime.MemoryTracker
import Mathlib.Algebra.BigOperators.Group.Multiset.Basic
import Mathlib.Data.Multiset.AddSub
import Mathlib.Tactic.Abel

/-!
# The books of the memory tracker

The counters, the table and the host's blocks are kept in step by many
separate writes, and other threads act between any two of them.  What a
thread has already written down but not yet delivered, and the block it has
in its hands, are its share; the callers' blocks are shares as well.  The
books say how the shared state follows from the sum of all shares.
-/

namespace NeoC.MemoryTracker

open Foundation

/-! ## Shares -/

/--
What is counted for a thread, the blocks in its hands with and without an
entry in the table, and the table itself while it holds the lock.
-/
@[ext]
structure Share where
  count : Nat
  gross : Nat
  bytes : Nat
  recorded : Multiset Block
  unrecorded : Multiset Block
  seen : Multiset (List Block)

namespace Share

instance : Zero Share :=
  ⟨⟨0, 0, 0, 0, 0, 0⟩⟩

instance : Add Share :=
  ⟨fun first second =>
    { count := first.count + second.count
      gross := first.gross + second.gross
      bytes := first.bytes + second.bytes
      recorded := first.recorded + second.recorded
      unrecorded := first.unrecorded + second.unrecorded
      seen := first.seen + second.seen }⟩

section Fields

variable (first second : Share)

@[simp] theorem zero_count : (0 : Share).count = 0 := rfl

@[simp] theorem zero_gross : (0 : Share).gross = 0 := rfl

@[simp] theorem zero_bytes : (0 : Share).bytes = 0 := rfl

@[simp] theorem zero_recorded : (0 : Share).recorded = 0 := rfl

@[simp] theorem zero_unrecorded : (0 : Share).unrecorded = 0 := rfl

@[simp] theorem zero_seen : (0 : Share).seen = 0 := rfl

@[simp]
theorem add_count : (first + second).count = first.count + second.count :=
  rfl

@[simp]
theorem add_gross : (first + second).gross = first.gross + second.gross :=
  rfl

@[simp]
theorem add_bytes : (first + second).bytes = first.bytes + second.bytes :=
  rfl

@[simp]
theorem add_recorded :
    (first + second).recorded = first.recorded + second.recorded :=
  rfl

@[simp]
theorem add_unrecorded :
    (first + second).unrecorded = first.unrecorded + second.unrecorded :=
  rfl

@[simp]
theorem add_seen : (first + second).seen = first.seen + second.seen :=
  rfl

end Fields

instance : AddCommMonoid Share where
  add_assoc first second third := by
    ext1 <;> simp [add_assoc]
  zero_add share := by
    ext1 <;> simp
  add_zero share := by
    ext1 <;> simp
  add_comm first second := by
    ext1 <;> simp [add_comm]
  nsmul := nsmulRec

/-- One allocation that is counted. -/
def counted : Share :=
  { (0 : Share) with count := 1 }

/-- Bytes in the total of all allocations. -/
def grossed (size : UInt64) : Share :=
  { (0 : Share) with gross := size.toNat }

/-- Bytes in the current usage. -/
def used (size : UInt64) : Share :=
  { (0 : Share) with bytes := size.toNat }

/-- A block with or without an entry. -/
def entry (block : Block) (recorded : Bool) : Share :=
  if recorded then { (0 : Share) with recorded := {block} }
  else { (0 : Share) with unrecorded := {block} }

/-- The lock, with the table as it is. -/
def viewing (entries : List Block) : Share :=
  { (0 : Share) with seen := {entries} }

@[simp]
theorem counted_fields :
    counted.count = 1 ∧ counted.gross = 0 ∧ counted.bytes = 0 ∧
      counted.recorded = 0 ∧ counted.unrecorded = 0 ∧ counted.seen = 0 :=
  ⟨rfl, rfl, rfl, rfl, rfl, rfl⟩

@[simp]
theorem grossed_fields (size : UInt64) :
    (grossed size).count = 0 ∧ (grossed size).gross = size.toNat ∧
      (grossed size).bytes = 0 ∧ (grossed size).recorded = 0 ∧
      (grossed size).unrecorded = 0 ∧ (grossed size).seen = 0 :=
  ⟨rfl, rfl, rfl, rfl, rfl, rfl⟩

@[simp]
theorem used_fields (size : UInt64) :
    (used size).count = 0 ∧ (used size).gross = 0 ∧
      (used size).bytes = size.toNat ∧ (used size).recorded = 0 ∧
      (used size).unrecorded = 0 ∧ (used size).seen = 0 :=
  ⟨rfl, rfl, rfl, rfl, rfl, rfl⟩

@[simp]
theorem entry_fields (block : Block) (recorded : Bool) :
    (entry block recorded).count = 0 ∧ (entry block recorded).gross = 0 ∧
      (entry block recorded).bytes = 0 ∧
      (entry block recorded).seen = 0 := by
  cases recorded <;> exact ⟨rfl, rfl, rfl, rfl⟩

@[simp]
theorem entry_blocks (block : Block) :
    (entry block true).recorded = {block} ∧
      (entry block true).unrecorded = 0 ∧
      (entry block false).recorded = 0 ∧
      (entry block false).unrecorded = {block} :=
  ⟨rfl, rfl, rfl, rfl⟩

@[simp]
theorem viewing_fields (entries : List Block) :
    (viewing entries).count = 0 ∧ (viewing entries).gross = 0 ∧
      (viewing entries).bytes = 0 ∧ (viewing entries).recorded = 0 ∧
      (viewing entries).unrecorded = 0 ∧
      (viewing entries).seen = {entries} :=
  ⟨rfl, rfl, rfl, rfl, rfl, rfl⟩

/-- A block that is fully accounted for. -/
def block (owned : Block × Bool) : Share :=
  counted + grossed owned.1.size + used owned.1.size +
    entry owned.1 owned.2

end Share

/-! ## Books -/

/-- The bytes of the blocks that escaped. -/
def Tracker.lost (tracker : Tracker) : Nat :=
  (tracker.escaped.map fun escape => escape.size.toNat).sum

/-- The number of blocks that escaped by being moved. -/
def Tracker.moved (tracker : Tracker) : Nat :=
  tracker.escaped.countP Escape.isResized

/-- The shared state follows from the sum of all shares. -/
structure Ledger (granted : Prop) (tracker : Tracker) (total : Share) :
    Prop where
  heap : (tracker.heap : Multiset Block) = total.recorded + total.unrecorded
  table : (tracker.allocHead : Multiset Block) = total.recorded
  apart : (tracker.heap.map Block.ptr).Nodup
  lock :
    total.seen = if tracker.allocLock then {tracker.allocHead} else 0
  count :
    tracker.stats.allocationCount =
      tracker.stats.freeCount + UInt64.ofNat (tracker.moved + total.count)
  bytes :
    tracker.stats.currentUsage = UInt64.ofNat (tracker.lost + total.bytes)
  gross :
    tracker.stats.totalAllocated =
      tracker.stats.totalFreed + UInt64.ofNat (tracker.lost + total.gross)
  escaped : granted → tracker.escaped = []

/-- A block that callers hold has a size, and an entry where all have one. -/
def Sound (granted : Prop) (owned : Block × Bool) : Prop :=
  owned.1.size ≠ 0 ∧ (granted → owned.2 = true)

/-- The callers hold blocks, and everything else is owned by threads. -/
def Books (granted : Prop) (tracker : Tracker) (own : Share) : Prop :=
  ∃ callers : Multiset (Block × Bool),
    (tracker.held : Multiset Nat) = callers.map (fun owned => owned.1.ptr) ∧
      (∀ owned ∈ callers, Sound granted owned) ∧
        Ledger granted tracker (own + (callers.map Share.block).sum)

/-- The host grants every entry of the table, if that is assumed. -/
def Answers (granted : Prop) (answer : HostAnswer) : Prop :=
  granted → answer.entry = true

/-! ## Steps -/

section Steps

variable {granted : Prop}

/-- A step keeps the books if the ledger follows the shares. -/
theorem meets_act {α : Type} {own : Share}
    {perform : HostAnswer → Tracker → Option Tracker}
    {reply : HostAnswer → Tracker → α} {ends : α → Share → Prop}
    (keeps :
      ∀ answer tracker tracker' rest,
        Answers granted answer → Ledger granted tracker (own + rest) →
          perform answer tracker = some tracker' →
            tracker'.held = tracker.held ∧
              ∃ own',
                Ledger granted tracker' (own' + rest) ∧
                  ends (reply answer tracker) own') :
    Meets (Answers granted) (Books granted) ends
      (Task.act perform reply) own := by
  apply Meets.act
  intro answer tracker tracker' frame may books performed
  rcases books with ⟨callers, held, sound, ledger⟩
  rw [add_assoc] at ledger
  rcases keeps answer tracker tracker' _ may ledger performed with
    ⟨same, own', ledger', reached⟩
  rw [← add_assoc] at ledger'
  refine ⟨own', ⟨callers, ?_, sound, ledger'⟩, reached⟩
  rw [same]
  exact held

/-- A change of the statistics and of the share that belongs to it. -/
theorem meets_update {change : MemoryStats → MemoryStats}
    {own own' : Share}
    (blocks :
      own'.recorded = own.recorded ∧ own'.unrecorded = own.unrecorded ∧
        own'.seen = own.seen)
    (count :
      ∀ stats : MemoryStats, ∀ others : Nat,
        stats.allocationCount =
            stats.freeCount + UInt64.ofNat (others + own.count) →
          (change stats).allocationCount =
            (change stats).freeCount + UInt64.ofNat (others + own'.count))
    (bytes :
      ∀ stats : MemoryStats, ∀ others : Nat,
        stats.currentUsage = UInt64.ofNat (others + own.bytes) →
          (change stats).currentUsage = UInt64.ofNat (others + own'.bytes))
    (gross :
      ∀ stats : MemoryStats, ∀ others : Nat,
        stats.totalAllocated =
            stats.totalFreed + UInt64.ofNat (others + own.gross) →
          (change stats).totalAllocated =
            (change stats).totalFreed +
              UInt64.ofNat (others + own'.gross)) :
    Meets (Answers granted) (Books granted) (fun _ share => share = own')
      (update change) own := by
  apply meets_act
  intro answer tracker tracker' rest may ledger performed
  injection performed with same
  subst same
  rcases blocks with ⟨recorded, unrecorded, seen⟩
  refine ⟨rfl, own', ⟨?_, ?_, ledger.apart, ?_, ?_, ?_, ?_,
    ledger.escaped⟩, rfl⟩
  · rw [Share.add_recorded, Share.add_unrecorded, recorded, unrecorded]
    exact ledger.heap
  · rw [Share.add_recorded, recorded]
    exact ledger.table
  · rw [Share.add_seen, seen]
    exact ledger.lock
  · have before := ledger.count
    rw [Share.add_count, Nat.add_comm own.count, ← Nat.add_assoc] at before
    rw [Share.add_count, Nat.add_comm own'.count, ← Nat.add_assoc]
    exact count tracker.stats _ before
  · have before := ledger.bytes
    rw [Share.add_bytes, Nat.add_comm own.bytes, ← Nat.add_assoc] at before
    rw [Share.add_bytes, Nat.add_comm own'.bytes, ← Nat.add_assoc]
    exact bytes tracker.stats _ before
  · have before := ledger.gross
    rw [Share.add_gross, Nat.add_comm own.gross, ← Nat.add_assoc] at before
    rw [Share.add_gross, Nat.add_comm own'.gross, ← Nat.add_assoc]
    exact gross tracker.stats _ before

/-- A counter and the number it stands for are raised together. -/
theorem raised {counter base : UInt64} {others pending : Nat}
    (size : UInt64)
    (before : counter = base + UInt64.ofNat (others + pending)) :
    counter + size =
      base + UInt64.ofNat (others + (pending + size.toNat)) := by
  rw [before, ← Nat.add_assoc, UInt64.ofNat_add (others + pending),
    UInt64.ofNat_toNat, UInt64.add_assoc]

/-- What is counted off is counted for others from then on. -/
theorem counted_off {counter base : UInt64} {others pending : Nat}
    (size : UInt64)
    (before :
      counter = base + UInt64.ofNat (others + (pending + size.toNat))) :
    counter = base + size + UInt64.ofNat (others + pending) := by
  rw [before, ← Nat.add_assoc, UInt64.ofNat_add (others + pending),
    UInt64.ofNat_toNat, UInt64.add_comm (UInt64.ofNat _), UInt64.add_assoc]

/-- A counter and the number it stands for are lowered together. -/
theorem lowered {counter : UInt64} {others pending : Nat} (size : UInt64)
    (before : counter = UInt64.ofNat (others + (pending + size.toNat))) :
    counter - size = UInt64.ofNat (others + pending) := by
  rw [before, ← Nat.add_assoc, UInt64.ofNat_add (others + pending),
    UInt64.ofNat_toNat, UInt64.add_sub_cancel]

theorem meets_allocationCount (own : Share) :
    Meets (Answers granted) (Books granted)
      (fun _ share => share = own + Share.counted)
      (update fun stats =>
        { stats with allocationCount := stats.allocationCount + 1 })
      own := by
  refine meets_update ⟨?_, ?_, ?_⟩ ?_ ?_ ?_
  · simp
  · simp
  · simp
  · intro stats others before
    exact raised 1 before
  · intro stats others before
    exact before
  · intro stats others before
    exact before

theorem meets_freeCount (own : Share) :
    Meets (Answers granted) (Books granted) (fun _ share => share = own)
      (update fun stats => { stats with freeCount := stats.freeCount + 1 })
      (own + Share.counted) := by
  refine meets_update ⟨?_, ?_, ?_⟩ ?_ ?_ ?_
  · simp
  · simp
  · simp
  · intro stats others before
    exact counted_off 1 before
  · intro stats others before
    exact before
  · intro stats others before
    exact before

theorem meets_totalAllocated (own : Share) (size : UInt64) :
    Meets (Answers granted) (Books granted)
      (fun _ share => share = own + Share.grossed size)
      (update fun stats =>
        { stats with totalAllocated := stats.totalAllocated + size })
      own := by
  refine meets_update ⟨?_, ?_, ?_⟩ ?_ ?_ ?_
  · simp
  · simp
  · simp
  · intro stats others before
    exact before
  · intro stats others before
    exact before
  · intro stats others before
    exact raised size before

theorem meets_totalFreed (own : Share) (size : UInt64) :
    Meets (Answers granted) (Books granted) (fun _ share => share = own)
      (update fun stats =>
        { stats with totalFreed := stats.totalFreed + size })
      (own + Share.grossed size) := by
  refine meets_update ⟨?_, ?_, ?_⟩ ?_ ?_ ?_
  · simp
  · simp
  · simp
  · intro stats others before
    exact before
  · intro stats others before
    exact before
  · intro stats others before
    exact counted_off size before

theorem meets_usageRaised (own : Share) (size : UInt64) :
    Meets (Answers granted) (Books granted)
      (fun _ share => share = own + Share.used size)
      (update fun stats =>
        { stats with currentUsage := stats.currentUsage + size })
      own := by
  refine meets_update ⟨?_, ?_, ?_⟩ ?_ ?_ ?_
  · simp
  · simp
  · simp
  · intro stats others before
    exact before
  · intro stats others before
    have above := raised size (before.trans (UInt64.zero_add _).symm)
    exact above.trans (UInt64.zero_add _)
  · intro stats others before
    exact before

theorem meets_usageLowered (own : Share) (size : UInt64) :
    Meets (Answers granted) (Books granted) (fun _ share => share = own)
      (update fun stats =>
        { stats with currentUsage := stats.currentUsage - size })
      (own + Share.used size) := by
  refine meets_update ⟨?_, ?_, ?_⟩ ?_ ?_ ?_
  · simp
  · simp
  · simp
  · intro stats others before
    exact before
  · intro stats others before
    exact lowered size before
  · intro stats others before
    exact before

/-- The peak is not part of the books. -/
theorem meets_peakUsage (own : Share) (peak : UInt64) :
    Meets (Answers granted) (Books granted) (fun _ share => share = own)
      (update fun stats => { stats with peakUsage := peak }) own :=
  meets_update ⟨rfl, rfl, rfl⟩
    (fun _ _ before => before) (fun _ _ before => before)
    (fun _ _ before => before)

/-- A step that looks at something and changes nothing. -/
theorem meets_look {α : Type} (own : Share)
    (reply : HostAnswer → Tracker → α) :
    Meets (Answers granted) (Books granted) (fun _ share => share = own)
      (Task.act (fun _ tracker => some tracker) reply) own := by
  apply meets_act
  intro answer tracker tracker' rest may ledger performed
  injection performed with same
  subst same
  exact ⟨rfl, own, ledger, rfl⟩

theorem meets_allocEntry (own : Share) :
    Meets (Answers granted) (Books granted)
      (fun entry share => share = own ∧ (granted → entry = true))
      allocEntry own := by
  apply meets_act
  intro answer tracker tracker' rest may ledger performed
  injection performed with same
  subst same
  exact ⟨rfl, own, ledger, rfl, may⟩

/-! ## The table behind the lock -/

/-- A step that leaves the statistics and the host's blocks alone. -/
theorem Ledger.relink {tracker tracker' : Tracker} {total total' : Share}
    (ledger : Ledger granted tracker total)
    (stats : tracker'.stats = tracker.stats)
    (escaped : tracker'.escaped = tracker.escaped)
    (heap : tracker'.heap = tracker.heap)
    (numbers :
      total'.count = total.count ∧ total'.gross = total.gross ∧
        total'.bytes = total.bytes)
    (blocks :
      total'.recorded + total'.unrecorded =
        total.recorded + total.unrecorded)
    (table : (tracker'.allocHead : Multiset Block) = total'.recorded)
    (lock :
      total'.seen =
        if tracker'.allocLock then {tracker'.allocHead} else 0) :
    Ledger granted tracker' total' := by
  rcases numbers with ⟨count, gross, bytes⟩
  refine ⟨?_, table, ?_, lock, ?_, ?_, ?_, ?_⟩
  · rw [heap, blocks]
    exact ledger.heap
  · rw [heap]
    exact ledger.apart
  · rw [stats, Tracker.moved, escaped, count]
    exact ledger.count
  · rw [stats, Tracker.lost, escaped, bytes]
    exact ledger.bytes
  · rw [stats, Tracker.lost, escaped, gross]
    exact ledger.gross
  · rw [escaped]
    exact ledger.escaped

/-- Who holds the lock sees the table as it is, and nobody else does. -/
theorem Ledger.seen {tracker : Tracker} {own rest : Share}
    {entries : List Block}
    (ledger :
      Ledger granted tracker (own + Share.viewing entries + rest)) :
    tracker.allocLock = true ∧ tracker.allocHead = entries ∧
      own.seen = 0 ∧ rest.seen = 0 := by
  have lock := ledger.lock
  rw [Share.add_seen, Share.add_seen, Share.viewing] at lock
  cases locked : tracker.allocLock with
  | false =>
      rw [locked, if_neg Bool.false_ne_true] at lock
      have sizes := congrArg Multiset.card lock
      rw [Multiset.card_add, Multiset.card_add, Multiset.card_singleton,
        Multiset.card_zero] at sizes
      omega
  | true =>
      rw [locked, if_pos rfl] at lock
      dsimp only at lock
      have sizes := congrArg Multiset.card lock
      rw [Multiset.card_add, Multiset.card_add, Multiset.card_singleton,
        Multiset.card_singleton] at sizes
      have first : own.seen = 0 := Multiset.card_eq_zero.mp (by omega)
      have others : rest.seen = 0 := Multiset.card_eq_zero.mp (by omega)
      rw [first, others, zero_add, add_zero] at lock
      exact ⟨rfl, (Multiset.singleton_inj.mp lock).symm, first, others⟩

theorem meets_allocLockAcquire (own : Share) :
    Meets (Answers granted) (Books granted)
      (fun _ share => ∃ entries, share = own + Share.viewing entries)
      allocLockAcquire own := by
  apply meets_act
  intro answer tracker tracker' rest may ledger performed
  split at performed
  · cases performed
  · rename_i free
    injection performed with same
    subst same
    have lock := ledger.lock
    rw [if_neg free, Share.add_seen] at lock
    refine
      ⟨rfl, own + Share.viewing tracker.allocHead,
        ledger.relink rfl rfl rfl ?_ ?_ ?_ ?_, _, rfl⟩
    · simp
    · simp
    · simpa using ledger.table
    · rw [Share.add_seen, Share.add_seen, add_right_comm, lock]
      exact zero_add _

theorem meets_allocLockRelease (own : Share) (entries : List Block) :
    Meets (Answers granted) (Books granted) (fun _ share => share = own)
      allocLockRelease (own + Share.viewing entries) := by
  apply meets_act
  intro answer tracker tracker' rest may ledger performed
  injection performed with same
  subst same
  rcases ledger.seen with ⟨locked, here, first, others⟩
  refine ⟨rfl, own, ledger.relink rfl rfl rfl ?_ ?_ ?_ ?_, rfl⟩
  · simp
  · simp
  · simpa using ledger.table
  · simp [first, others]

/-- No other block is at the address of one that a thread has. -/
theorem Ledger.eq_of_ptr {tracker : Tracker} {total : Share}
    (ledger : Ledger granted tracker total) {first second : Block}
    (inside : first ∈ tracker.heap) (inside' : second ∈ tracker.heap)
    (same : first.ptr = second.ptr) :
    first = second :=
  List.inj_on_of_nodup_map ledger.apart inside inside' same

theorem Ledger.mem_heap {tracker : Tracker} {own rest : Share}
    {block : Block} {recorded : Bool}
    (ledger :
      Ledger granted tracker (own + Share.entry block recorded + rest)) :
    block ∈ tracker.heap := by
  rw [← Multiset.mem_coe, ledger.heap]
  cases recorded with
  | false => simp
  | true => simp

/-- What the table says of a block that a thread has in its hands. -/
structure Shows (entries : List Block) (block : Block) (recorded : Bool) :
    Prop where
  here : recorded = true → block ∈ entries
  only : ∀ entry ∈ entries, entry.ptr = block.ptr →
    recorded = true ∧ entry = block

theorem Ledger.shows {tracker : Tracker} {own rest : Share}
    {block : Block} {recorded : Bool}
    (ledger :
      Ledger granted tracker (own + Share.entry block recorded + rest)) :
    Shows tracker.allocHead block recorded := by
  have inside := ledger.mem_heap
  have heap := ledger.heap
  have table := ledger.table
  refine ⟨?_, ?_⟩
  · intro recorded
    rw [← Multiset.mem_coe, table]
    simp [recorded]
  · intro entry member address
    rw [← Multiset.mem_coe, table] at member
    have within : entry ∈ tracker.heap := by
      rw [← Multiset.mem_coe, heap]
      exact Multiset.mem_add.mpr (.inl member)
    have same := ledger.eq_of_ptr within inside address
    refine ⟨?_, same⟩
    cases recorded with
    | true => rfl
    | false =>
        -- the block would be in the heap twice
        rw [same] at member
        have twice : 2 ≤ (tracker.heap : Multiset Block).count block := by
          rw [heap, Multiset.count_add]
          have first := Multiset.one_le_count_iff_mem.mpr member
          have second :
              block ∈ (own + Share.entry block false + rest).unrecorded := by
            simp
          have second := Multiset.one_le_count_iff_mem.mpr second
          omega
        have once :=
          List.nodup_iff_count_le_one.mp (ledger.apart.of_map _) block
        rw [Multiset.coe_count] at twice
        omega

theorem meets_readHead (own : Share) (entries : List Block) :
    Meets (Answers granted) (Books granted)
      (fun head share =>
        head = entries ∧ share = own + Share.viewing entries)
      readHead (own + Share.viewing entries) := by
  apply meets_act
  intro answer tracker tracker' rest may ledger performed
  injection performed with same
  subst same
  exact ⟨rfl, _, ledger, ledger.seen.2.1, rfl⟩

theorem meets_readHead_shows (own : Share) (entries : List Block)
    (block : Block) (recorded : Bool) :
    Meets (Answers granted) (Books granted)
      (fun head share =>
        head = entries ∧ Shows entries block recorded ∧
          share = own + Share.entry block recorded + Share.viewing entries)
      readHead
      (own + Share.entry block recorded + Share.viewing entries) := by
  apply meets_act
  intro answer tracker tracker' rest may ledger performed
  injection performed with same
  subst same
  have head := ledger.seen.2.1
  refine ⟨rfl, _, ledger, head, ?_, rfl⟩
  rw [add_assoc] at ledger
  rw [← head]
  exact ledger.shows

/-- The table changes by the entry of a block that the thread has. -/
theorem meets_writeHead (own : Share) {entries entries' : List Block}
    {block : Block} {before after : Bool}
    (changes :
      (entries' : Multiset Block) +
          (Share.entry block before).recorded =
        entries + (Share.entry block after).recorded) :
    Meets (Answers granted) (Books granted)
      (fun _ share =>
        share = own + Share.entry block after + Share.viewing entries')
      (writeHead entries')
      (own + Share.entry block before + Share.viewing entries) := by
  apply meets_act
  intro answer tracker tracker' rest may ledger performed
  injection performed with same
  subst same
  rcases ledger.seen with ⟨locked, head, first, others⟩
  have table := ledger.table
  refine ⟨rfl, _, ledger.relink rfl rfl rfl ?_ ?_ ?_ ?_, rfl⟩
  · cases before <;> cases after <;>
      simp
  · cases before <;> cases after <;>
      simp <;> abel
  · rw [head] at table
    dsimp only
    rw [table] at changes
    have cancelled :
        (entries' : Multiset Block) + (Share.entry block before).recorded =
          own.recorded + (Share.entry block after).recorded +
              rest.recorded +
            (Share.entry block before).recorded := by
      rw [changes]
      simp only [Share.add_recorded, Share.viewing_fields, add_zero]
      abel
    have same := add_right_cancel cancelled
    rw [same]
    simp
  · rw [Share.add_seen, (Share.entry_fields block before).2.2.2, add_zero]
      at first
    simp [first, others, locked]

/-! ## The host -/

/-- A new block of the host is one without an entry. -/
theorem Ledger.place {tracker tracker' : Tracker} {total : Share}
    (ledger : Ledger granted tracker total) {ptr : Nat} {size : UInt64}
    (placed : tracker.place ptr size = some tracker') :
    tracker'.held = tracker.held ∧
      Ledger granted tracker' (Share.entry ⟨ptr, size⟩ false + total) := by
  rw [Tracker.place] at placed
  split at placed
  · cases placed
  · rename_i fresh
    injection placed with same
    subst same
    refine ⟨rfl, ⟨?_, ?_, ?_, ?_, ?_, ?_, ?_, ledger.escaped⟩⟩
    · rw [← Multiset.cons_coe, ledger.heap]
      simp
    · simpa using ledger.table
    · exact List.nodup_cons.mpr ⟨fresh, ledger.apart⟩
    · simpa using ledger.lock
    · rw [Share.add_count, (Share.entry_fields _ _).1, Nat.zero_add]
      exact ledger.count
    · rw [Share.add_bytes, (Share.entry_fields _ _).2.2.1, Nat.zero_add]
      exact ledger.bytes
    · rw [Share.add_gross, (Share.entry_fields _ _).2.1, Nat.zero_add]
      exact ledger.gross

/-- What stays in the statistics for a block that escaped. -/
def Escape.share : Escape → Share
  | freed size => Share.grossed size + Share.used size
  | resized size => Share.counted + Share.grossed size + Share.used size

theorem Escape.share_fields (escape : Escape) :
    escape.share.count = (if escape.isResized then 1 else 0) ∧
      escape.share.gross = escape.size.toNat ∧
      escape.share.bytes = escape.size.toNat ∧
      escape.share.recorded = 0 ∧ escape.share.unrecorded = 0 ∧
      escape.share.seen = 0 := by
  cases escape <;> simp [share, size, isResized]

theorem Ledger.find? {tracker : Tracker} {total : Share} {block : Block}
    (ledger : Ledger granted tracker total) (inside : block ∈ tracker.heap) :
    (tracker.heap.find? fun other => other.ptr == block.ptr) =
      some block := by
  obtain ⟨other, chosen⟩ :
      ∃ other,
        (tracker.heap.find? fun other => other.ptr == block.ptr) =
          some other :=
    Option.isSome_iff_exists.mp
      (List.find?_isSome.mpr ⟨block, inside, beq_self_eq_true _⟩)
  have address : other.ptr = block.ptr := by
    simpa using List.find?_some chosen
  have same :=
    ledger.eq_of_ptr (List.mem_of_find?_eq_some chosen) inside address
  rw [chosen, same]

/-- The host takes a block with an entry; nothing is left of it. -/
theorem Ledger.take_recorded {tracker : Tracker} {rest : Share}
    {block : Block} (escape : UInt64 → Escape)
    (ledger : Ledger granted tracker (Share.entry block false + rest)) :
    Ledger granted (tracker.take block.ptr true escape) rest ∧
      (tracker.take block.ptr true escape).held = tracker.held := by
  have inside : block ∈ tracker.heap := by
    rw [← zero_add (Share.entry block false)] at ledger
    exact ledger.mem_heap
  have heap := ledger.heap
  rw [Tracker.take, ledger.find? inside]
  refine ⟨⟨?_, ?_, ?_, ?_, ?_, ?_, ?_, ledger.escaped⟩, rfl⟩
  · rw [← Multiset.coe_erase, heap]
    simp
  · simpa using ledger.table
  · exact ledger.apart.sublist (List.erase_sublist.map _)
  · simpa using ledger.lock
  · have count := ledger.count
    rw [Share.add_count, (Share.entry_fields _ _).1, Nat.zero_add] at count
    exact count
  · have bytes := ledger.bytes
    rw [Share.add_bytes, (Share.entry_fields _ _).2.2.1, Nat.zero_add]
      at bytes
    exact bytes
  · have gross := ledger.gross
    rw [Share.add_gross, (Share.entry_fields _ _).2.1, Nat.zero_add] at gross
    exact gross

/--
The host takes a block that has no entry.  What the statistics say of it is
nobody's any more.
-/
theorem Ledger.take_unrecorded {tracker : Tracker} {rest : Share}
    {block : Block} {escape : UInt64 → Escape}
    (ledger :
      Ledger granted tracker
        (Share.entry block false + (escape block.size).share + rest))
    (refused : ¬ granted) :
    Ledger granted (tracker.take block.ptr false escape) rest ∧
      (tracker.take block.ptr false escape).held = tracker.held := by
  have inside : block ∈ tracker.heap := by
    rw [add_assoc, ← zero_add (Share.entry block false)] at ledger
    exact ledger.mem_heap
  rcases (escape block.size).share_fields with
    ⟨counts, grosses, uses, records, others, sees⟩
  have heap := ledger.heap
  have table := ledger.table
  have lock := ledger.lock
  have count := ledger.count
  have bytes := ledger.bytes
  have gross := ledger.gross
  rw [Tracker.take, ledger.find? inside]
  simp only [Bool.false_eq_true, ↓reduceIte]
  refine ⟨⟨?_, ?_, ?_, ?_, ?_, ?_, ?_, fun sure => absurd sure refused⟩, trivial⟩
  · rw [← Multiset.coe_erase, heap]
    simp [records, others]
  · simpa [records] using table
  · exact ledger.apart.sublist (List.erase_sublist.map _)
  · simpa [sees] using lock
  · rw [Tracker.moved, List.countP_cons]
    rw [Share.add_count, Share.add_count, (Share.entry_fields _ _).1, counts,
      Nat.zero_add, ← Nat.add_assoc] at count
    exact count
  · rw [Tracker.lost, List.map_cons, List.sum_cons,
      Nat.add_comm (Escape.size _).toNat]
    rw [Share.add_bytes, Share.add_bytes, (Share.entry_fields _ _).2.2.1,
      uses, Nat.zero_add, ← Nat.add_assoc] at bytes
    exact bytes
  · rw [Tracker.lost, List.map_cons, List.sum_cons,
      Nat.add_comm (Escape.size _).toNat]
    rw [Share.add_gross, Share.add_gross, (Share.entry_fields _ _).2.1,
      grosses, Nat.zero_add, ← Nat.add_assoc] at gross
    exact gross

theorem meets_hostMalloc (own : Share) (size : UInt64) :
    Meets (Answers granted) (Books granted)
      (fun reply share =>
        match reply with
        | none => share = own
        | some ptr => share = own + Share.entry ⟨ptr, size⟩ false)
      (hostMalloc size) own := by
  apply meets_act
  intro answer tracker tracker' rest may ledger performed
  cases given : answer.block with
  | none =>
      rw [given] at performed
      injection performed with same
      subst same
      exact ⟨rfl, own, ledger, rfl⟩
  | some ptr =>
      rw [given] at performed
      rcases ledger.place performed with ⟨held, placed⟩
      refine ⟨held, own + Share.entry ⟨ptr, size⟩ false, ?_, rfl⟩
      rw [add_comm own, add_assoc]
      exact placed

/-- A block for an array has the size of the array. -/
theorem meets_hostCalloc (own : Share) (count size : UInt64) :
    Meets (Answers granted) (Books granted)
      (fun reply share =>
        match reply with
        | none => share = own
        | some ptr =>
            count.toNat * size.toNat < UInt64.size ∧
              share = own + Share.entry ⟨ptr, count * size⟩ false)
      (hostCalloc count size) own := by
  apply meets_act
  intro answer tracker tracker' rest may ledger performed
  cases given : answer.block with
  | none =>
      rw [given] at performed
      injection performed with same
      subst same
      exact ⟨rfl, own, ledger, rfl⟩
  | some ptr =>
      rw [given] at performed
      dsimp only at performed
      split at performed
      · rename_i fits
        rcases ledger.place performed with ⟨held, placed⟩
        refine
          ⟨held, own + Share.entry ⟨ptr, count * size⟩ false, ?_, fits, rfl⟩
        rw [add_comm own, add_assoc]
        exact placed
      · cases performed

/-- What becomes of a block that is freed or moved. -/
theorem Ledger.take {tracker : Tracker} {own rest : Share} {block : Block}
    {recorded : Bool} {escape : UInt64 → Escape}
    (ledger :
      Ledger granted tracker
        (own + Share.entry block false +
            (if recorded then 0 else (escape block.size).share) +
          rest))
    (always : granted → recorded = true) :
    Ledger granted (tracker.take block.ptr recorded escape) (own + rest) ∧
      (tracker.take block.ptr recorded escape).held = tracker.held := by
  rw [add_comm own, add_assoc, add_right_comm, ← add_assoc] at ledger
  cases recorded with
  | true =>
      rw [if_pos rfl, add_zero, add_right_comm, add_assoc] at ledger
      exact ledger.take_recorded escape
  | false =>
      rw [if_neg Bool.false_ne_true, add_assoc, add_comm _ own] at ledger
      exact ledger.take_unrecorded fun sure => by cases always sure

theorem meets_hostFree (own : Share) (block : Block) (recorded : Bool)
    (always : granted → recorded = true) :
    Meets (Answers granted) (Books granted) (fun _ share => share = own)
      (hostFree block.ptr recorded)
      (own + Share.entry block false +
        if recorded then 0 else (Escape.freed block.size).share) := by
  apply meets_act
  intro answer tracker tracker' rest may ledger performed
  injection performed with same
  subst same
  rcases ledger.take always with ⟨taken, held⟩
  exact ⟨held, own, taken, rfl⟩

theorem meets_hostRealloc (own : Share) (block : Block) (size : UInt64)
    (recorded : Bool) (always : granted → recorded = true) :
    Meets (Answers granted) (Books granted)
      (fun reply share =>
        match reply with
        | none =>
            share =
              own + Share.entry block false +
                if recorded then 0 else (Escape.resized block.size).share
        | some ptr => share = own + Share.entry ⟨ptr, size⟩ false)
      (hostRealloc block.ptr size recorded)
      (own + Share.entry block false +
        if recorded then 0 else (Escape.resized block.size).share) := by
  apply meets_act
  intro answer tracker tracker' rest may ledger performed
  cases given : answer.block with
  | none =>
      rw [given] at performed
      injection performed with same
      subst same
      exact ⟨rfl, _, ledger, rfl⟩
  | some ptr =>
      rw [given] at performed
      rcases ledger.take always with ⟨taken, held⟩
      rcases taken.place performed with ⟨held', placed⟩
      refine
        ⟨held'.trans held, own + Share.entry ⟨ptr, size⟩ false, ?_, rfl⟩
      rw [add_comm own, add_assoc]
      exact placed

/-! ## Entries -/

theorem unlink_eq_some {ptr : Nat} {entries rest : List Block}
    {size : UInt64} (found : unlink ptr entries = some (size, rest)) :
    (⟨ptr, size⟩ :: rest : List Block).Perm entries := by
  induction entries generalizing rest with
  | nil => cases found
  | cons entry others induction =>
      rw [unlink] at found
      split at found
      · rename_i here
        injection found with same
        injection same with same left
        subst same left here
        exact .refl _
      · obtain ⟨⟨size', rest'⟩, later, same⟩ :=
          Option.map_eq_some_iff.mp found
        injection same with same left
        subst same left
        exact
          (List.Perm.swap entry _ rest').trans
            ((induction later).cons entry)

theorem unlink_eq_none {ptr : Nat} {entries : List Block}
    (missing : unlink ptr entries = none) :
    ∀ entry ∈ entries, entry.ptr ≠ ptr := by
  induction entries with
  | nil => simp
  | cons entry others induction =>
      rw [unlink] at missing
      split at missing
      · cases missing
      · rename_i different
        rw [List.forall_mem_cons]
        exact ⟨different, induction (Option.map_eq_none_iff.mp missing)⟩

/-- A new block has an entry if the host had room for one. -/
theorem meets_trackAllocation (own : Share) (block : Block) :
    Meets (Answers granted) (Books granted)
      (fun _ share =>
        ∃ recorded,
          (granted → recorded = true) ∧
            share = own + Share.entry block recorded)
      (trackAllocation (some block.ptr) block.size)
      (own + Share.entry block false) := by
  refine Meets.bind (meets_allocEntry _) ?_
  rintro entry _ ⟨rfl, sure⟩
  cases entry with
  | false => exact Meets.done ⟨false, sure, rfl⟩
  | true =>
      refine Meets.bind (meets_allocLockAcquire _) ?_
      rintro _ _ ⟨entries, rfl⟩
      refine Meets.bind (meets_readHead _ entries) ?_
      rintro head _ ⟨rfl, rfl⟩
      have changes :
          ((block :: head : List Block) : Multiset Block) +
              (Share.entry block false).recorded =
            head + (Share.entry block true).recorded := by
        change block ::ₘ (head : Multiset Block) + 0 = head + {block}
        rw [add_zero, add_comm, Multiset.singleton_add]
      refine Meets.bind (meets_writeHead own changes) ?_
      rintro _ _ rfl
      refine (meets_allocLockRelease _ _).weaken ?_
      rintro _ _ rfl
      exact ⟨true, fun _ => rfl, rfl⟩

/-- The entry is found exactly where there is one, whoever else is at work. -/
theorem meets_untrackAllocation (own : Share) (block : Block)
    (recorded : Bool) :
    Meets (Answers granted) (Books granted)
      (fun found share =>
        found = (if recorded then some block.size else none) ∧
          share = own + Share.entry block false)
      (untrackAllocation (some block.ptr))
      (own + Share.entry block recorded) := by
  refine Meets.bind (meets_allocLockAcquire _) ?_
  rintro _ _ ⟨entries, rfl⟩
  refine Meets.bind (meets_readHead_shows own entries block recorded) ?_
  rintro head _ ⟨rfl, shows, rfl⟩
  cases found : unlink block.ptr head with
  | none =>
      have missing := unlink_eq_none found
      have unrecorded : recorded = false := by
        cases recorded with
        | false => rfl
        | true => exact absurd rfl (missing block (shows.here rfl))
      subst unrecorded
      dsimp only
      refine Meets.bind (meets_allocLockRelease _ _) ?_
      rintro _ _ rfl
      exact Meets.done ⟨rfl, rfl⟩
  | some outcome =>
      rcases outcome with ⟨size, rest⟩
      have split := unlink_eq_some found
      rcases shows.only _ (split.subset List.mem_cons_self) rfl with
        ⟨rfl, same⟩
      have sizes : size = block.size := congrArg Block.size same
      rw [same] at split
      have changes :
          (rest : Multiset Block) + (Share.entry block true).recorded =
            head + (Share.entry block false).recorded := by
        change (rest : Multiset Block) + {block} = head + 0
        rw [add_zero, add_comm, Multiset.singleton_add]
        exact Multiset.coe_eq_coe.mpr split
      dsimp only
      refine Meets.bind (meets_writeHead own changes) ?_
      rintro _ _ rfl
      refine Meets.bind (meets_allocLockRelease _ _) ?_
      rintro _ _ rfl
      refine Meets.done ⟨?_, rfl⟩
      rw [if_pos rfl, sizes]

end Steps

end NeoC.MemoryTracker
