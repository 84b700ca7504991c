import NeoC.Runtime.MemoryBooks
import Mathlib.Algebra.Order.PUnit

/-!
# What the memory statistics say

With the allocator of the system the wrappers keep the books over every
schedule of any number of threads.  When no thread is in a call the
statistics can therefore be read off the blocks in use, and in every state
the entries of the table are blocks in use.  With a custom allocator the
statistics stand still.
-/

namespace NeoC.MemoryTracker

open Foundation

section Wrappers

variable {granted : Prop}

/-- A call that may have been given a block. -/
def Obtained (granted : Prop) (reply : Option Nat) (share : Share) : Prop :=
  match reply with
  | none => share = 0
  | some ptr =>
      ∃ owned, owned.1.ptr = ptr ∧ Sound granted owned ∧
        share = Share.block owned

theorem obtained_nothing : Obtained granted none 0 :=
  rfl

/-- A block is counted, entered, and its bytes are added. -/
theorem meets_countAllocation (block : Block) (positive : block.size ≠ 0) :
    Meets (Answers granted) (Books granted)
      (fun _ share => Obtained granted (some block.ptr) share)
      (countAllocation .system (some block.ptr) block.size)
      (Share.entry block false) := by
  refine Meets.bind (meets_allocationCount _) ?_
  rintro _ _ rfl
  rw [add_comm]
  refine Meets.bind (meets_trackAllocation _ block) ?_
  rintro _ _ ⟨recorded, sure, rfl⟩
  refine Meets.bind (meets_totalAllocated _ block.size) ?_
  rintro _ _ rfl
  refine Meets.bind (meets_usageRaised _ block.size) ?_
  rintro _ _ rfl
  refine Meets.bind (meets_look _ _) ?_
  rintro current _ rfl
  refine Meets.bind (meets_look _ _) ?_
  rintro peak _ rfl
  have reached :
      Obtained granted (some block.ptr)
        (Share.counted + Share.entry block recorded +
            Share.grossed block.size +
          Share.used block.size) := by
    refine ⟨(block, recorded), rfl, ⟨positive, sure⟩, ?_⟩
    rw [Share.block]
    abel
  split
  · refine (meets_peakUsage _ current).weaken ?_
    rintro _ _ rfl
    exact reached
  · exact Meets.done reached

theorem meets_neocMalloc (size : UInt64) :
    Meets (Answers granted) (Books granted) (Obtained granted)
      (neocMalloc .system size) 0 := by
  rw [neocMalloc]
  split
  · exact Meets.done rfl
  · rename_i positive
    refine Meets.bind (meets_hostMalloc 0 size) ?_
    intro reply share given
    cases reply with
    | none => exact Meets.done given
    | some ptr =>
        dsimp only at given
        subst given
        rw [zero_add]
        refine
          Meets.bind (meets_countAllocation ⟨ptr, size⟩ positive) ?_
        intro _ share obtained
        exact Meets.done obtained

/-- A product of two sizes that fits a word is not zero. -/
theorem product_ne_zero {count size : UInt64} (several : count ≠ 0)
    (positive : size ≠ 0) (fits : count.toNat * size.toNat < UInt64.size) :
    count * size ≠ 0 := by
  intro zero
  have product := congrArg UInt64.toNat zero
  rw [UInt64.toNat_mul, Nat.mod_eq_of_lt fits, UInt64.toNat_zero,
    Nat.mul_eq_zero] at product
  rcases product with none | empty
  · exact several (UInt64.toNat_inj.mp none)
  · exact positive (UInt64.toNat_inj.mp empty)

theorem meets_neocCalloc (count size : UInt64) :
    Meets (Answers granted) (Books granted) (Obtained granted)
      (neocCalloc .system count size) 0 := by
  rw [neocCalloc]
  split
  · exact Meets.done rfl
  · rename_i positive
    rw [not_or] at positive
    refine Meets.bind (meets_hostCalloc 0 count size) ?_
    intro reply share given
    cases reply with
    | none => exact Meets.done given
    | some ptr =>
        rcases given with ⟨fits, rfl⟩
        rw [zero_add]
        refine
          Meets.bind
            (meets_countAllocation ⟨ptr, count * size⟩
              (product_ne_zero positive.1 positive.2 fits)) ?_
        intro _ share obtained
        exact Meets.done obtained

/-- What is counted for a block after its entry has been looked for. -/
def Share.tally (size : UInt64) : Share :=
  Share.counted + Share.grossed size + Share.used size

/-- A block that is freed leaves the books, or its bytes stay there. -/
theorem meets_neocFree (owned : Block × Bool) (sound : Sound granted owned) :
    Meets (Answers granted) (Books granted) (fun _ share => share = 0)
      (neocFree .system (some owned.1.ptr)) (Share.block owned) := by
  rcases owned with ⟨block, recorded⟩
  rcases sound with ⟨positive, sure⟩
  refine Meets.bind (meets_untrackAllocation _ block recorded) ?_
  rintro found _ ⟨rfl, rfl⟩
  cases recorded with
  | true =>
      have shares :
          Share.tally block.size + Share.entry block false =
            Share.tally block.size + Share.entry block false +
              if true then 0 else (Escape.freed block.size).share := by
        rw [if_pos rfl, add_zero]
      change
        Meets _ _ _ _ (Share.tally block.size + Share.entry block false)
      rw [shares]
      refine Meets.bind (meets_hostFree _ block true sure) ?_
      rintro _ _ rfl
      rw [Share.tally, add_assoc, add_comm]
      refine Meets.bind (meets_freeCount _) ?_
      rintro _ _ rfl
      rw [add_comm]
      refine Meets.bind (meets_totalFreed _ block.size) ?_
      rintro _ _ rfl
      rw [← zero_add (Share.used block.size)]
      exact meets_usageLowered 0 block.size
  | false =>
      have shares :
          Share.counted + Share.grossed block.size + Share.used block.size +
              Share.entry block false =
            Share.counted + Share.entry block false +
              if false then 0 else (Escape.freed block.size).share := by
        rw [if_neg Bool.false_ne_true, Escape.share]
        abel
      rw [shares]
      refine Meets.bind (meets_hostFree _ block false sure) ?_
      rintro _ _ rfl
      rw [← zero_add Share.counted]
      exact meets_freeCount 0

/-- The block that came back, in place of the old one. -/
theorem meets_countReallocation (block : Block) (positive : block.size ≠ 0)
    (old : Block) (positive' : old.size ≠ 0) (recorded : Bool) :
    Meets (Answers granted) (Books granted)
      (fun _ share => Obtained granted (some block.ptr) share)
      (countReallocation .system block.ptr block.size
        (if recorded then some old.size else none))
      ((if recorded then Share.tally old.size else 0) +
        Share.entry block false) := by
  refine Meets.bind (meets_allocationCount _) ?_
  rintro _ _ rfl
  rw [add_right_comm]
  refine Meets.bind (meets_trackAllocation _ block) ?_
  rintro _ _ ⟨entered, sure, rfl⟩
  refine Meets.bind (meets_totalAllocated _ block.size) ?_
  rintro _ _ rfl
  refine Meets.bind (meets_usageRaised _ block.size) ?_
  rintro _ _ rfl
  have reached :
      Obtained granted (some block.ptr) (Share.block (block, entered)) :=
    ⟨(block, entered), rfl, ⟨positive, sure⟩, rfl⟩
  cases recorded with
  | false =>
      have shares :
          (if false then Share.tally old.size else 0) + Share.counted +
                Share.entry block entered + Share.grossed block.size +
              Share.used block.size =
            Share.block (block, entered) := by
        rw [if_neg Bool.false_ne_true, zero_add, Share.block]
        abel
      rw [shares]
      exact Meets.done reached
  | true =>
      have shares :
          (if true then Share.tally old.size else 0) + Share.counted +
                Share.entry block entered + Share.grossed block.size +
              Share.used block.size =
            Share.block (block, entered) + Share.used old.size +
                Share.grossed old.size +
              Share.counted := by
        rw [if_pos rfl, Share.tally, Share.block]
        abel
      rw [shares]
      simp only [↓reduceIte]
      rw [if_pos (UInt64.pos_iff_ne_zero.mpr positive')]
      refine Meets.bind (meets_freeCount _) ?_
      rintro _ _ rfl
      refine Meets.bind (meets_totalFreed _ old.size) ?_
      rintro _ _ rfl
      refine (meets_usageLowered _ old.size).weaken ?_
      rintro _ _ rfl
      exact reached

/-- A block that cannot be resized keeps its place in the books. -/
theorem meets_restoreEntry (block : Block) (recorded : Bool)
    (sound : Sound granted (block, recorded)) :
    Meets (Answers granted) (Books granted)
      (fun _ share => Obtained granted (some block.ptr) share)
      (restoreEntry block.ptr
        (if recorded then some block.size else none))
      (Share.tally block.size + Share.entry block false) := by
  cases recorded with
  | false => exact Meets.done ⟨(block, false), rfl, sound, rfl⟩
  | true =>
      refine (meets_trackAllocation _ block).weaken ?_
      rintro _ _ ⟨entered, sure, rfl⟩
      exact ⟨(block, entered), rfl, ⟨sound.1, sure⟩, rfl⟩

/-- A resized block replaces the old one; a failure leaves it in place. -/
theorem meets_neocRealloc (owned : Block × Bool)
    (sound : Sound granted owned) {size : UInt64} (positive : size ≠ 0) :
    Meets (Answers granted) (Books granted)
      (fun reply share =>
        Obtained granted (some (reply.getD owned.1.ptr)) share)
      (neocRealloc .system (some owned.1.ptr) size)
      (Share.block owned) := by
  rcases owned with ⟨block, recorded⟩
  rw [neocRealloc, if_neg positive]
  refine Meets.bind (meets_untrackAllocation _ block recorded) ?_
  rintro found _ ⟨rfl, rfl⟩
  have shares :
      Share.counted + Share.grossed block.size + Share.used block.size +
          Share.entry block false =
        (if recorded then Share.tally block.size else 0) +
            Share.entry block false +
          if recorded then 0 else (Escape.resized block.size).share := by
    cases recorded with
    | true => rw [if_pos rfl, if_pos rfl, add_zero, Share.tally]
    | false =>
        rw [if_neg Bool.false_ne_true, if_neg Bool.false_ne_true,
          Escape.share]
        abel
  have known :
      (if recorded then some block.size else none).isSome = recorded := by
    cases recorded <;> rfl
  rw [shares, known]
  refine Meets.bind (meets_hostRealloc _ block size recorded sound.2) ?_
  intro reply share given
  cases reply with
  | none =>
      dsimp only at given
      rw [given, ← shares]
      refine Meets.bind (meets_restoreEntry block recorded sound) ?_
      intro _ share obtained
      exact Meets.done obtained
  | some moved =>
      dsimp only at given
      rw [given]
      refine
        Meets.bind
          (meets_countReallocation ⟨moved, size⟩ positive block sound.1
            recorded) ?_
      intro _ share obtained
      exact Meets.done obtained

/-- Resizing to nothing frees the block. -/
theorem meets_neocRealloc_zero (owned : Block × Bool)
    (sound : Sound granted owned) :
    Meets (Answers granted) (Books granted)
      (fun reply share => reply = none ∧ share = 0)
      (neocRealloc .system (some owned.1.ptr) 0) (Share.block owned) := by
  rw [neocRealloc, if_pos rfl]
  refine Meets.bind (meets_neocFree owned sound) ?_
  rintro _ _ rfl
  exact Meets.done ⟨rfl, rfl⟩

/-! ## Calls -/

/-- The blocks that go back to the caller make up the share. -/
theorem returns_of_gained {outcome : Outcome} {share : Share}
    (gained : Multiset (Block × Bool))
    (pointers :
      gained.map (fun owned => owned.1.ptr) =
        (outcome.returned.toList ++ outcome.retained.toList : List Nat))
    (sound : ∀ owned ∈ gained, Sound granted owned)
    (whole : share = (gained.map Share.block).sum) :
    Returns (Books granted) (service .system) outcome share := by
  intro tracker frame books
  rcases books with ⟨callers, held, sounds, ledger⟩
  refine ⟨gained + callers, ?_, ?_, ?_⟩
  · rw [Multiset.map_add, pointers, ← held]
    rfl
  · intro owned member
    rcases Multiset.mem_add.mp member with new | old
    · exact sound owned new
    · exact sounds owned old
  · rw [Multiset.map_add, Multiset.sum_add, ← whole, add_left_comm,
      ← add_assoc]
    exact
      ⟨ledger.heap, ledger.table, ledger.apart, ledger.lock, ledger.count,
        ledger.bytes, ledger.gross, ledger.escaped⟩

/-- A block that was obtained goes back as the pointer returned. -/
theorem Obtained.returns {reply : Option Nat} {share : Share}
    (obtained : Obtained granted reply share) :
    Returns (Books granted) (service .system) ⟨reply, none⟩ share := by
  cases reply with
  | none =>
      refine returns_of_gained 0 rfl (by simp) ?_
      rw [Multiset.map_zero, Multiset.sum_zero]
      exact obtained
  | some ptr =>
      rcases obtained with ⟨owned, rfl, sound, rfl⟩
      refine returns_of_gained {owned} (by simp) (by simpa using sound) ?_
      rw [Multiset.map_singleton, Multiset.sum_singleton]

/-- A block that was not resized goes back as the pointer passed in. -/
theorem Obtained.retains {ptr : Nat} {share : Share}
    (obtained : Obtained granted (some ptr) share) :
    Returns (Books granted) (service .system) ⟨none, some ptr⟩ share := by
  rcases obtained with ⟨owned, rfl, sound, rfl⟩
  refine returns_of_gained {owned} (by simp) (by simpa using sound) ?_
  rw [Multiset.map_singleton, Multiset.sum_singleton]

/-- A call that is given no pointer starts from nothing. -/
theorem meets_body_none {request : Request}
    (nothing : request.pointer = none) :
    Meets (Answers granted) (Books granted)
      (Returns (Books granted) (service .system))
      (request.body .system) 0 := by
  cases request with
  | malloc size =>
      refine Meets.bind (meets_neocMalloc size) ?_
      intro reply share obtained
      exact Meets.done obtained.returns
  | calloc count size =>
      refine Meets.bind (meets_neocCalloc count size) ?_
      intro reply share obtained
      exact Meets.done obtained.returns
  | realloc ptr size =>
      have null : ptr = none := nothing
      subst null
      refine Meets.bind (meets_neocMalloc size) ?_
      intro reply share obtained
      rw [ite_self]
      exact Meets.done obtained.returns
  | free ptr =>
      have null : ptr = none := nothing
      subst null
      exact Meets.done obtained_nothing.returns

/-- A call that is given a block starts from its share. -/
theorem meets_body_some {request : Request} {owned : Block × Bool}
    (sound : Sound granted owned)
    (given : request.pointer = some owned.1.ptr) :
    Meets (Answers granted) (Books granted)
      (Returns (Books granted) (service .system))
      (request.body .system) (Share.block owned) := by
  cases request with
  | malloc size => cases given
  | calloc count size => cases given
  | realloc ptr size =>
      have pointer : ptr = some owned.1.ptr := given
      subst pointer
      by_cases zero : size = 0
      · subst zero
        refine Meets.bind (meets_neocRealloc_zero owned sound) ?_
        rintro _ _ ⟨rfl, rfl⟩
        exact Meets.done obtained_nothing.returns
      · refine Meets.bind (meets_neocRealloc owned sound zero) ?_
        intro reply share obtained
        cases reply with
        | none =>
            have positive : (size != 0) = true := bne_iff_ne.mpr zero
            rw [positive]
            exact Meets.done obtained.retains
        | some moved => exact Meets.done obtained.returns
  | free ptr =>
      have pointer : ptr = some owned.1.ptr := given
      subst pointer
      refine Meets.bind (meets_neocFree owned sound) ?_
      rintro _ _ rfl
      exact Meets.done obtained_nothing.returns

/-- Whoever has the pointer to a block among the callers' has the block. -/
theorem exists_caller {callers : Multiset (Block × Bool)}
    {held : List Nat} {ptr : Nat}
    (pointers :
      (held : Multiset Nat) = callers.map (fun owned => owned.1.ptr))
    (member : ptr ∈ held) :
    ∃ owned others,
      callers = owned ::ₘ others ∧ owned.1.ptr = ptr ∧
        (held.erase ptr : Multiset Nat) =
          others.map (fun owned => owned.1.ptr) := by
  rw [← Multiset.mem_coe, pointers] at member
  obtain ⟨owned, inside, rfl⟩ := Multiset.mem_map.mp member
  obtain ⟨others, rfl⟩ := Multiset.exists_cons_of_mem inside
  refine ⟨owned, others, rfl, rfl, ?_⟩
  rw [← Multiset.coe_erase, pointers, Multiset.map_cons,
    Multiset.erase_cons_head]

/-- Every call of the wrappers keeps the books. -/
theorem serves_system (granted : Prop) :
    Serves (Answers granted) (Books granted) (service .system) := by
  intro request tracker tracker' frame books entered
  change request.enter tracker = some tracker' at entered
  rw [Request.enter] at entered
  cases given : request.pointer with
  | none =>
      rw [given] at entered
      injection entered with same
      subst same
      refine ⟨0, ?_, meets_body_none given⟩
      rw [zero_add]
      exact books
  | some ptr =>
      rw [given] at entered
      dsimp only at entered
      split at entered
      · rename_i member
        injection entered with same
        subst same
        rcases books with ⟨callers, held, sounds, ledger⟩
        rcases exists_caller held member with
          ⟨owned, others, rfl, rfl, remaining⟩
        refine
          ⟨Share.block owned, ⟨others, remaining, ?_, ?_⟩,
            meets_body_some (sounds owned (Multiset.mem_cons_self _ _))
              given⟩
        · intro other inside
          exact sounds other (Multiset.mem_cons_of_mem inside)
        · rw [Multiset.map_cons, Multiset.sum_cons, ← add_assoc,
            add_comm frame] at ledger
          exact
            ⟨ledger.heap, ledger.table, ledger.apart, ledger.lock,
              ledger.count, ledger.bytes, ledger.gross, ledger.escaped⟩
      · cases entered

theorem books_initial (granted : Prop) : Books granted .initial 0 := by
  refine ⟨0, rfl, by simp, ?_⟩
  rw [Multiset.map_zero, Multiset.sum_zero, add_zero]
  exact
    ⟨rfl, rfl, List.nodup_nil, rfl, rfl, rfl, rfl, fun _ => rfl⟩

end Wrappers

/-! ## What can be read off -/

/-- What the shares of some blocks add up to. -/
theorem sum_blocks (callers : Multiset (Block × Bool)) :
    (callers.map Share.block).sum.count = callers.card ∧
      (callers.map Share.block).sum.gross =
        (callers.map fun owned => owned.1.size.toNat).sum ∧
      (callers.map Share.block).sum.bytes =
        (callers.map fun owned => owned.1.size.toNat).sum ∧
      (callers.map Share.block).sum.recorded +
          (callers.map Share.block).sum.unrecorded =
        callers.map Prod.fst ∧
      (callers.map Share.block).sum.seen = 0 := by
  induction callers using Multiset.induction_on with
  | empty => exact ⟨rfl, rfl, rfl, rfl, rfl⟩
  | cons owned others induction =>
      rcases induction with ⟨count, gross, bytes, blocks, seen⟩
      rcases owned with ⟨block, recorded⟩
      simp only [Multiset.map_cons, Multiset.sum_cons, Multiset.card_cons,
        ← blocks]
      refine ⟨?_, ?_, ?_, ?_, ?_⟩
      · simp [Share.block, count, Nat.add_comm]
      · simp [Share.block, gross]
      · simp [Share.block, bytes]
      · cases recorded <;> simp [Share.block]
      · simp [Share.block, seen]

/-- Where every block has an entry the table has all of them. -/
theorem sum_blocks_recorded {callers : Multiset (Block × Bool)}
    (all : ∀ owned ∈ callers, owned.2 = true) :
    (callers.map Share.block).sum.unrecorded = 0 := by
  induction callers using Multiset.induction_on with
  | empty => rfl
  | cons owned others induction =>
      rcases owned with ⟨block, recorded⟩
      have entered : recorded = true :=
        all (block, recorded) (Multiset.mem_cons_self _ _)
      subst entered
      rw [Multiset.map_cons, Multiset.sum_cons, Share.add_unrecorded,
        induction fun owned inside =>
          all owned (Multiset.mem_cons_of_mem inside)]
      simp [Share.block]

/-- The bytes of some blocks. -/
def bytesOf (blocks : List Block) : Nat :=
  (blocks.map fun block => block.size.toNat).sum

variable {count : Nat} {schedule : Schedule}

/-- The state is divided at every moment of every schedule. -/
theorem books_run (granted : Prop)
    (may : ∀ step ∈ schedule, step.Allowed (Answers granted)) :
    Divided (Answers granted) (Books granted) (service .system)
      (run .system count schedule) :=
  divided_schedule (serves_system granted) (books_initial granted) count may

/-- The blocks in use are those of the callers, and the counters add up. -/
structure Accounts (tracker : Tracker) : Prop where
  held : tracker.held.Perm (tracker.heap.map Block.ptr)
  table : tracker.allocHead.Subperm tracker.heap
  free : tracker.allocLock = false
  count :
    tracker.stats.allocationCount =
      tracker.stats.freeCount +
        UInt64.ofNat (tracker.heap.length + tracker.moved)
  bytes :
    tracker.stats.currentUsage =
      UInt64.ofNat (bytesOf tracker.heap + tracker.lost)
  gross :
    tracker.stats.totalAllocated =
      tracker.stats.totalFreed + tracker.stats.currentUsage

theorem accounts_of_books {granted : Prop} {tracker : Tracker}
    (books : Books granted tracker 0) : Accounts tracker := by
  rcases books with ⟨callers, held, sounds, ledger⟩
  rw [zero_add] at ledger
  rcases sum_blocks callers with ⟨count, gross, bytes, blocks, seen⟩
  have heap := ledger.heap
  rw [blocks] at heap
  have length : tracker.heap.length = callers.card := by
    rw [← Multiset.coe_card, heap, Multiset.card_map]
  have sizes :
      bytesOf tracker.heap =
        (callers.map fun owned => owned.1.size.toNat).sum := by
    rw [bytesOf, ← Multiset.sum_coe, ← Multiset.map_coe, heap,
      Multiset.map_map]
    rfl
  refine ⟨?_, ?_, ?_, ?_, ?_, ?_⟩
  · rw [← Multiset.coe_eq_coe, held, ← Multiset.map_coe, heap,
      Multiset.map_map]
    rfl
  · rw [← Multiset.coe_le, ledger.table, ledger.heap]
    exact Multiset.le_add_right _ _
  · have lock := ledger.lock
    rw [seen] at lock
    cases locked : tracker.allocLock with
    | false => rfl
    | true =>
        rw [locked, if_pos rfl] at lock
        exact absurd lock.symm (Multiset.singleton_ne_zero _)
  · rw [ledger.count, count, length, Nat.add_comm]
  · rw [ledger.bytes, bytes, sizes, Nat.add_comm]
  · rw [ledger.gross, ledger.bytes, bytes, gross]

/-- Over every schedule the books are divided among the threads. -/
theorem books_divided (count : Nat) (schedule : Schedule) :
    Divided (Answers False) (Books False) (service .system)
      (run .system count schedule) :=
  books_run False fun step _ => by
    cases step with
    | call thread request => trivial
    | advance thread answer => exact False.elim

/--
Whatever the threads do and in whatever order, and whatever the host refuses:
when no thread is in a call, the counters account for every block in use,
and for those that the host took back without an entry.
-/
theorem accounts_at_rest (rest : (run .system count schedule).AtRest) :
    Accounts (run .system count schedule).shared :=
  accounts_of_books ((books_divided count schedule).at_rest rest)

/-- Two threads allocate at once, and one frees what the other was given. -/
def twoThreads : Schedule :=
  [.call 0 (.malloc 16), .call 1 (.calloc 2 4)] ++
    ((List.replicate 16
          [.advance 0 ⟨some 100, true⟩, .advance 1 ⟨some 200, true⟩]).flatten ++
      .call 1 (.free (some 100)) ::
        List.replicate 11 (.advance 1 ⟨none, true⟩))

theorem accounts_of_twoThreads :
    (run .system 2 twoThreads).AtRest ∧
      Accounts (run .system 2 twoThreads).shared :=
  ⟨by decide, accounts_at_rest (by decide)⟩

/--
In every state, also in the middle of calls, the entries of the table are
different blocks in use, each with its size.
-/
theorem table_of_blocks (count : Nat) (schedule : Schedule) :
    (run .system count schedule).shared.allocHead.Subperm
        (run .system count schedule).shared.heap ∧
      ((run .system count schedule).shared.heap.map Block.ptr).Nodup := by
  rcases books_divided count schedule with
    ⟨shares, covers, callers, held, sounds, ledger⟩
  refine ⟨?_, ledger.apart⟩
  rw [← Multiset.coe_le, ledger.table, ledger.heap]
  exact Multiset.le_add_right _ _

/-- The host never refuses an entry of the table. -/
def GrantsEntries (schedule : Schedule) : Prop :=
  ∀ step ∈ schedule, step.Allowed fun answer => answer.entry = true

instance (schedule : Schedule) : Decidable (GrantsEntries schedule) :=
  List.decidableBAll _ _

/-- Where no entry was refused nothing escapes and every block has one. -/
theorem table_is_heap_at_rest (grants : GrantsEntries schedule)
    (rest : (run .system count schedule).AtRest) :
    (run .system count schedule).shared.allocHead.Perm
        (run .system count schedule).shared.heap ∧
      (run .system count schedule).shared.escaped = [] := by
  have divided :
      Divided (Answers True) (Books True) (service .system)
        (run .system count schedule) :=
    books_run True fun step member => by
      have may := grants step member
      cases step with
      | call thread request => trivial
      | advance thread answer => exact fun _ => may
  obtain ⟨callers, held, sounds, ledger⟩ := divided.at_rest rest
  refine ⟨?_, ledger.escaped trivial⟩
  have all :=
    sum_blocks_recorded fun owned inside => (sounds owned inside).2 trivial
  have heap := ledger.heap
  rw [zero_add, all, add_zero] at heap
  rw [← Multiset.coe_eq_coe, heap, ledger.table, zero_add]

/--
Where no entry was refused, the statistics at rest are those of the blocks in
use: their number, unless the counters have wrapped, and their bytes.
-/
theorem statistics_at_rest (grants : GrantsEntries schedule)
    (rest : (run .system count schedule).AtRest)
    (small :
      (run .system count schedule).shared.stats.freeCount.toNat +
          (run .system count schedule).shared.heap.length <
        UInt64.size) :
    (neocGetAllocationCount
          (run .system count schedule).shared.stats).toNat =
        (run .system count schedule).shared.heap.length ∧
      (run .system count schedule).shared.stats.currentUsage =
        UInt64.ofNat (bytesOf (run .system count schedule).shared.heap) := by
  have accounts :=
    accounts_of_books ((books_divided count schedule).at_rest rest)
  have escaped := (table_is_heap_at_rest grants rest).2
  generalize (run .system count schedule).shared = tracker
    at small accounts escaped ⊢
  have counts := accounts.count
  have bytes := accounts.bytes
  rw [Tracker.moved, escaped, List.countP_nil, Nat.add_zero] at counts
  rw [Tracker.lost, escaped, List.map_nil, List.sum_nil, Nat.add_zero]
    at bytes
  refine ⟨?_, bytes⟩
  have length : tracker.heap.length < UInt64.size := by omega
  have total :
      tracker.stats.allocationCount.toNat =
        tracker.stats.freeCount.toNat + tracker.heap.length := by
    rw [counts, UInt64.toNat_add, UInt64.toNat_ofNat_of_lt' length]
    exact Nat.mod_eq_of_lt small
  rw [neocGetAllocationCount]
  split
  · rename_i more
    have below := UInt64.le_of_lt more
    rw [UInt64.toNat_sub_of_le _ _ below, total]
    omega
  · rename_i notMore
    have above := UInt64.le_iff_toNat_le.mp (UInt64.not_lt.mp notMore)
    rw [UInt64.toNat_zero]
    omega

theorem statistics_of_twoThreads :
    (neocGetAllocationCount
          (run .system 2 twoThreads).shared.stats).toNat = 1 ∧
      (run .system 2 twoThreads).shared.stats.currentUsage = 8 := by
  have statistics :=
    @statistics_at_rest 2 twoThreads (by decide) (by decide) (by decide)
  exact
    ⟨statistics.1.trans (by decide), statistics.2.trans (by decide)⟩

/-! ## Custom allocators -/

section Custom

variable {custom : NeocAllocator} {stats : MemoryStats}

/-- The statistics are as they were. -/
def Still (stats : MemoryStats) (tracker : Tracker) (_ : PUnit) : Prop :=
  tracker.stats = stats

/-- A program that does not touch the statistics. -/
def Calm (stats : MemoryStats) {α : Type} (program : Program α) : Prop :=
  Meets (fun _ => True) (Still stats) (fun _ _ => True) program PUnit.unit

theorem calm_pure {α : Type} (value : α) :
    Calm stats (pure value : Program α) :=
  Meets.done trivial

theorem Calm.bind {α β : Type} {first : Program α} {next : α → Program β}
    (calm : Calm stats first) (later : ∀ value, Calm stats (next value)) :
    Calm stats (first >>= next) :=
  Meets.bind calm fun value _ _ => later value

/-- A program that starts with a value goes on from there. -/
theorem calm_pure_bind {α β : Type} (value : α) {next : α → Program β}
    (later : Calm stats (next value)) :
    Calm stats (pure value >>= next) :=
  later

theorem calm_act {α : Type}
    {perform : HostAnswer → Tracker → Option Tracker}
    {reply : HostAnswer → Tracker → α}
    (keeps :
      ∀ answer tracker tracker', perform answer tracker = some tracker' →
        tracker'.stats = tracker.stats) :
    Calm stats (Task.act perform reply) := by
  apply Meets.act
  intro answer tracker tracker' frame _ still performed
  exact
    ⟨PUnit.unit, (keeps answer tracker tracker' performed).trans still,
      trivial⟩

theorem place_stats {tracker tracker' : Tracker} {ptr : Nat} {size : UInt64}
    (placed : tracker.place ptr size = some tracker') :
    tracker'.stats = tracker.stats := by
  rw [Tracker.place] at placed
  split at placed
  · cases placed
  · injection placed with same
    rw [← same]

theorem take_stats (tracker : Tracker) (ptr : Nat) (recorded : Bool)
    (escape : UInt64 → Escape) :
    (tracker.take ptr recorded escape).stats = tracker.stats := by
  rw [Tracker.take]
  split <;> rfl

theorem calm_hostMalloc (size : UInt64) : Calm stats (hostMalloc size) := by
  apply calm_act
  intro answer tracker tracker' performed
  split at performed
  · injection performed with same
    rw [← same]
  · exact place_stats performed

theorem calm_hostCalloc (count size : UInt64) :
    Calm stats (hostCalloc count size) := by
  apply calm_act
  intro answer tracker tracker' performed
  split at performed
  · injection performed with same
    rw [← same]
  · split at performed
    · exact place_stats performed
    · cases performed

theorem calm_hostRealloc (ptr : Nat) (size : UInt64) (recorded : Bool) :
    Calm stats (hostRealloc ptr size recorded) := by
  apply calm_act
  intro answer tracker tracker' performed
  split at performed
  · injection performed with same
    rw [← same]
  · rw [place_stats performed, take_stats]

theorem calm_hostFree (ptr : Nat) (recorded : Bool) :
    Calm stats (hostFree ptr recorded) := by
  apply calm_act
  intro answer tracker tracker' performed
  injection performed with same
  rw [← same, take_stats]

theorem calm_untrackAllocation (ptr : Option Nat) :
    Calm stats (untrackAllocation ptr) := by
  have acquire : Calm stats allocLockAcquire := by
    apply calm_act
    intro answer tracker tracker' performed
    split at performed
    · cases performed
    · injection performed with same
      rw [← same]
  have release : Calm stats allocLockRelease := by
    apply calm_act
    intro answer tracker tracker' performed
    injection performed with same
    rw [← same]
  have read : Calm stats readHead := by
    apply calm_act
    intro answer tracker tracker' performed
    injection performed with same
    rw [← same]
  have write (entries : List Block) : Calm stats (writeHead entries) := by
    apply calm_act
    intro answer tracker tracker' performed
    injection performed with same
    rw [← same]
  cases ptr with
  | none => exact calm_pure none
  | some ptr =>
      refine acquire.bind fun _ => read.bind fun head => ?_
      split
      · exact (write _).bind fun _ => release.bind fun _ => calm_pure _
      · exact release.bind fun _ => calm_pure _

theorem calm_neocMalloc (used : custom.usingCustomAllocator = true)
    (size : UInt64) : Calm stats (neocMalloc custom size) := by
  rw [neocMalloc]
  split
  · exact calm_pure none
  · refine (calm_hostMalloc size).bind fun ptr => ?_
    rw [countAllocation, used, Bool.not_true, Bool.and_false,
      if_neg Bool.false_ne_true]
    exact (calm_pure ()).bind fun _ => calm_pure ptr

theorem calm_neocCalloc (used : custom.usingCustomAllocator = true)
    (count size : UInt64) : Calm stats (neocCalloc custom count size) := by
  rw [neocCalloc]
  split
  · exact calm_pure none
  · have given :
        Calm stats
          (if custom.mallocFunc then hostMalloc (count * size)
            else hostCalloc count size) := by
      split
      · exact calm_hostMalloc _
      · exact calm_hostCalloc _ _
    refine given.bind fun ptr => ?_
    rw [countAllocation, used, Bool.not_true, Bool.and_false,
      if_neg Bool.false_ne_true]
    exact (calm_pure ()).bind fun _ => calm_pure ptr

theorem calm_neocFree (used : custom.usingCustomAllocator = true)
    (ptr : Option Nat) : Calm stats (neocFree custom ptr) := by
  have uncounted (tracked : Option UInt64) :
      Calm stats (countFree custom tracked) := by
    unfold countFree
    rw [if_pos used]
    exact calm_pure ()
  cases ptr with
  | none => exact calm_pure ()
  | some ptr =>
      rw [neocFree]
      split
      · exact (calm_hostFree ptr false).bind fun _ => uncounted none
      · exact
          (calm_untrackAllocation (some ptr)).bind fun tracked =>
            (calm_hostFree ptr tracked.isSome).bind fun _ =>
              uncounted tracked

theorem calm_neocRealloc (used : custom.usingCustomAllocator = true)
    (ptr : Option Nat) (size : UInt64) :
    Calm stats (neocRealloc custom ptr size) := by
  cases ptr with
  | none => exact calm_neocMalloc used size
  | some ptr =>
      by_cases zero : size = 0
      · rw [neocRealloc, if_pos zero]
        exact (calm_neocFree used (some ptr)).bind fun _ => calm_pure none
      · rw [neocRealloc, if_neg zero, if_pos used]
        refine calm_pure_bind none ?_
        refine (calm_hostRealloc ptr size _).bind fun newPtr => ?_
        cases newPtr with
        | none => exact (calm_pure ()).bind fun _ => calm_pure none
        | some newPtr =>
            dsimp only
            unfold countReallocation
            rw [if_pos used]
            exact (calm_pure ()).bind fun _ => calm_pure _

/-- With a custom allocator no call changes the statistics. -/
theorem serves_custom (used : custom.usingCustomAllocator = true) :
    Serves (fun _ => True) (Still stats) (service custom) := by
  have delivered {program : Program Outcome} (calm : Calm stats program) :
      Meets (fun _ => True) (Still stats)
        (Returns (Still stats) (service custom)) program PUnit.unit :=
    Meets.weaken calm fun outcome share _ tracker frame still => still
  intro request tracker tracker' frame still entered
  refine ⟨PUnit.unit, ?_, delivered ?_⟩
  · change request.enter tracker = some tracker' at entered
    rw [Request.enter] at entered
    split at entered
    · injection entered with same
      rw [← same]
      exact still
    · split at entered
      · injection entered with same
        rw [← same]
        exact still
      · cases entered
  · cases request with
    | malloc size =>
        exact (calm_neocMalloc used size).bind fun _ => calm_pure _
    | calloc count size =>
        exact (calm_neocCalloc used count size).bind fun _ => calm_pure _
    | realloc ptr size =>
        exact (calm_neocRealloc used ptr size).bind fun _ => calm_pure _
    | free ptr =>
        exact (calm_neocFree used ptr).bind fun _ => calm_pure _

/--
From any state on, as long as one function of the allocator is a custom one,
no schedule of any number of threads changes the statistics.
-/
theorem statistics_still (used : custom.usingCustomAllocator = true)
    (tracker : Tracker) (count : Nat) (schedule : Schedule) :
    (finalState (Pool.move (service custom)) (Pool.idle tracker count)
        schedule).shared.stats =
      tracker.stats := by
  have divided :
      Divided (fun _ => True) (Still tracker.stats) (service custom)
        (finalState (Pool.move (service custom)) (Pool.idle tracker count)
          schedule) := by
    apply divided_schedule (serves_custom used)
    · exact rfl
    · intro step _
      cases step <;> trivial
  obtain ⟨shares, covers, still⟩ := divided
  exact still

theorem statistics_of_freeFunc :
    (finalState (Pool.move (service ⟨false, false, true⟩))
        (Pool.idle (run .system 2 twoThreads).shared 2)
        [.call 0 (.free (some 200)), .advance 0 ⟨none, true⟩]).shared.stats =
      (run .system 2 twoThreads).shared.stats :=
  statistics_still (by decide) _ _ _

end Custom

end NeoC.MemoryTracker
