import NeoC.Foundation.Interleaving

/-!
# The memory tracker

Every allocation of the library goes through wrappers that keep statistics
and a table of the blocks that are in use.  The statistics are atomic
counters, the table is a linked list behind a spin lock, and threads may be
in the wrappers at the same time.

A step of a program is one access to the shared memory or one call of the
host's allocator.  Beside the variables of the wrappers the state has what
the host and the callers know: the blocks that are allocated, the pointers
that callers hold, and which blocks the host took back without an entry.  No
program looks at these.

The host may refuse any request, also the one for a new entry of the table.
It never hands out an address that is in use.  Callers pass only pointers
that they hold.
-/

namespace NeoC.MemoryTracker

open Foundation

/-! ## The shared state -/

/-- `memory_stats_t`. -/
@[ext]
structure MemoryStats where
  totalAllocated : UInt64
  totalFreed : UInt64
  currentUsage : UInt64
  peakUsage : UInt64
  allocationCount : UInt64
  freeCount : UInt64
deriving DecidableEq, Repr

/-- A block in use, or the entry `alloc_entry_t` that records one. -/
structure Block where
  ptr : Nat
  size : UInt64
deriving DecidableEq, Repr

/-- A block that the host took back while it had no entry. -/
inductive Escape where
  | freed (size : UInt64)
  | resized (size : UInt64)
deriving DecidableEq, Repr

/-- The bytes of a block that went without an entry. -/
def Escape.size : Escape → UInt64
  | freed size => size
  | resized size => size

/-- The block was moved, not freed. -/
def Escape.isResized : Escape → Bool
  | freed _ => false
  | resized _ => true

/-- The variables of the wrappers, the host's blocks and the callers'. -/
structure Tracker where
  stats : MemoryStats
  allocHead : List Block
  allocLock : Bool
  heap : List Block
  held : List Nat
  escaped : List Escape
deriving DecidableEq, Repr

/-- The state before the first call. -/
def Tracker.initial : Tracker where
  stats := ⟨0, 0, 0, 0, 0, 0⟩
  allocHead := []
  allocLock := false
  heap := []
  held := []
  escaped := []

/-- What the host says: the address of a block, and whether an entry fits. -/
structure HostAnswer where
  block : Option Nat
  entry : Bool
deriving DecidableEq, Repr

/-- Which functions of `neoc_allocator_t` are set. -/
structure NeocAllocator where
  mallocFunc : Bool
  reallocFunc : Bool
  freeFunc : Bool
deriving DecidableEq, Repr

/-- `using_custom_allocator`. -/
def NeocAllocator.usingCustomAllocator (custom : NeocAllocator) : Bool :=
  custom.mallocFunc || custom.reallocFunc || custom.freeFunc

/-- The allocator of the system: no function is set. -/
def NeocAllocator.system : NeocAllocator where
  mallocFunc := false
  reallocFunc := false
  freeFunc := false

/-! ## Steps -/

/-- A program of a thread. -/
abbrev Program :=
  Task Tracker HostAnswer

/-- An atomic change of the statistics. -/
def update (change : MemoryStats → MemoryStats) : Program Unit :=
  Task.act
    (fun _ tracker => some { tracker with stats := change tracker.stats })
    (fun _ _ => ())

/-- An atomic load of a counter. -/
def load (view : MemoryStats → UInt64) : Program UInt64 :=
  Task.act
    (fun _ tracker => some tracker)
    (fun _ tracker => view tracker.stats)

/-- `alloc_lock_acquire`: the thread spins while the flag is set. -/
def allocLockAcquire : Program Unit :=
  Task.act
    (fun _ tracker =>
      if tracker.allocLock then none
      else some { tracker with allocLock := true })
    (fun _ _ => ())

/-- `alloc_lock_release`. -/
def allocLockRelease : Program Unit :=
  Task.act
    (fun _ tracker => some { tracker with allocLock := false })
    (fun _ _ => ())

/-- Read the list from `alloc_head` on. -/
def readHead : Program (List Block) :=
  Task.act
    (fun _ tracker => some tracker)
    (fun _ tracker => tracker.allocHead)

/-- Link the list anew. -/
def writeHead (entries : List Block) : Program Unit :=
  Task.act
    (fun _ tracker => some { tracker with allocHead := entries })
    (fun _ _ => ())

/-- `malloc(sizeof(alloc_entry_t))`. -/
def allocEntry : Program Bool :=
  Task.act
    (fun _ tracker => some tracker)
    (fun answer _ => answer.entry)

/-- The host hands out a block; it does not do so at an address in use. -/
def Tracker.place (tracker : Tracker) (ptr : Nat) (size : UInt64) :
    Option Tracker :=
  if ptr ∈ tracker.heap.map Block.ptr then none
  else some { tracker with heap := ⟨ptr, size⟩ :: tracker.heap }

/-- The host takes a block back; without an entry it is put on record. -/
def Tracker.take (tracker : Tracker) (ptr : Nat) (recorded : Bool)
    (escape : UInt64 → Escape) : Tracker :=
  match tracker.heap.find? fun block => block.ptr == ptr with
  | none => tracker
  | some block =>
      { tracker with
        heap := tracker.heap.erase block
        escaped :=
          if recorded then tracker.escaped
          else escape block.size :: tracker.escaped }

/-- `malloc`, or the custom function in its place. -/
def hostMalloc (size : UInt64) : Program (Option Nat) :=
  Task.act
    (fun answer tracker =>
      match answer.block with
      | none => some tracker
      | some ptr => tracker.place ptr size)
    (fun answer _ => answer.block)

/-- `calloc`, which refuses a product that does not fit a word. -/
def hostCalloc (count size : UInt64) : Program (Option Nat) :=
  Task.act
    (fun answer tracker =>
      match answer.block with
      | none => some tracker
      | some ptr =>
          if count.toNat * size.toNat < UInt64.size then
            tracker.place ptr (count * size)
          else none)
    (fun answer _ => answer.block)

/-- `realloc`, or the custom function; the block may stay or move. -/
def hostRealloc (ptr : Nat) (size : UInt64) (recorded : Bool) :
    Program (Option Nat) :=
  Task.act
    (fun answer tracker =>
      match answer.block with
      | none => some tracker
      | some moved =>
          (tracker.take ptr recorded .resized).place moved size)
    (fun answer _ => answer.block)

/-- `free`, or the custom function. -/
def hostFree (ptr : Nat) (recorded : Bool) : Program Unit :=
  Task.act
    (fun _ tracker => some (tracker.take ptr recorded .freed))
    (fun _ _ => ())

/-! ## The wrappers -/

/-- `track_allocation`. -/
def trackAllocation (ptr : Option Nat) (size : UInt64) : Program Unit :=
  match ptr with
  | none => pure ()
  | some ptr => do
      let entry ← allocEntry
      if entry then
        allocLockAcquire
        let head ← readHead
        writeHead (⟨ptr, size⟩ :: head)
        allocLockRelease
      else
        pure ()

/-- The entry for a pointer: its size and the list without it. -/
def unlink (ptr : Nat) : List Block → Option (UInt64 × List Block)
  | [] => none
  | entry :: rest =>
      if entry.ptr = ptr then some (entry.size, rest)
      else
        (unlink ptr rest).map fun found => (found.1, entry :: found.2)

/-- `untrack_allocation`: the size in the entry, if there was one. -/
def untrackAllocation (ptr : Option Nat) : Program (Option UInt64) :=
  match ptr with
  | none => pure none
  | some ptr => do
      allocLockAcquire
      let head ← readHead
      match unlink ptr head with
      | some (size, rest) => do
          writeHead rest
          allocLockRelease
          pure (some size)
      | none => do
          allocLockRelease
          pure none

/-- What `neoc_malloc` and `neoc_calloc` do with a block they were given. -/
def countAllocation (custom : NeocAllocator) (ptr : Option Nat)
    (size : UInt64) : Program Unit :=
  if ptr.isSome && !custom.usingCustomAllocator then do
    update fun stats =>
      { stats with allocationCount := stats.allocationCount + 1 }
    trackAllocation ptr size
    update fun stats =>
      { stats with totalAllocated := stats.totalAllocated + size }
    update fun stats =>
      { stats with currentUsage := stats.currentUsage + size }
    let current ← load MemoryStats.currentUsage
    let peak ← load MemoryStats.peakUsage
    if current > peak then
      update fun stats => { stats with peakUsage := current }
    else
      pure ()
  else
    pure ()

/-- `neoc_malloc`. -/
def neocMalloc (custom : NeocAllocator) (size : UInt64) :
    Program (Option Nat) :=
  if size = 0 then
    pure none
  else do
    let ptr ← hostMalloc size
    countAllocation custom ptr size
    pure ptr

/-- `neoc_calloc`; a custom `malloc_func` is given the wrapped product. -/
def neocCalloc (custom : NeocAllocator) (count size : UInt64) :
    Program (Option Nat) :=
  if count = 0 ∨ size = 0 then
    pure none
  else do
    let ptr ←
      (if custom.mallocFunc then hostMalloc (count * size)
        else hostCalloc count size)
    countAllocation custom ptr (count * size)
    pure ptr

/-- What `neoc_free` counts after the host has taken the block. -/
def countFree (custom : NeocAllocator) (tracked : Option UInt64) :
    Program Unit :=
  if custom.usingCustomAllocator then
    pure ()
  else do
    update fun stats => { stats with freeCount := stats.freeCount + 1 }
    match tracked with
    | none => pure ()
    | some size => do
        update fun stats => { stats with totalFreed := stats.totalFreed + size }
        update fun stats =>
          { stats with currentUsage := stats.currentUsage - size }

/-- `neoc_free`. -/
def neocFree (custom : NeocAllocator) (ptr : Option Nat) : Program Unit :=
  match ptr with
  | none => pure ()
  | some ptr =>
      if custom.freeFunc then do
        hostFree ptr false
        countFree custom none
      else do
        let tracked ← untrackAllocation (some ptr)
        hostFree ptr tracked.isSome
        countFree custom tracked

/-- A failed `neoc_realloc` puts the entry it had removed back. -/
def restoreEntry (ptr : Nat) (oldSize : Option UInt64) : Program Unit :=
  match oldSize with
  | none => pure ()
  | some oldSize => trackAllocation (some ptr) oldSize

/-- What `neoc_realloc` counts for a block that was resized. -/
def countReallocation (custom : NeocAllocator) (newPtr : Nat)
    (size : UInt64) (oldSize : Option UInt64) : Program Unit :=
  if custom.usingCustomAllocator then
    pure ()
  else do
    update fun stats =>
      { stats with allocationCount := stats.allocationCount + 1 }
    trackAllocation (some newPtr) size
    update fun stats =>
      { stats with totalAllocated := stats.totalAllocated + size }
    update fun stats =>
      { stats with currentUsage := stats.currentUsage + size }
    match oldSize with
    | none => pure ()
    | some oldSize =>
        if oldSize > 0 then do
          update fun stats => { stats with freeCount := stats.freeCount + 1 }
          update fun stats =>
            { stats with totalFreed := stats.totalFreed + oldSize }
          update fun stats =>
            { stats with currentUsage := stats.currentUsage - oldSize }
        else
          pure ()

/-- `neoc_realloc`. -/
def neocRealloc (custom : NeocAllocator) (ptr : Option Nat)
    (size : UInt64) : Program (Option Nat) :=
  match ptr with
  | none => neocMalloc custom size
  | some ptr =>
      if size = 0 then do
        neocFree custom (some ptr)
        pure none
      else do
        let oldSize ←
          (if custom.usingCustomAllocator then pure none
            else untrackAllocation (some ptr))
        let newPtr ← hostRealloc ptr size oldSize.isSome
        match newPtr with
        | none => do
            restoreEntry ptr oldSize
            pure none
        | some newPtr => do
            countReallocation custom newPtr size oldSize
            pure (some newPtr)

/-- `neoc_get_allocation_count`. -/
def neocGetAllocationCount (stats : MemoryStats) : UInt64 :=
  if stats.allocationCount > stats.freeCount then
    stats.allocationCount - stats.freeCount
  else 0

/-! ## Calls -/

/-- A call of one of the wrappers. -/
inductive Request where
  | malloc (size : UInt64)
  | calloc (count size : UInt64)
  | realloc (ptr : Option Nat) (size : UInt64)
  | free (ptr : Option Nat)
deriving DecidableEq, Repr

/-- The pointer that a call is given. -/
def Request.pointer : Request → Option Nat
  | malloc _ => none
  | calloc _ _ => none
  | realloc ptr _ => ptr
  | free ptr => ptr

/-- The pointer returned, and the one passed in if the caller keeps it. -/
structure Outcome where
  returned : Option Nat
  retained : Option Nat
deriving DecidableEq, Repr

/-- A block that could not be resized stays with the caller. -/
def Request.body (custom : NeocAllocator) : Request → Program Outcome
  | malloc size => do
      let returned ← neocMalloc custom size
      pure ⟨returned, none⟩
  | calloc count size => do
      let returned ← neocCalloc custom count size
      pure ⟨returned, none⟩
  | realloc ptr size => do
      let returned ← neocRealloc custom ptr size
      pure
        ⟨returned, if returned.isNone && size != 0 then ptr else none⟩
  | free ptr => do
      neocFree custom ptr
      pure ⟨none, none⟩

/-- A caller passes only a pointer that it holds, and gives it away. -/
def Request.enter (request : Request) (tracker : Tracker) :
    Option Tracker :=
  match request.pointer with
  | none => some tracker
  | some ptr =>
      if ptr ∈ tracker.held then
        some { tracker with held := tracker.held.erase ptr }
      else none

/-- The caller holds what it is given and what it kept. -/
def Outcome.leave (outcome : Outcome) (tracker : Tracker) : Tracker :=
  { tracker with
    held :=
      outcome.returned.toList ++ outcome.retained.toList ++ tracker.held }

/-- The wrappers as the threads see them. -/
def service (custom : NeocAllocator) :
    Service Tracker HostAnswer Request Outcome where
  enter := Request.enter
  body := Request.body custom
  leave := Outcome.leave

/-- The pools of threads over the tracker. -/
abbrev Threads :=
  Pool Tracker HostAnswer Outcome

/-- A schedule: which thread does what, and what the host says. -/
abbrev Schedule :=
  List (Move HostAnswer Request)

/-- The state after a schedule of a number of threads. -/
def run (custom : NeocAllocator) (count : Nat) (schedule : Schedule) :
    Threads :=
  finalState (Pool.move (service custom)) (Pool.idle Tracker.initial count)
    schedule

end NeoC.MemoryTracker
