import NeoC.Foundation.Call
import NeoC.Foundation.Run
import NeoC.Runtime.Memory
import Mathlib.Data.List.Chain
import Mathlib.Data.List.Range

/-!
# Polling for blocks

A poller remembers the index that it has reported last.  A node is asked for
the number of its blocks, which is one more than its highest index.  Starting
takes that into account; polling does not, and treats the number of blocks as
an index.  So the reported indexes have no gaps and no repetitions, and each
poll that reports anything ends with a block that does not exist yet.
-/

namespace NeoC

open Foundation

/-- `neoc_block_index_polling_t`. -/
structure BlockIndexPolling where
  currentBlockIndex : Int
  isInitialized : Bool
  pollingIntervalMs : Int
deriving DecidableEq, Repr

namespace BlockIndexPolling

/-! ## Integers of the source -/

/-- The conversion of an unsigned number to `int`, which wraps. -/
def toInt (value : Nat) : Int :=
  Int.bmod value 0x100000000

/-- A result of type `int`. -/
def checked (value : Int) : Outcome Int :=
  if -0x80000000 ≤ value ∧ value < 0x80000000 then .ok value
  else .error .signedOverflow

/-- `sizeof(neoc_block_index_polling_t)` and `sizeof(int)`. -/
def structSize : Nat := 12
def intSize : Nat := 4

/-! ## Calls -/

/-- `neoc_block_index_polling_create`. -/
def create (alloc : Allocator) (pollingIntervalMs : Int) :
    Outcome BlockIndexPolling :=
  if alloc.neocGrants structSize then
    .ok
      { currentBlockIndex := -1
        isInitialized := true
        pollingIntervalMs :=
          if pollingIntervalMs > 0 then pollingIntervalMs else 15000 }
  else
    .error (.error .outOfMemory "Failed to allocate block index polling")

/--
`neoc_block_index_polling_start`, with what the node answers.  It returns
what the callback is called with.
-/
def start (blockCount : Outcome UInt32) :
    Routine BlockIndexPolling (List Int) := do
  let latest ← Call.lift blockCount
  let newIndex ← Call.lift (checked (toInt latest.toNat - 1))
  Call.update fun polling => { polling with currentBlockIndex := newIndex }
  pure [newIndex]

/-- `current + 1 + (int)i`. -/
def index (current : Int) (i : Nat) : Outcome Int := do
  let following ← checked (current + 1)
  checked (following + toInt i)

/--
`neoc_block_index_polling_poll_once`, with what the node answers.  The
difference is one of unsigned numbers.
-/
def pollOnce (alloc : Allocator) (blockCount : Outcome UInt32) :
    Routine BlockIndexPolling (List Int) := do
  let latest ← Call.lift blockCount
  let current ← Call.read currentBlockIndex
  if toInt latest.toNat ≤ current then
    pure []
  else
    let diff := (((latest.toNat : Int) - current) % 0x100000000).toNat
    if alloc.neocGrants (diff * intSize) then do
      let indices ← Call.lift ((List.range diff).mapM (index current))
      Call.update fun polling =>
        { polling with currentBlockIndex := toInt latest.toNat }
      pure indices
    else
      errorSet .outOfMemory "Failed to allocate indices"

/-! ## Indexes -/

/-- The indexes behind one, up to another. -/
def between (current latest : Int) : List Int :=
  (List.range (latest - current).toNat).map fun i : Nat =>
    current + 1 + (i : Int)

theorem between_self (current : Int) : between current current = [] := by
  simp [between]

theorem between_append {first middle last : Int} (before : first ≤ middle)
    (behind : middle ≤ last) :
    between first middle ++ between middle last = between first last := by
  obtain ⟨low, rfl⟩ := Int.le.dest before
  obtain ⟨high, rfl⟩ := Int.le.dest behind
  have sizes :
      (first + low - first).toNat = low ∧
        (first + low + high - (first + low)).toNat = high ∧
        (first + low + high - first).toNat = low + high := by
    omega
  simp only [between, sizes, List.range_add, List.map_append, List.map_map]
  congr 1
  apply List.map_congr_left
  intro i _
  change first + low + 1 + (i : Int) = first + 1 + ((low + i : Nat) : Int)
  omega

/-- Each index follows on the one in front of it. -/
def Consecutive (indexes : List Int) : Prop :=
  indexes.IsChain fun index following => following = index + 1

instance (indexes : List Int) : Decidable (Consecutive indexes) :=
  inferInstanceAs (Decidable (List.IsChain _ _))

theorem cons_between_consecutive (current latest : Int) :
    Consecutive (current :: between current latest) := by
  have counted :
      current :: between current latest =
        (List.range ((latest - current).toNat + 1)).map fun i : Nat =>
          current + (i : Int) := by
    rw [List.range_succ_eq_map, List.map_cons, List.map_map, between]
    congr 1
    · exact (Int.add_zero current).symm
    · apply List.map_congr_left
      intro i _
      change current + 1 + (i : Int) = current + ((i + 1 : Nat) : Int)
      omega
  rw [Consecutive, counted, List.isChain_map]
  apply (List.isChain_range _ _).mpr
  intro i _
  omega

theorem between_consecutive (current latest : Int) :
    Consecutive (between current latest) :=
  (cons_between_consecutive current latest).tail

/-- The last index is the one that is reached. -/
theorem mem_between {current latest index : Int} :
    index ∈ between current latest ↔ current < index ∧ index ≤ latest := by
  simp only [between, List.mem_map, List.mem_range]
  constructor
  · rintro ⟨i, inside, rfl⟩
    omega
  · rintro ⟨low, high⟩
    exact ⟨(index - current - 1).toNat, by omega, by omega⟩

/-! ## What a call does -/

theorem toInt_of_lt {value : Nat} (small : value < 0x80000000) :
    toInt value = value :=
  Int.bmod_eq_of_le (by omega) (by omega)

theorem checked_of_range {value : Int} (low : -0x80000000 ≤ value)
    (high : value < 0x80000000) : checked value = .ok value := by
  rw [checked, if_pos ⟨low, high⟩]

/-- The indexes that a poll reports fit. -/
theorem index_eq {current : Int} {i : Nat} (low : -1 ≤ current)
    (high : current + 1 + (i : Int) < 0x80000000) :
    index current i = .ok (current + 1 + (i : Int)) := by
  rw [index, checked_of_range (by omega) (by omega)]
  change checked (current + 1 + toInt i) = _
  rw [toInt_of_lt (by omega), checked_of_range (by omega) high]

variable {alloc : Allocator} {polling : BlockIndexPolling} {latest : UInt32}

/-- The memory that a poll asks for. -/
def indicesSize (current : Int) (latest : UInt32) : Nat :=
  ((latest.toNat : Int) - current).toNat * intSize

theorem pollOnce_error (halt : Halt) :
    pollOnce alloc (.error halt) polling = (.error halt, polling) :=
  rfl

/-- An answer is reported up to the number of blocks, if there is memory. -/
theorem pollOnce_answer (low : -1 ≤ polling.currentBlockIndex)
    (small : latest.toNat < 0x80000000) :
    pollOnce alloc (.ok latest) polling =
      if (latest.toNat : Int) ≤ polling.currentBlockIndex then
        (.ok [], polling)
      else if alloc.neocGrants
          (indicesSize polling.currentBlockIndex latest) then
        (.ok (between polling.currentBlockIndex latest.toNat),
          { polling with currentBlockIndex := latest.toNat })
      else
        (.error (.error .outOfMemory "Failed to allocate indices"),
          polling) := by
  have converted := toInt_of_lt small
  rw [pollOnce]
  refine (Call.bind_of_ok rfl).trans ((Call.bind_of_ok rfl).trans ?_)
  rw [converted]
  split
  · rfl
  rename_i behind
  have diff :
      (((latest.toNat : Int) - polling.currentBlockIndex) % 0x100000000).toNat =
        ((latest.toNat : Int) - polling.currentBlockIndex).toNat := by
    omega
  have indices :
      (List.range
            ((latest.toNat : Int) - polling.currentBlockIndex).toNat).mapM
          (index polling.currentBlockIndex) =
        .ok (between polling.currentBlockIndex latest.toNat) := by
    apply Except.mapM_eq_ok
    intro i member
    have inside := List.mem_range.mp member
    exact index_eq low (by omega)
  dsimp only
  rw [diff, indicesSize]
  by_cases granted :
      alloc.neocGrants
          (((latest.toNat : Int) - polling.currentBlockIndex).toNat *
            intSize) =
        true
  · rw [if_pos granted, if_pos granted, indices]
    rfl
  · rw [if_neg granted, if_neg granted]
    rfl

/-! ## Polls against a node -/

/-- A poll, with what it finds around it. -/
structure Poll where
  alloc : Allocator
  /-- How many blocks the node has. -/
  blockCount : UInt32
  /-- Why the node is not heard, if it is not. -/
  failure : Option Halt

/-- What the node answers. -/
def Poll.response (poll : Poll) : Outcome UInt32 :=
  match poll.failure with
  | none => .ok poll.blockCount
  | some halt => .error halt

/-- The index of the highest block. -/
def Poll.highest (poll : Poll) : Int :=
  (poll.blockCount.toNat : Int) - 1

/-- What a poll returns. -/
def Poll.outcome (polling : BlockIndexPolling) (poll : Poll) :
    Outcome (List Int) :=
  (pollOnce poll.alloc poll.response polling).1

/-- The poller after a poll. -/
def next (polling : BlockIndexPolling) (poll : Poll) : BlockIndexPolling :=
  (pollOnce poll.alloc poll.response polling).2

/-- The indexes that a poll reports, none if it fails. -/
def Poll.reports (polling : BlockIndexPolling) (poll : Poll) : List Int :=
  match poll.outcome polling with
  | .ok indices => indices
  | .error _ => []

/-- The indexes that are reported over a run. -/
def reported (polling : BlockIndexPolling) (polls : List Poll) : List Int :=
  emitted (fun polling poll => Poll.reports polling poll) next polling polls

/--
A poller at the start of a run, with what has been reported by then and the
number of blocks that the node has at least.
-/
inductive Begins : BlockIndexPolling → List Int → UInt32 → Prop
  | fresh {alloc : Allocator} {pollingIntervalMs : Int}
      {polling : BlockIndexPolling}
      (created : create alloc pollingIntervalMs = .ok polling) :
      Begins polling [] 0
  | started {before polling : BlockIndexPolling} {blockCount : UInt32}
      {reports : List Int}
      (called : start (.ok blockCount) before = (.ok reports, polling)) :
      Begins polling reports blockCount

/-- Every block is reported once, and none before it exists. -/
structure ReportsOnce (first : List Int) (blockCount : UInt32)
    (polling : BlockIndexPolling) (polls : List Poll) : Prop where
  consecutive : Consecutive (first ++ reported polling polls)
  started : ∀ index ∈ first, index ≤ (blockCount.toNat : Int) - 1
  existing :
    Along next
      (fun polling poll =>
        ∀ index ∈ poll.reports polling, index ≤ poll.highest)
      polling polls
  silent :
    Along next
      (fun polling poll =>
        (poll.outcome polling).isOk = false →
          poll.reports polling = [] ∧ next polling poll = polling)
      polling polls

/-- The node is heard, and there is memory for the indexes. -/
def Poll.Delivers (current : Int) (poll : Poll) : Prop :=
  poll.failure = none ∧
    poll.alloc.neocGrants (indicesSize current poll.blockCount) = true

/-- A new poller. -/
def newPolling : BlockIndexPolling where
  currentBlockIndex := -1
  isInitialized := true
  pollingIntervalMs := 15000

theorem newPolling_created :
    create .ample 0 = .ok newPolling :=
  rfl

/-- A poll that is answered. -/
def Poll.heard (blockCount : UInt32) : Poll where
  alloc := .ample
  blockCount
  failure := none

/-- A poll that is not answered. -/
def Poll.unheard (blockCount : UInt32) : Poll where
  alloc := .ample
  blockCount
  failure := some (.error .network "")

/-! ## Steps -/

section Steps

variable {poll : Poll}

/-- A poll reports all blocks up to their number, or nothing at all. -/
theorem next_cases (low : -1 ≤ polling.currentBlockIndex)
    (small : poll.blockCount.toNat < 0x80000000) :
    (¬ (polling.currentBlockIndex < poll.blockCount.toNat ∧
          poll.Delivers polling.currentBlockIndex) ∧
        poll.reports polling = [] ∧ next polling poll = polling) ∨
      (polling.currentBlockIndex < poll.blockCount.toNat ∧
        poll.Delivers polling.currentBlockIndex) ∧
        (poll.outcome polling).isOk = true ∧
        poll.reports polling =
            between polling.currentBlockIndex poll.blockCount.toNat ∧
          next polling poll =
            { polling with currentBlockIndex := poll.blockCount.toNat } := by
  cases heard : poll.failure with
  | some halt =>
      have answer : poll.response = .error halt := by
        rw [Poll.response, heard]
      refine .inl ⟨?_, ?_, ?_⟩
      · rintro ⟨-, heard', -⟩
        rw [heard] at heard'
        cases heard'
      · rw [Poll.reports, Poll.outcome, answer, pollOnce_error]
      · rw [next, answer, pollOnce_error]
  | none =>
      have answer : poll.response = .ok poll.blockCount := by
        rw [Poll.response, heard]
      have ran := @pollOnce_answer poll.alloc _ _ low small
      by_cases behind :
          (poll.blockCount.toNat : Int) ≤ polling.currentBlockIndex
      · rw [if_pos behind] at ran
        refine .inl ⟨?_, ?_, ?_⟩
        · rintro ⟨further, -⟩
          omega
        · rw [Poll.reports, Poll.outcome, answer, ran]
        · rw [next, answer, ran]
      rw [if_neg behind] at ran
      by_cases granted :
          poll.alloc.neocGrants
              (indicesSize polling.currentBlockIndex poll.blockCount) =
            true
      · rw [if_pos granted] at ran
        refine .inr ⟨⟨by omega, heard, granted⟩, ?_, ?_, ?_⟩
        · rw [Poll.outcome, answer, ran]
          rfl
        · rw [Poll.reports, Poll.outcome, answer, ran]
        · rw [next, answer, ran]
      · rw [if_neg granted] at ran
        refine .inl ⟨?_, ?_, ?_⟩
        · rintro ⟨-, -, granted'⟩
          exact granted granted'
        · rw [Poll.reports, Poll.outcome, answer, ran]
        · rw [next, answer, ran]

/-- The cursor has not gone back. -/
def Before (left right : BlockIndexPolling) : Prop :=
  left.currentBlockIndex ≤ right.currentBlockIndex

/-- The indexes that a cursor has passed. -/
def passed (left right : BlockIndexPolling) : List Int :=
  between left.currentBlockIndex right.currentBlockIndex

/-- A poll reports the indexes that the cursor passes. -/
theorem next_spans (low : -1 ≤ polling.currentBlockIndex)
    (small : poll.blockCount.toNat < 0x80000000) :
    Before polling (next polling poll) ∧
      poll.reports polling = passed polling (next polling poll) := by
  rcases next_cases low small with
    ⟨-, reports, after⟩ | ⟨⟨further, -⟩, -, reports, after⟩
  · rw [reports, after]
    exact ⟨Int.le_refl _, (between_self _).symm⟩
  · rw [reports, after]
    exact ⟨Int.le_of_lt further, rfl⟩

/-- A poll that fails changes nothing. -/
theorem next_silent (low : -1 ≤ polling.currentBlockIndex)
    (small : poll.blockCount.toNat < 0x80000000)
    (failed : (poll.outcome polling).isOk = false) :
    poll.reports polling = [] ∧ next polling poll = polling := by
  rcases next_cases low small with ⟨-, nothing⟩ | ⟨-, succeeded, -⟩
  · exact nothing
  · rw [failed] at succeeded
    cases succeeded

end Steps

/-! ## Runs -/

section Runs

variable {polls : List Poll} {first : List Int} {blockCount : UInt32}

/-- Along a run against a node with few enough blocks, the cursor is valid. -/
theorem along_run {property : BlockIndexPolling → Poll → Prop}
    (gives :
      ∀ {polling : BlockIndexPolling} {poll : Poll},
        -1 ≤ polling.currentBlockIndex →
          poll.blockCount.toNat < 0x80000000 → property polling poll)
    (low : -1 ≤ polling.currentBlockIndex)
    (small : ∀ poll ∈ polls, poll.blockCount.toNat < 0x80000000) :
    Along next property polling polls :=
  along_of_invariant (fun polling => -1 ≤ polling.currentBlockIndex)
    (fun _ _ held few => Int.le_trans held (next_spans held few).1)
    (fun _ _ held few => gives held few) low
    ((along_const polling polls).mpr small)

/-- A run reports what the cursor passes. -/
theorem reported_eq (low : -1 ≤ polling.currentBlockIndex)
    (small : ∀ poll ∈ polls, poll.blockCount.toNat < 0x80000000) :
    reported polling polls =
      passed polling (finalState next polling polls) := by
  have spanned :
      Before polling (finalState next polling polls) ∧
        reported polling polls =
          passed polling (finalState next polling polls) := by
    apply emitted_span
    · exact fun polling => ⟨Int.le_refl _, between_self _⟩
    · exact fun before behind =>
        ⟨Int.le_trans before behind, between_append before behind⟩
    · exact along_run next_spans low small
  exact spanned.2

/-- Starting reports the highest block. -/
theorem start_answer (before : BlockIndexPolling)
    (few : blockCount.toNat < 0x80000000) :
    start (.ok blockCount) before =
      (.ok [(blockCount.toNat : Int) - 1],
        { before with
          currentBlockIndex := (blockCount.toNat : Int) - 1 }) := by
  rw [start]
  refine (Call.bind_of_ok rfl).trans ?_
  rw [toInt_of_lt few, checked_of_range (by omega) (by omega)]
  rfl

/-- A run begins with the cursor at the last block that is known. -/
theorem Begins.cursor (begins : Begins polling first blockCount)
    (few : blockCount.toNat < 0x80000000) :
    polling.currentBlockIndex = (blockCount.toNat : Int) - 1 ∧
      (first = [] ∨ first = [polling.currentBlockIndex]) := by
  cases begins with
  | fresh created =>
      rw [create] at created
      split at created
      · cases created
        exact ⟨rfl, .inl rfl⟩
      · cases created
  | started called =>
      rw [start_answer _ few] at called
      cases called
      exact ⟨rfl, .inr rfl⟩

/-- The reports of a run have no gaps and no repetitions. -/
theorem reported_consecutive (begins : Begins polling first blockCount)
    (few : blockCount.toNat < 0x80000000)
    (small : ∀ poll ∈ polls, poll.blockCount.toNat < 0x80000000) :
    Consecutive (first ++ reported polling polls) := by
  rcases begins.cursor few with ⟨cursor, beginning⟩
  rw [reported_eq (by omega) small]
  rcases beginning with rfl | rfl
  · exact between_consecutive _ _
  · exact cons_between_consecutive _ _

/--
A poll that delivers reports a block that does not exist, and any other poll
leaves the poller as it is.
-/
theorem existing_iff (low : -1 ≤ polling.currentBlockIndex)
    (small : ∀ poll ∈ polls, poll.blockCount.toNat < 0x80000000)
    (ahead :
      ∀ poll ∈ polls,
        polling.currentBlockIndex < (poll.blockCount.toNat : Int)) :
    Along next
        (fun polling poll =>
          ∀ index ∈ poll.reports polling, index ≤ poll.highest)
        polling polls ↔
      ∀ poll ∈ polls, ¬ poll.Delivers polling.currentBlockIndex := by
  induction polls with
  | nil =>
      constructor
      · intro _ poll member
        cases member
      · intro _
        trivial
  | cons poll rest induction =>
      rcases List.forall_mem_cons.mp small with ⟨smallPoll, smallRest⟩
      rcases List.forall_mem_cons.mp ahead with ⟨aheadPoll, aheadRest⟩
      rw [Along, List.forall_mem_cons]
      rcases next_cases low smallPoll with
        ⟨nothing, reports, after⟩ | ⟨⟨-, delivers⟩, -, reports, -⟩
      · rw [reports, after, induction smallRest aheadRest]
        constructor
        · rintro ⟨-, later⟩
          exact ⟨fun delivers => nothing ⟨aheadPoll, delivers⟩, later⟩
        · rintro ⟨-, later⟩
          exact ⟨List.forall_mem_nil _, later⟩
      · constructor
        · rintro ⟨existing, -⟩
          rw [reports] at existing
          have last :=
            existing _ (mem_between.mpr ⟨aheadPoll, Int.le_refl _⟩)
          rw [Poll.highest] at last
          omega
        · rintro ⟨silent, -⟩
          exact absurd delivers silent

/--
Every block is reported once and none too early, exactly if no poll of the
run delivers anything.
-/
theorem reportsOnce_iff
    (begins : Begins polling first blockCount)
    (grows : (blockCount :: polls.map Poll.blockCount).Pairwise (· ≤ ·))
    (few : blockCount.toNat < 0x80000000)
    (small : ∀ poll ∈ polls, poll.blockCount.toNat < 0x80000000) :
    ReportsOnce first blockCount polling polls ↔
      ∀ poll ∈ polls, ¬ poll.Delivers polling.currentBlockIndex := by
  rcases begins.cursor few with ⟨cursor, beginning⟩
  have low : -1 ≤ polling.currentBlockIndex := by omega
  have ahead :
      ∀ poll ∈ polls,
        polling.currentBlockIndex < (poll.blockCount.toNat : Int) := by
    intro poll member
    have more :=
      UInt32.le_iff_toNat_le.mp
        ((List.pairwise_cons.mp grows).1 _ (List.mem_map_of_mem member))
    omega
  rw [← existing_iff low small ahead]
  constructor
  · exact ReportsOnce.existing
  · intro existing
    refine
      { consecutive := reported_consecutive begins few small
        started := ?_
        existing
        silent := along_run next_silent low small }
    intro index member
    rcases beginning with rfl | rfl
    · cases member
    · exact Int.le_of_eq ((List.mem_singleton.mp member).trans cursor)

/-- Two polls without an answer report nothing, and an answer is too much. -/
theorem reportsOnce_iff_two_polls :
    ReportsOnce [] 0 newPolling [Poll.unheard 5, Poll.unheard 7] ∧
      ¬ ReportsOnce [] 0 newPolling [Poll.unheard 5, Poll.heard 7] := by
  constructor
  · apply
      (reportsOnce_iff (.fresh newPolling_created) (by decide) (by decide)
        (by decide)).mpr
    intro poll member delivers
    have failed : poll.failure ≠ none := by
      revert poll
      simp [Poll.unheard]
    exact failed delivers.1
  · intro once
    have silent :=
      (reportsOnce_iff (.fresh newPolling_created) (by decide) (by decide)
        (by decide)).mp once
    exact
      silent (Poll.heard 7) (List.mem_cons_of_mem _ List.mem_cons_self)
        ⟨rfl, by decide⟩

end Runs

/-! ## A run that reports a block too early -/

/-- A node with one block is reported to have two. -/
theorem genesis_reports_next :
    create .ample 0 = .ok newPolling ∧
      reported newPolling [Poll.heard 1] = [0, 1] ∧
      ¬ ReportsOnce [] 0 newPolling [Poll.heard 1] := by
  refine ⟨newPolling_created, by decide +kernel, ?_⟩
  intro once
  have existing := once.existing.1 1 (by decide +kernel)
  exact absurd existing (by decide)

end BlockIndexPolling

end NeoC
