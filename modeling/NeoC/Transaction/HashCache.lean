import NeoC.Transaction.History

/-!
# The hash kept in a transaction

`neoc_transaction_get_hash` returns the hash stored in the transaction unless
that is zero.  It is stored when it is computed, and nothing clears it when
the transaction changes afterwards.  To say when the stored hash is current,
a history is followed with a record beside the transaction: the bytes that
were hashed last.
-/

namespace NeoC.Transaction

open Foundation

variable {curve : Curve}

/-- `neoc_transaction_get_hash` answers with the hash of the present bytes. -/
def ReturnsCurrent (host : Host) (transaction : Transaction)
    (step : Step curve) : Prop :=
  ∀ hash transaction',
    step.operation = .getHash →
      getHash (step.host host) step.alloc transaction =
          (.ok hash, transaction') →
        hash = host.sha256Digest transaction.unsignedBytes

/-- A transaction with a record of the bytes that were hashed last. -/
structure Tracked where
  transaction : Transaction
  hashed : List UInt8

/-- Take a step and keep the record. -/
def track (host : Host) (tracked : Tracked) (step : Step curve) : Tracked :=
  { transaction := next host tracked.transaction step
    hashed :=
      if hashes host tracked.transaction step then
        tracked.transaction.unsignedBytes
      else
        tracked.hashed }

/--
The hash is asked for while none is stored, or while the bytes are those that
were hashed last.
-/
def Fresh (tracked : Tracked) (step : Step curve) : Prop :=
  step.operation = .getHash →
    tracked.transaction.hash = Bytes.zero 32 ∨
      tracked.hashed = tracked.transaction.unsignedBytes

/-- The stored hash, if there is one, is the hash of the recorded bytes. -/
def Recorded (host : Host) (tracked : Tracked) : Prop :=
  tracked.transaction.hash = Bytes.zero 32 ∨
    tracked.transaction.hash = host.sha256Digest tracked.hashed

/-! ## The record is right -/

theorem track_recorded {host : Host} (tracked : Tracked)
    (step : Step curve) (recorded : Recorded host tracked) :
    Recorded host (track host tracked step) := by
  rw [Recorded, track]
  dsimp only
  split
  · rename_i stores
    exact .inr ((next_change _ step).hash_of_hashes stores)
  · rename_i idle
    rw [(next_change _ step).hash_of_not_hashes idle]
    exact recorded

/-! ## When the answer is current -/

/-- Asked while no hash is stored, the library computes it. -/
theorem returnsCurrent_of_zero {host : Host} {transaction : Transaction}
    {step : Step curve} (zero : transaction.hash = Bytes.zero 32) :
    ReturnsCurrent host transaction step := by
  intro hash transaction' isGet answered
  rw [getHash_of_zero zero] at answered
  rcases @calculateHash_cases (step.host host) step.alloc transaction with
    ⟨reason, failed⟩ | hashed
  · rw [failed] at answered
    cases answered
  · rw [hashed] at answered
    cases answered
    rfl

/-- A stored hash is returned as it is. -/
theorem returnsCurrent_iff_of_stored {host : Host}
    {transaction : Transaction} {step : Step curve}
    (isGet : step.operation = .getHash)
    (stored : transaction.hash ≠ Bytes.zero 32) :
    ReturnsCurrent host transaction step ↔
      transaction.hash = host.sha256Digest transaction.unsignedBytes := by
  constructor
  · intro current
    exact current _ _ isGet (getHash_of_cached stored)
  · intro equal hash transaction' _ answered
    rw [getHash_of_cached stored] at answered
    cases answered
    exact equal

theorem returnsCurrent_of_fresh {host : Host} (tracked : Tracked)
    (step : Step curve) (recorded : Recorded host tracked)
    (fresh : Fresh tracked step) :
    ReturnsCurrent host tracked.transaction step := by
  by_cases zero : tracked.transaction.hash = Bytes.zero 32
  · exact returnsCurrent_of_zero zero
  · intro hash transaction' isGet
    have same := (fresh isGet).resolve_left zero
    have digest := recorded.resolve_left zero
    rw [same] at digest
    exact
      (returnsCurrent_iff_of_stored isGet zero).mpr digest hash transaction'
        isGet

/-- The present bytes and those hashed last are not a collision. -/
def Distinguishes (host : Host) (tracked : Tracked) : Prop :=
  host.sha256Digest tracked.hashed =
      host.sha256Digest tracked.transaction.unsignedBytes →
    tracked.hashed = tracked.transaction.unsignedBytes

theorem fresh_of_returnsCurrent {host : Host} (tracked : Tracked)
    (step : Step curve) (recorded : Recorded host tracked)
    (distinguishes : Distinguishes host tracked)
    (current : ReturnsCurrent host tracked.transaction step) :
    Fresh tracked step := by
  intro isGet
  by_cases zero : tracked.transaction.hash = Bytes.zero 32
  · exact .inl zero
  · right
    apply distinguishes
    rw [← recorded.resolve_left zero]
    exact (returnsCurrent_iff_of_stored isGet zero).mp current

theorem create_hash {alloc : Allocator} {time : UInt32}
    {transaction : Transaction}
    (created : create alloc time = .ok transaction) :
    transaction.hash = Bytes.zero 32 := by
  unfold create at created
  split at created
  · cases created
    rfl
  · cases created

/--
In every history in which the hash is asked for only while none is stored or
the bytes are those that were hashed last, every answer is the hash of the
present bytes.  Apart from collisions, every other answer is wrong.
-/
theorem getHash_current_along_history
    {host : Host}
    {alloc : Allocator}
    {time : UInt32}
    {transaction : Transaction}
    (created : create alloc time = .ok transaction)
    (steps : List (Step curve)) :
    (Along (track host) Fresh { transaction, hashed := [] } steps →
        Along (next host) (ReturnsCurrent host) transaction steps) ∧
      Along (track host)
        (fun tracked step =>
          Distinguishes host tracked →
            (ReturnsCurrent host tracked.transaction step ↔
              Fresh tracked step))
        { transaction, hashed := [] } steps := by
  have recorded : Recorded host { transaction, hashed := [] } :=
    .inl (create_hash created)
  constructor
  · intro fresh
    have current :=
      along_of_invariant (Recorded host)
        (fun tracked step held _ => track_recorded tracked step held)
        returnsCurrent_of_fresh recorded fresh
    exact
      (along_project (fun _ _ => rfl)
        { transaction, hashed := [] : Tracked } steps).mp current
  · apply along_of_forall (Recorded host) track_recorded _ recorded
    intro tracked step held distinguishes
    constructor
    · exact fresh_of_returnsCurrent tracked step held distinguishes
    · exact returnsCurrent_of_fresh tracked step held

/-- The digest of an empty transaction with nonce one. -/
def digestOfNonceOne : Bytes 32 :=
  Bytes.ofNat 32
    0x74F8D4510C0CBA494E0E433CD2C511FF8CCF845DD1892DAE1140972F382EDF7B

/-- A host that knows these two digests. -/
def nonceHost : Host :=
  Host.ofTables
    [(List.replicate 28 0, emptyTransactionDigest),
      (0 :: 1 :: List.replicate 26 0, digestOfNonceOne)]
    []

/-- Asked for the first time, the hash is that of the present bytes. -/
theorem getHash_current_along_history_once :
    Along (next nonceHost) (ReturnsCurrent nonceHost) emptyTransaction
      [(⟨.ample, true, .setNonce 1⟩ :
          Step (Curve.basePoint fun _ => none)),
        ⟨.ample, true, .getHash⟩] := by
  apply
    (getHash_current_along_history
      (show create .ample 0 = .ok emptyTransaction from rfl) _).1
  refine ⟨?_, ?_, trivial⟩
  · intro isGet
    cases isGet
  · intro _
    exact .inl rfl

/-- The hash is not computed anew when the nonce has changed. -/
theorem getHash_keeps_stale_hash :
    ¬∀ (host : Host) (alloc : Allocator) (time : UInt32)
        (transaction : Transaction)
        (steps : List (Step (Curve.basePoint fun _ => none))),
      create alloc time = .ok transaction →
        Along (next host) (ReturnsCurrent host) transaction steps := by
  intro always
  have along :=
    always nonceHost .ample 0 emptyTransaction
      [⟨.ample, true, .getHash⟩, ⟨.ample, true, .setNonce 1⟩,
        ⟨.ample, true, .getHash⟩] rfl
  have first :
      getHash nonceHost .ample emptyTransaction =
        (.ok emptyTransactionDigest,
          { emptyTransaction with hash := emptyTransactionDigest }) := by
    have answered :
        (getHash nonceHost .ample emptyTransaction).1.toOption =
          some emptyTransactionDigest := by
      decide +kernel
    rw [getHash_of_zero rfl] at answered ⊢
    rcases @calculateHash_cases nonceHost .ample emptyTransaction
      with ⟨reason, failed⟩ | hashed
    · rw [failed] at answered
      cases answered
    · rw [hashed] at answered ⊢
      rw [Option.some.inj answered]
  have stored :
      next nonceHost emptyTransaction
          (⟨.ample, true, .getHash⟩ :
            Step (Curve.basePoint fun _ => none)) =
        { emptyTransaction with hash := emptyTransactionDigest } := by
    rw [next, perform, Call.discard_state]
    exact congrArg Prod.snd first
  have last := along.2.2.1
  rw [stored] at last
  have stale :
      emptyTransactionDigest =
        nonceHost.sha256Digest
          (unsignedBytes { emptyTransaction with nonce := 1 }) :=
    last _ _ rfl (getHash_of_cached (by decide))
  revert stale
  decide

end NeoC.Transaction
