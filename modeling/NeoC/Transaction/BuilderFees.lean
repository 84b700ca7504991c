import NeoC.Transaction.BuilderSigners

/-!
# The fees of a built transaction

A builder has two fees, and each has a call that adds to it.  The system fee
starts at zero and the network fee at its default; nothing else touches them,
and building copies both.  So a built transaction carries the start and the
sum of what was added, as long as the sum stays in the range of the chain's
signed fee field.
-/

namespace NeoC.TxBuilder

open Foundation

variable {curve : Curve}

/-! ## The two fees -/

/-- The fees of a transaction. -/
inductive Fee where
  | system
  | network
deriving DecidableEq, Repr

namespace Fee

/-- The fee in a builder. -/
def held : Fee → TxBuilder → UInt64
  | .system => TxBuilder.systemFee
  | .network => TxBuilder.networkFee

/-- The fee in a transaction. -/
def carried : Fee → Transaction → UInt64
  | .system => Transaction.systemFee
  | .network => Transaction.networkFee

/-- What a builder is created with. -/
def start : Fee → UInt64
  | .system => 0
  | .network => defaultNetworkFee

/-- The amount that a call adds to the fee, if it is such a call. -/
def amount : Fee → Operation curve → Option UInt64
  | .system, .addSystemFee fee => some fee
  | .network, .addNetworkFee fee => some fee
  | _, _ => none

/-- The first fee that the signed field of the chain cannot hold. -/
def limit : Nat := 2 ^ 63

end Fee

/-- The amount by which a step adds to the fee, zero if it fails. -/
def gain (host : Host) (fee : Fee) (builder : TxBuilder)
    (step : Step curve) : Nat :=
  match fee.amount step.operation with
  | none => 0
  | some amount =>
      if
        (perform (step.around.host host) step.around.alloc step.around.time
          step.operation builder).1.isOk
      then amount.toNat
      else 0

/-- The sum of the amounts whose additions returned success. -/
def added (host : Host) (fee : Fee) :
    TxBuilder → List (Step curve) → Nat
  | _, [] => 0
  | builder, step :: rest =>
      gain host fee builder step + added host fee (next host builder step) rest

/-- An addition that would leave the range fails and changes nothing. -/
def RefusesExcess (host : Host) (fee : Fee) (builder : TxBuilder)
    (step : Step curve) : Prop :=
  ∀ amount,
    fee.amount step.operation = some amount →
      Fee.limit ≤ (fee.held builder).toNat + amount.toNat →
        (perform (step.around.host host) step.around.alloc step.around.time
            step.operation builder).1.isOk =
          false ∧
          fee.held (next host builder step) = fee.held builder

/-- The transaction carries the sums, and they fit the field of the chain. -/
structure CarriesSums (host : Host) (nonce : UInt32)
    (history : List (Step curve)) (transaction : Transaction) : Prop where
  sums :
    ∀ fee : Fee,
      (fee.carried transaction).toNat = added host fee (fresh nonce) history
  fits : ∀ fee : Fee, added host fee (fresh nonce) history < Fee.limit
  refuses :
    ∀ fee : Fee,
      Along (next host) (RefusesExcess host fee) (fresh nonce) history

/-! ## What a step does to a fee -/

section Steps

variable {host : Host}

theorem buildUnsigned_preserves_held (fee : Fee) (alloc : Allocator)
    (time : UInt32) :
    Call.Preserves fee.held (buildUnsigned alloc time) := by
  intro builder
  rw [buildUnsigned]
  split
  · rfl
  · split
    · rfl
    · split
      · rfl
      · rcases Transaction.create alloc time with reason | made
        · rfl
        · dsimp only
          rcases
            transferSigners alloc builder.signers
              (setProperties alloc builder made).2 with
            ⟨reason | transaction, left⟩
          · cases fee <;> rfl
          · cases fee <;> rfl

theorem hashBuilt_preserves_held (fee : Fee) (host : Host)
    (alloc : Allocator) :
    Call.Preserves fee.held (hashBuilt host alloc) := by
  intro builder
  rw [(hashBuilt_alike alloc builder).same]
  cases fee <;> rfl

theorem calculateFees_preserves_held (fee : Fee) (alloc : Allocator)
    (time : UInt32) :
    Call.Preserves fee.held (calculateFees alloc time) := by
  intro builder
  have kept := buildUnsigned_preserves_held fee alloc time builder
  have freed : Call.Preserves fee.held freeBuilt := by
    apply Call.Preserves.update
    intro _
    cases fee <;> rfl
  rw [calculateFees]
  rcases ran : buildUnsigned alloc time builder with
    ⟨reason | transaction, left⟩
  · rw [ran] at kept
    exact kept
  · rw [ran] at kept
    rw [← kept]
    dsimp only
    split
    · exact Call.Preserves.bind freed (fun _ => .halt _) left
    · exact
        Call.Preserves.bind (.lift _)
          (fun _ => .bind freed fun _ => .pure _) left

theorem getHash_preserves_held (fee : Fee) (host : Host) (alloc : Allocator)
    (time : UInt32) :
    Call.Preserves fee.held (getHash host alloc time) := by
  intro builder
  by_cases null : builder.built = .null
  · rw [getHash_of_null null]
    exact
      Call.Preserves.bind (buildUnsigned_preserves_held fee alloc time)
        (fun _ => hashBuilt_preserves_held fee host alloc) builder
  · rw [getHash_of_not_null null]
    exact hashBuilt_preserves_held fee host alloc builder

theorem addSigner_preserves_held (fee : Fee) (alloc : Allocator)
    (signer : Signer) :
    Call.Preserves fee.held (addSigner curve alloc signer) := by
  apply Call.Preserves.bind (.read _)
  intro signers
  refine .ite (.halt _) (.ite (.halt _) (.bind (.lift _) ?_))
  intro newSigner
  apply Call.Preserves.update
  intro _
  cases fee <;> rfl

theorem setFirstSigner_preserves_held (fee : Fee) (account : Account curve) :
    Call.Preserves fee.held (setFirstSigner account) := by
  apply Call.Preserves.bind (.read _)
  intro signers
  apply Call.Preserves.bind (.lift _)
  intro foundIndex
  cases foundIndex with
  | none => exact .halt _
  | some index =>
      apply Call.Preserves.update
      intro _
      cases fee <;> rfl

/-- A call that adds nothing to a fee leaves it alone. -/
theorem perform_preserves_held {fee : Fee} {operation : Operation curve}
    (idle : fee.amount operation = none) (alloc : Allocator)
    (time : UInt32) :
    Call.Preserves fee.held (perform host alloc time operation) := by
  cases operation with
  | setVersion version =>
      apply Call.Preserves.update
      intro _
      cases fee <;> rfl
  | setNonce nonce =>
      apply Call.Preserves.update
      intro _
      cases fee <;> rfl
  | setValidUntilBlock blockHeight =>
      apply setValidUntilBlock_preserves
      intro _ _
      cases fee <;> rfl
  | setValidUntilBlockFromRpc height increment =>
      apply setValidUntilBlockFromRpc_preserves
      intro _ _
      cases fee <;> rfl
  | setScript script =>
      apply setScript_preserves
      intro _ _
      cases fee <;> rfl
  | addSigner signer => exact addSigner_preserves_held fee alloc signer
  | addSignerFromAccount account scopes =>
      exact .bind (.lift _) fun _ => addSigner_preserves_held fee alloc _
  | setFirstSigner account => exact setFirstSigner_preserves_held fee account
  | addAttribute attr =>
      apply addAttribute_preserves
      intro _ _ _ _
      cases fee <;> rfl
  | setHighPriority highPriority =>
      apply setHighPriority_preserves
      intro _ _ _ _
      cases fee <;> rfl
  | addNetworkFee amount =>
      cases fee with
      | system => exact .update fun _ => rfl
      | network => cases idle
  | addSystemFee amount =>
      cases fee with
      | system => cases idle
      | network => exact .update fun _ => rfl
  | buildUnsigned =>
      exact
        .bind (buildUnsigned_preserves_held fee alloc time) fun _ => .pure ()
  | query query =>
      cases query with
      | calculateFees =>
          exact
            .bind (calculateFees_preserves_held fee alloc time)
              fun _ => .pure ()
      | getHash =>
          exact
            .bind (getHash_preserves_held fee host alloc time)
              fun _ => .pure ()

/-- An addition returns success and wraps around. -/
theorem perform_of_amount {fee : Fee} {operation : Operation curve}
    {amount : UInt64} (adds : fee.amount operation = some amount)
    (alloc : Allocator) (time : UInt32) (builder : TxBuilder) :
    (perform host alloc time operation builder).1 = .ok () ∧
      fee.held (perform host alloc time operation builder).2 =
        fee.held builder + amount := by
  cases fee with
  | system =>
      cases operation <;> cases adds
      exact ⟨rfl, rfl⟩
  | network =>
      cases operation <;> cases adds
      exact ⟨rfl, rfl⟩

/-- In range, a step adds its gain to a fee. -/
theorem next_held_of_lt {fee : Fee} {builder : TxBuilder} {step : Step curve}
    (inRange :
      (fee.held builder).toNat + gain host fee builder step < 2 ^ 64) :
    (fee.held (next host builder step)).toNat =
      (fee.held builder).toNat + gain host fee builder step := by
  rcases adds : fee.amount step.operation with - | amount
  · have preserved :
        Call.Preserves fee.held
          (perform (step.around.host host) step.around.alloc
            step.around.time step.operation) :=
      perform_preserves_held adds step.around.alloc step.around.time
    have kept := preserved builder
    simp only [next, gain, adds, kept, Nat.add_zero]
  · rcases
      @perform_of_amount curve (step.around.host host) _ _ _ adds
        step.around.alloc step.around.time builder with
      ⟨succeeded, held⟩
    simp only [gain, adds, succeeded] at inRange ⊢
    rw [next, held, UInt64.toNat_add]
    exact Nat.mod_eq_of_lt inRange

/-- In range, a run adds the sum of its gains to a fee. -/
theorem finalState_held {fee : Fee} {builder : TxBuilder}
    {history : List (Step curve)}
    (inRange :
      (fee.held builder).toNat + added host fee builder history < 2 ^ 64) :
    (fee.held (finalState (next host) builder history)).toNat =
      (fee.held builder).toNat + added host fee builder history := by
  induction history generalizing builder with
  | nil => rfl
  | cons step rest induction =>
      rw [added, ← Nat.add_assoc] at inRange
      have first := next_held_of_lt (Nat.lt_of_add_right_lt inRange)
      rw [← first] at inRange
      rw [finalState, induction inRange, first, added, Nat.add_assoc]

end Steps

/-! ## What a built transaction carries -/

theorem buildUnsigned_carried {alloc : Allocator} {time : UInt32}
    {builder after : TxBuilder} {transaction : Transaction} (fee : Fee)
    (built :
      buildUnsigned alloc time builder = (.ok transaction, after)) :
    fee.carried transaction = fee.held builder := by
  rcases buildUnsigned_eq_ok built with
    ⟨scripted, created, moved, made, signers, reached⟩
  rw [reached, setProperties_state scripted]
  cases fee <;> rfl

/-- Every addition of the history returned success. -/
def AdditionsSucceed (host : Host) (fee : Fee) (builder : TxBuilder)
    (step : Step curve) : Prop :=
  fee.amount step.operation ≠ none →
    (perform (step.around.host host) step.around.alloc step.around.time
      step.operation builder).1 = .ok ()

/--
While a fee with its start stays in the range of the chain's field, every
addition to it succeeds, and a transaction that is built carries the start
and the sum of the amounts.
-/
theorem built_fee_eq_start_add
    (host : Host)
    (fee : Fee)
    {alloc : Allocator}
    {nonce time : UInt32}
    {after : TxBuilder}
    {transaction : Transaction}
    (history : List (Step curve))
    (inRange :
      fee.start.toNat + added host fee (fresh nonce) history < Fee.limit)
    (built :
      buildUnsigned alloc time
          (finalState (next host) (fresh nonce) history) =
        (.ok transaction, after)) :
    Along (next host) (AdditionsSucceed host fee) (fresh nonce) history ∧
      (fee.carried transaction).toNat =
        fee.start.toNat + added host fee (fresh nonce) history ∧
      (fee.carried transaction).toNat < Fee.limit := by
  have start : fee.held (fresh nonce) = fee.start := by cases fee <;> rfl
  have sum :
      (fee.carried transaction).toNat =
        fee.start.toNat + added host fee (fresh nonce) history := by
    rw [buildUnsigned_carried fee built, finalState_held, start]
    rw [start]
    exact Nat.lt_trans inRange (by decide)
  refine ⟨?_, sum, sum ▸ inRange⟩
  apply along_of_forall (fun _ => True) (fun _ _ _ => trivial) ?_ trivial
  intro builder step _ adds
  rcases Option.ne_none_iff_exists'.mp adds with ⟨amount, adds⟩
  exact (perform_of_amount adds _ _ builder).1

/-- A script, a signer, and then some calls. -/
def feeHistory
    (calls : List (Operation (Curve.basePoint fun _ => none))) :
    List (Step (Curve.basePoint fun _ => none)) :=
  usualHistory [] ++ calls.map fun call => ⟨calm, call⟩

/-- The builder after that history. -/
def feeBuilder
    (calls : List (Operation (Curve.basePoint fun _ => none))) : TxBuilder :=
  finalState (next (Host.ofTables [] [])) (fresh 0) (feeHistory calls)

/-- Two additions to the network fee arrive on top of the default. -/
theorem built_fee_eq_start_add_twice :
    ∃ transaction after,
      buildUnsigned .ample 0
          (feeBuilder [.addNetworkFee 7, .addNetworkFee 5]) =
          (.ok transaction, after) ∧
        (Fee.network.carried transaction).toNat = 100012 := by
  rcases
    exists_of_isOk
      (show
        (buildUnsigned .ample 0
          (feeBuilder [.addNetworkFee 7, .addNetworkFee 5])).1.isOk = true by
        decide) with
    ⟨transaction, after, built⟩
  have sum :
      added (Host.ofTables [] []) .network (fresh 0)
          (feeHistory [.addNetworkFee 7, .addNetworkFee 5]) =
        12 := by
    decide
  refine ⟨transaction, after, built, ?_⟩
  rcases
    built_fee_eq_start_add (Host.ofTables [] []) .network
      (feeHistory [.addNetworkFee 7, .addNetworkFee 5])
      (by rw [sum]; decide) built with
    ⟨-, carried, -⟩
  rw [carried, sum]
  decide

/--
Without an addition the network fee is its default.  Two additions to the
system fee that leave the range succeed, and it is one.
-/
theorem built_fees_miss_sums :
    (∃ transaction after,
        buildUnsigned .ample 0 (feeBuilder []) =
            (.ok transaction, after) ∧
          ¬CarriesSums (Host.ofTables [] []) 0 (feeHistory [])
            transaction) ∧
      ∃ transaction after,
        buildUnsigned .ample 0
            (feeBuilder [.addSystemFee 0xFFFFFFFFFFFFFFFF, .addSystemFee 2]) =
            (.ok transaction, after) ∧
          transaction.systemFee = 1 ∧
          ¬CarriesSums (Host.ofTables [] []) 0
            (feeHistory [.addSystemFee 0xFFFFFFFFFFFFFFFF, .addSystemFee 2])
            transaction := by
  constructor
  · rcases
      exists_of_isOk
        (show (buildUnsigned .ample 0 (feeBuilder [])).1.isOk = true
          by decide) with
      ⟨transaction, after, built⟩
    refine ⟨transaction, after, built, ?_⟩
    intro carries
    have sum := carries.sums .network
    rw [buildUnsigned_carried .network built] at sum
    have differs :
        (Fee.network.held (feeBuilder [])).toNat ≠
          added (Host.ofTables [] []) .network (fresh 0) (feeHistory []) := by
      decide
    exact differs sum
  · rcases
      exists_of_isOk
        (show
          (buildUnsigned .ample 0
            (feeBuilder
              [.addSystemFee 0xFFFFFFFFFFFFFFFF, .addSystemFee 2])).1.isOk = true by
          decide) with
      ⟨transaction, after, built⟩
    have carried := buildUnsigned_carried .system built
    have one :
        Fee.system.held
            (feeBuilder [.addSystemFee 0xFFFFFFFFFFFFFFFF, .addSystemFee 2]) =
          1 := by
      decide
    refine ⟨transaction, after, built, carried.trans one, ?_⟩
    intro carries
    have fits := carries.fits .system
    revert fits
    decide

end NeoC.TxBuilder
