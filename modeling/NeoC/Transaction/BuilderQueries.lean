import NeoC.Transaction.BuilderHistory

/-!
# What a query does to the builder

`calculate_fees` builds a transaction to measure it, and `get_hash` builds
one to hash it if none was built before.  Building moves the signers out of
the builder, so a query that gets as far as the first signer changes what is
built next.  The one question that cannot do this is the hash of a
transaction that is still there.

The number of signers the builder holds never grows under a query, and a
query that takes a signer makes it smaller.  That is why no later query can
repair what an earlier one did.
-/

namespace NeoC.TxBuilder

open Foundation

/-! ## Queries and what they may not change -/

/-- A query together with what it finds around it. -/
structure QueryStep where
  around : Surroundings
  query : Query

/-- The builder after a query. -/
def nextQuery (host : Host) (builder : TxBuilder) (step : QueryStep) :
    TxBuilder :=
  (ask (step.around.host host) step.around.alloc step.around.time step.query
    builder).2

/-- The query reads the built transaction after it was freed. -/
def ReadsFreed (builder : TxBuilder) (step : QueryStep) : Prop :=
  step.query = .getHash ∧ builder.built = .freed

/-- Everything that was put into the builder is there as before. -/
structure SameContents (before after : TxBuilder) : Prop where
  version : after.version = before.version
  nonce : after.nonce = before.nonce
  validUntilBlock : after.validUntilBlock = before.validUntilBlock
  systemFee : after.systemFee = before.systemFee
  networkFee : after.networkFee = before.networkFee
  script : after.script = before.script
  attributes : after.attributes = before.attributes
  signers : after.signers = before.signers

/-- The unsigned serialization of what is built, if anything is. -/
def unsignedBuild (alloc : Allocator) (time : UInt32)
    (builder : TxBuilder) : Option (List UInt8) :=
  (buildUnsigned alloc time builder).1.toOption.map Transaction.unsignedBytes

/-- No query reads freed memory, and what is built stays the same. -/
structure Unaffected (host : Host) (builder : TxBuilder)
    (queries : List QueryStep) : Prop where
  legal :
    Along (nextQuery host) (fun builder step => ¬ReadsFreed builder step)
      builder queries
  contents :
    SameContents builder (finalState (nextQuery host) builder queries)
  build :
    ∀ alloc time,
      unsignedBuild alloc time
          (finalState (nextQuery host) builder queries) =
        unsignedBuild alloc time builder

/-- A build gets as far as moving the first signer. -/
structure TakesSigner (alloc : Allocator) (builder : TxBuilder) : Prop where
  script : builder.script.content.length ≠ 0
  validUntilBlock : builder.validUntilBlock ≠ 0
  signer : ∃ signer rest, builder.signers = some signer :: rest
  transaction : alloc.neocGrants Transaction.structSize = true
  pointer : alloc.neocGrants Transaction.pointerSize = true

/--
The query does not build, or its build fails before the first signer, and it
does not read freed memory.
-/
def Harmless (builder : TxBuilder) (step : QueryStep) : Prop :=
  match step.query with
  | .calculateFees => ¬TakesSigner step.around.alloc builder
  | .getHash =>
      builder.built ≠ .freed ∧
        (builder.built = .null → ¬TakesSigner step.around.alloc builder)

/-! ## A build and the signers -/

section Building

variable {alloc : Allocator} {time : UInt32}

/-- The number of signers the builder still holds. -/
def held (builder : TxBuilder) : Nat :=
  builder.signers.countP Option.isSome

theorem transferSigners_held_le
    (signers : List (Option Signer)) (transaction : Transaction) :
    (transferSigners alloc signers transaction).2.countP Option.isSome ≤
      signers.countP Option.isSome := by
  induction signers generalizing transaction with
  | nil => exact le_rfl
  | cons entry rest induction =>
      cases entry with
      | none => exact le_rfl
      | some signer =>
          rw [transferSigners]
          split
          · exact le_rfl
          · rename_i transaction' _
            have fewer := induction transaction'
            rw [List.countP_cons_of_neg (by simp),
              List.countP_cons_of_pos rfl]
            exact fewer.trans (Nat.le_succ _)

/-- With a grant for the array, the first signer is moved. -/
theorem transferSigners_held_lt
    (granted : alloc.neocGrants Transaction.pointerSize = true)
    {transaction : Transaction} (blank : transaction.signers = [])
    (signer : Signer) (rest : List (Option Signer)) :
    (transferSigners alloc (some signer :: rest) transaction).2.countP
        Option.isSome <
      (some signer :: rest).countP Option.isSome := by
  have fewer :=
    @transferSigners_held_le alloc rest
      { transaction with signers := [signer] }
  rw [transferSigners, Transaction.addSigner_first blank, if_pos granted,
    List.countP_cons_of_neg (by simp), List.countP_cons_of_pos rfl]
  exact Nat.lt_succ_of_le fewer

/-- A loop that stops at the first entry leaves the array as it was. -/
theorem transferSigners_stuck
    {builder : TxBuilder} {transaction : Transaction}
    (blank : transaction.signers = [])
    (signed : builder.signers ≠ [])
    (stuck :
      ∀ signer rest,
        builder.signers = some signer :: rest →
          alloc.neocGrants Transaction.pointerSize = false) :
    ∃ reason,
      transferSigners alloc builder.signers transaction =
        (.error reason, builder.signers) := by
  rcases entries : builder.signers with _ | ⟨entry, rest⟩
  · exact absurd entries signed
  · cases entry with
    | none => exact ⟨_, rfl⟩
    | some signer =>
        have refused := stuck signer rest entries
        rw [transferSigners, Transaction.addSigner_first blank, refused]
        exact ⟨_, rfl⟩

/-- The setters touch no signer. -/
theorem setProperties_signers {builder : TxBuilder}
    (scripted : builder.script.content.length ≠ 0)
    {created : Transaction}
    (made : Transaction.create alloc time = .ok created) :
    (setProperties alloc builder created).2.signers = [] := by
  rw [setProperties_state scripted]
  exact (Transaction.create_blank made).2.1

/-- A build that does not get to the first signer changes nothing. -/
theorem buildUnsigned_of_not_takes {builder : TxBuilder}
    (keeps : ¬TakesSigner alloc builder) :
    ∃ reason, buildUnsigned alloc time builder = (.error reason, builder) := by
  rw [buildUnsigned]
  split
  · exact ⟨_, rfl⟩
  · rename_i scripted
    split
    · exact ⟨_, rfl⟩
    · rename_i valid
      split
      · exact ⟨_, rfl⟩
      · rename_i signed
        rcases created : Transaction.create alloc time with reason | made
        · exact ⟨reason, rfl⟩
        · have stuck :
              ∀ signer rest,
                builder.signers = some signer :: rest →
                  alloc.neocGrants Transaction.pointerSize = false := by
            intro signer rest entries
            by_contra granted
            exact
              keeps
                ⟨scripted, valid, ⟨signer, rest, entries⟩,
                  (Transaction.create_blank created).1,
                  Bool.eq_true_of_not_eq_false granted⟩
          rcases
            transferSigners_stuck (setProperties_signers scripted created)
              (fun empty => signed (by rw [empty]; rfl)) stuck with
            ⟨reason, stopped⟩
          dsimp only
          rw [stopped]
          exact ⟨reason, rfl⟩

/-- A build that gets to the first signer leaves fewer of them. -/
theorem buildUnsigned_of_takes {builder : TxBuilder}
    (takes : TakesSigner alloc builder) :
    (buildUnsigned alloc time builder).2.held < builder.held := by
  rcases takes.signer with ⟨signer, rest, entries⟩
  rcases created : Transaction.create alloc time with reason | made
  · rw [Transaction.create, if_pos takes.transaction] at created
    cases created
  · have fewer :=
      transferSigners_held_lt takes.pointer
        (setProperties_signers takes.script created) signer rest
    rw [← entries] at fewer
    rw [buildUnsigned, if_neg takes.script, if_neg takes.validUntilBlock,
      if_neg (by rw [entries]; exact Nat.succ_ne_zero _), created]
    dsimp only
    rcases transferred :
        transferSigners alloc builder.signers
          (setProperties alloc builder made).2 with
      ⟨reason | transaction, left⟩
    · rw [transferred] at fewer
      exact fewer
    · exact Nat.lt_of_le_of_lt (Nat.zero_le _) fewer

/-- What is built does not depend on what was built before. -/
theorem buildUnsigned_forgets (builder : TxBuilder)
    (built : BuiltTransaction) :
    (buildUnsigned alloc time { builder with built }).1 =
      (buildUnsigned alloc time builder).1 := by
  unfold buildUnsigned
  dsimp only
  split
  · rfl
  · split
    · rfl
    · split
      · rfl
      · rcases Transaction.create alloc time with reason | made
        · rfl
        · have same :
              setProperties alloc { builder with built } =
                setProperties alloc builder :=
            rfl
          dsimp only
          rw [same]
          rcases
            transferSigners alloc builder.signers
              (setProperties alloc builder made).2 with
            ⟨reason | transaction, left⟩
          · rfl
          · rfl

end Building

/-! ## One query -/

section Steps

variable {host : Host}

/-- The builders agree up to the contents of the built transaction. -/
structure Alike (before after : TxBuilder) : Prop where
  same : after = { before with built := after.built }
  null : after.built = .null ↔ before.built = .null
  freed : after.built = .freed ↔ before.built = .freed

theorem Alike.refl (builder : TxBuilder) : Alike builder builder :=
  ⟨rfl, Iff.rfl, Iff.rfl⟩

theorem Alike.trans {first second third : TxBuilder}
    (left : Alike first second) (right : Alike second third) :
    Alike first third := by
  refine ⟨?_, right.null.trans left.null, right.freed.trans left.freed⟩
  rw [right.same, left.same]

theorem Alike.takesSigner_iff {before after : TxBuilder}
    (alike : Alike before after) (alloc : Allocator) :
    TakesSigner alloc after ↔ TakesSigner alloc before := by
  rw [alike.same]
  constructor
  · rintro ⟨script, valid, signer, transaction, pointer⟩
    exact ⟨script, valid, signer, transaction, pointer⟩
  · rintro ⟨script, valid, signer, transaction, pointer⟩
    exact ⟨script, valid, signer, transaction, pointer⟩

/-- What is harmless stays harmless. -/
theorem Alike.harmless_iff {before after : TxBuilder}
    (alike : Alike before after) (step : QueryStep) :
    Harmless after step ↔ Harmless before step := by
  rcases step with ⟨around, query⟩
  cases query with
  | calculateFees => exact not_congr (alike.takesSigner_iff _)
  | getHash =>
      exact
        and_congr (not_congr alike.freed)
          (imp_congr alike.null (not_congr (alike.takesSigner_iff _)))

theorem calculateFees_signers (alloc : Allocator) (time : UInt32)
    (builder : TxBuilder) :
    (calculateFees alloc time builder).2.signers =
      (buildUnsigned alloc time builder).2.signers := by
  rw [calculateFees]
  rcases buildUnsigned alloc time builder with ⟨reason | transaction, left⟩
  · rfl
  · dsimp only
    split
    · rfl
    · rcases networkFeeOf alloc left builder.signers.length transaction with
        reason | fee
      · rfl
      · rfl

/-- Hashing changes nothing but the built transaction. -/
theorem hashBuilt_alike (alloc : Allocator) (builder : TxBuilder) :
    Alike builder (hashBuilt host alloc builder).2 := by
  rw [hashBuilt]
  split
  · exact Alike.refl builder
  · exact Alike.refl builder
  · rename_i transaction live
    refine ⟨rfl, ?_, ?_⟩
    · rw [live]
      exact ⟨nofun, nofun⟩
    · rw [live]
      exact ⟨nofun, nofun⟩

/-- The hash of a transaction that was never built needs a build. -/
theorem getHash_of_null {alloc : Allocator} {time : UInt32}
    {builder : TxBuilder} (null : builder.built = .null) :
    getHash host alloc time builder =
      (buildUnsigned alloc time >>= fun _ => hashBuilt host alloc)
        builder := by
  rw [getHash, null]

theorem getHash_of_not_null {alloc : Allocator} {time : UInt32}
    {builder : TxBuilder} (built : builder.built ≠ .null) :
    getHash host alloc time builder = hashBuilt host alloc builder := by
  rw [getHash]
  split
  · contradiction
  · rfl

/-- The signers that the hash of a new transaction leaves behind. -/
theorem getHash_signers {alloc : Allocator} {time : UInt32}
    {builder : TxBuilder} (null : builder.built = .null) :
    (getHash host alloc time builder).2.signers =
      (buildUnsigned alloc time builder).2.signers := by
  rw [getHash_of_null null]
  rcases ran : buildUnsigned alloc time builder with
    ⟨reason | transaction, left⟩
  · rw [Call.bind_of_error ran]
  · rw [Call.bind_of_ok ran, (hashBuilt_alike alloc left).same]

theorem nextQuery_calculateFees (around : Surroundings)
    (builder : TxBuilder) :
    nextQuery host builder ⟨around, .calculateFees⟩ =
      (calculateFees around.alloc around.time builder).2 :=
  Call.discard_state _ _

theorem nextQuery_getHash (around : Surroundings) (builder : TxBuilder) :
    nextQuery host builder ⟨around, .getHash⟩ =
      (getHash (around.host host) around.alloc around.time builder).2 :=
  Call.discard_state _ _

/-- A harmless query leaves the builder as it was. -/
theorem nextQuery_of_harmless {builder : TxBuilder} {step : QueryStep}
    (harmless : Harmless builder step) :
    Alike builder (nextQuery host builder step) := by
  rcases step with ⟨around, query⟩
  cases query with
  | calculateFees =>
      rcases buildUnsigned_of_not_takes harmless with ⟨reason, failed⟩
      rw [nextQuery_calculateFees, calculateFees, failed]
      exact Alike.refl builder
  | getHash =>
      rw [nextQuery_getHash]
      by_cases null : builder.built = .null
      · rcases buildUnsigned_of_not_takes (harmless.2 null) with
          ⟨reason, failed⟩
        rw [getHash_of_null null, Call.bind_of_error failed]
        exact Alike.refl builder
      · rw [getHash_of_not_null null]
        exact hashBuilt_alike around.alloc builder

/-- A query that is not harmless takes a signer or reads freed memory. -/
theorem nextQuery_of_not_harmless {builder : TxBuilder} {step : QueryStep}
    (legal : ¬ReadsFreed builder step)
    (harmful : ¬Harmless builder step) :
    (nextQuery host builder step).held < builder.held := by
  rcases step with ⟨around, query⟩
  cases query with
  | calculateFees =>
      have takes := not_not.mp harmful
      rw [nextQuery_calculateFees, held, calculateFees_signers]
      exact buildUnsigned_of_takes takes
  | getHash =>
      have live : builder.built ≠ .freed :=
        fun freed => legal ⟨rfl, freed⟩
      have takes :
          builder.built = .null ∧ TakesSigner around.alloc builder := by
        by_contra absent
        exact
          harmful
            ⟨live, fun null takes => absent ⟨null, takes⟩⟩
      rw [nextQuery_getHash, held, getHash_signers takes.1]
      exact buildUnsigned_of_takes takes.2

/-- No query gives the builder a signer. -/
theorem nextQuery_held_le {builder : TxBuilder} {step : QueryStep}
    (legal : ¬ReadsFreed builder step) :
    (nextQuery host builder step).held ≤ builder.held := by
  by_cases harmless : Harmless builder step
  · rw [(nextQuery_of_harmless harmless).same]
    exact le_rfl
  · exact (nextQuery_of_not_harmless legal harmless).le

end Steps

/-! ## Any number of queries -/

section Runs

variable {host : Host}

theorem finalState_held_le {builder : TxBuilder}
    {queries : List QueryStep}
    (legal :
      Along (nextQuery host) (fun builder step => ¬ReadsFreed builder step)
        builder queries) :
    (finalState (nextQuery host) builder queries).held ≤ builder.held :=
  finalState_invariant (fun reached => reached.held ≤ builder.held)
    (fun _ _ fewer legalStep => (nextQuery_held_le legalStep).trans fewer)
    le_rfl legal

/-- If no signer is gone in the end, every query was harmless. -/
theorem harmless_of_held {builder : TxBuilder} {queries : List QueryStep}
    (legal :
      Along (nextQuery host) (fun builder step => ¬ReadsFreed builder step)
        builder queries)
    (kept :
      (finalState (nextQuery host) builder queries).held = builder.held) :
    ∀ step ∈ queries, Harmless builder step := by
  induction queries generalizing builder with
  | nil => exact List.forall_mem_nil _
  | cons step rest induction =>
      rcases legal with ⟨legalStep, legalRest⟩
      have later := finalState_held_le legalRest
      have total :
          (finalState (nextQuery host) (nextQuery host builder step)
            rest).held = builder.held :=
        kept
      have harmless : Harmless builder step := by
        by_contra harmful
        have fewer := @nextQuery_of_not_harmless host _ _ legalStep harmful
        omega
      have alike := @nextQuery_of_harmless host _ _ harmless
      have unchanged :
          (nextQuery host builder step).held = builder.held := by
        rw [alike.same]
        rfl
      intro other member
      rcases List.mem_cons.mp member with rfl | member
      · exact harmless
      · exact
          (alike.harmless_iff other).mp
            (induction legalRest (total.trans unchanged.symm) other member)

theorem Alike.sameContents {before after : TxBuilder}
    (alike : Alike before after) :
    SameContents before after := by
  rw [alike.same]
  exact ⟨rfl, rfl, rfl, rfl, rfl, rfl, rfl, rfl⟩

/--
Queries, in any number and order, change nothing exactly when each of them
is harmless on the builder as it was before the first one.
-/
theorem queries_unaffected_iff
    (host : Host)
    (builder : TxBuilder)
    (queries : List QueryStep) :
    Unaffected host builder queries ↔
      ∀ step ∈ queries, Harmless builder step := by
  constructor
  · rintro ⟨legal, contents, -⟩
    apply harmless_of_held legal
    rw [held, contents.signers]
    rfl
  · intro harmless
    have guarded :
        Along (nextQuery host) (fun _ step => Harmless builder step)
          builder queries :=
      (along_const builder queries).mpr harmless
    have preserved :
        ∀ reached step,
          Alike builder reached → Harmless builder step →
            Alike builder (nextQuery host reached step) := by
      intro reached step alike harmlessStep
      exact
        alike.trans
          (nextQuery_of_harmless ((alike.harmless_iff step).mpr harmlessStep))
    have alike :=
      finalState_invariant (Alike builder) preserved (Alike.refl builder)
        guarded
    refine ⟨?_, alike.sameContents, ?_⟩
    · apply
        along_of_invariant (Alike builder) preserved ?_ (Alike.refl builder)
          guarded
      rintro reached ⟨around, query⟩ alikeReached harmlessStep ⟨rfl, freed⟩
      exact harmlessStep.1 (alikeReached.freed.mp freed)
    · intro alloc time
      rw [unsignedBuild, alike.same, buildUnsigned_forgets]
      rfl

/-- Asked for its fees, a builder that could build no longer can. -/
theorem calculateFees_empties_builder :
    (buildUnsigned .ample 0 (usualBuilder [])).1.isOk = true ∧
      (buildUnsigned .ample 0
        (finalState (nextQuery (Host.ofTables [] [])) (usualBuilder [])
          [⟨calm, .calculateFees⟩])).1.isOk = false ∧
      ¬Unaffected (Host.ofTables [] []) (usualBuilder [])
        [⟨calm, .calculateFees⟩] := by
  refine ⟨by decide +kernel, by decide +kernel, ?_⟩
  rintro ⟨-, contents, -⟩
  have gone :
      (finalState (nextQuery (Host.ofTables [] [])) (usualBuilder [])
        [⟨calm, .calculateFees⟩]).signers.length = 0 := by
    decide +kernel
  have there : (usualBuilder []).signers.length = 1 := by
    decide +kernel
  rw [contents.signers, there] at gone
  cases gone

end Runs

end NeoC.TxBuilder
