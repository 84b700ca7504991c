import NeoC.Transaction.History
import NeoC.Transaction.TransactionBuilder

/-!
# What a built transaction carries

A builder is taken through any sequence of calls and then asked for the
transaction.  Version, nonce, expiry, fees and signers always arrive.  The
script arrives if its copy could be allocated: that result is not looked at.
The attributes are never handed over, so they arrive if there are none.
-/

namespace NeoC.TxBuilder

open Foundation

variable {curve : Curve}

/-! ## Histories -/

/-- The calls that ask the builder something. -/
inductive Query where
  | calculateFees
  | getHash
deriving DecidableEq, Repr

/-- The calls of a history. -/
inductive Operation (curve : Curve) where
  | setVersion (version : UInt8)
  | setNonce (nonce : UInt32)
  | setValidUntilBlock (blockHeight : UInt32)
  | setValidUntilBlockFromRpc (height : Outcome UInt32) (increment : UInt32)
  | setScript (script : Buffer)
  | addSigner (signer : Signer)
  | addSignerFromAccount (account : Account curve) (scopes : UInt8)
  | setFirstSigner (account : Account curve)
  | addAttribute (attr : Attribute)
  | setHighPriority (highPriority : Bool)
  | addNetworkFee (fee : UInt64)
  | addSystemFee (fee : UInt64)
  | buildUnsigned
  | query (query : Query)

/-- Ask one question. -/
def ask (host : Host) (alloc : Allocator) (time : UInt32) :
    Query → Routine TxBuilder Unit
  | .calculateFees => do
      let _ ← calculateFees alloc time
      return ()
  | .getHash => do
      let _ ← getHash host alloc time
      return ()

/-- Make one call. -/
def perform (host : Host) (alloc : Allocator) (time : UInt32) :
    Operation curve → Routine TxBuilder Unit
  | .setVersion version => setVersion version
  | .setNonce nonce => setNonce nonce
  | .setValidUntilBlock blockHeight => setValidUntilBlock blockHeight
  | .setValidUntilBlockFromRpc height increment =>
      setValidUntilBlockFromRpc height increment
  | .setScript script => setScript alloc script
  | .addSigner signer => addSigner curve alloc signer
  | .addSignerFromAccount account scopes =>
      addSignerFromAccount alloc account scopes
  | .setFirstSigner account => setFirstSigner account
  | .addAttribute attr => addAttribute alloc attr
  | .setHighPriority highPriority => setHighPriority alloc highPriority
  | .addNetworkFee fee => addNetworkFee fee
  | .addSystemFee fee => addSystemFee fee
  | .buildUnsigned => do
      let _ ← buildUnsigned alloc time
      return ()
  | .query query => ask host alloc time query

/-- What a call finds around it. -/
structure Surroundings where
  alloc : Allocator
  time : UInt32
  /-- `neoc_crypto_init` has been called by now. -/
  cryptoInitialized : Bool

/-- The host as a call finds it. -/
def Surroundings.host (around : Surroundings) (host : Host) : Host :=
  { host with cryptoInitialized := around.cryptoInitialized }

/-- A call together with what it finds around it. -/
structure Step (curve : Curve) where
  around : Surroundings
  operation : Operation curve

/--
The builder after a step.  A step that touches freed or unset memory is
taken to leave the builder alone; the source promises nothing there.
-/
def next (host : Host) (builder : TxBuilder) (step : Step curve) :
    TxBuilder :=
  (perform (step.around.host host) step.around.alloc step.around.time
    step.operation builder).2

/-! ## What building does -/

section Building

variable {alloc : Allocator} {time : UInt32}

/-- The transaction the setters make, if there is a script to copy. -/
theorem setProperties_state {builder : TxBuilder}
    (scripted : builder.script.content.length ≠ 0)
    (transaction : Transaction) :
    (setProperties alloc builder transaction).2 =
      { transaction with
        version := builder.version
        nonce := builder.nonce
        validUntilBlock := builder.validUntilBlock
        systemFee := builder.systemFee
        networkFee := builder.networkFee
        script :=
          if alloc.neocGrants builder.script.len then builder.script
          else .null transaction.script.len } := by
  rcases builder with
    ⟨version, nonce, block, signers, systemFee, networkFee, slots, spare,
      blocks, script, built⟩
  cases script with
  | null count => exact absurd rfl scripted
  | items content =>
      have present : content.length ≠ 0 := scripted
      show
        (Transaction.setScript alloc (.items content) _).2 = _
      rw [Transaction.setScript, if_neg present]
      by_cases granted : alloc.neocGrants content.length = true
      · simp only [Slice.len, granted]
        rfl
      · simp only [Slice.len, granted]
        rfl

/-- The first signer was handed over, and then the others. -/
theorem transferSigners_cons_eq_ok {entry : Option Signer}
    {rest left : List (Option Signer)} {transaction result : Transaction}
    (transferred :
      transferSigners alloc (entry :: rest) transaction =
        (.ok result, left)) :
    ∃ signer value,
      entry = some signer ∧
        Transaction.addSigner alloc signer transaction =
          (.ok value,
            { transaction with
              signers := transaction.signers ++ [signer] }) ∧
        ∃ left',
          transferSigners alloc rest
              { transaction with
                signers := transaction.signers ++ [signer] } =
            (.ok result, left') := by
  cases entry with
  | none => cases transferred
  | some signer =>
      rw [transferSigners] at transferred
      rcases added : Transaction.addSigner alloc signer transaction with
        ⟨reason | value, transaction'⟩
      · rw [added] at transferred
        cases transferred
      · rw [added] at transferred
        injection transferred with outcome
        have appended := Transaction.addSigner_eq_ok added
        subst appended
        exact ⟨signer, value, rfl, added, _, Prod.ext outcome rfl⟩

/-- Each signer is put behind those that are there, and nothing else is. -/
theorem transferSigners_eq_ok
    {signers left : List (Option Signer)}
    {transaction result : Transaction}
    (transferred :
      transferSigners alloc signers transaction = (.ok result, left)) :
    ∃ moved,
      signers = moved.map some ∧
        result =
          { transaction with signers := transaction.signers ++ moved } := by
  induction signers generalizing transaction left with
  | nil =>
      injection transferred with reached
      injection reached with equal
      exact ⟨[], rfl, by rw [List.append_nil, equal]⟩
  | cons entry rest induction =>
      rcases transferSigners_cons_eq_ok transferred with
        ⟨signer, value, rfl, -, left', later⟩
      rcases induction later with ⟨moved, same, reached⟩
      refine ⟨signer :: moved, by rw [same, List.map_cons], ?_⟩
      rw [reached]
      simp

/-- A transaction was built, so every check passed and all signers moved. -/
theorem buildUnsigned_eq_ok
    {builder after : TxBuilder} {transaction : Transaction}
    (built :
      buildUnsigned alloc time builder = (.ok transaction, after)) :
    builder.script.content.length ≠ 0 ∧
      ∃ created moved,
        Transaction.create alloc time = .ok created ∧
          builder.signers = moved.map some ∧
          transaction =
            { (setProperties alloc builder created).2 with
              signers :=
                (setProperties alloc builder created).2.signers ++
                  moved } := by
  rw [buildUnsigned] at built
  split at built
  · cases built
  · rename_i scripted
    split at built
    · cases built
    · split at built
      · cases built
      · rcases created : Transaction.create alloc time with reason | made
        · rw [created] at built
          cases built
        · rw [created] at built
          dsimp only at built
          rcases transferred :
              transferSigners alloc builder.signers
                (setProperties alloc builder made).2 with
            ⟨reason | result, left⟩
          · rw [transferred] at built
            cases built
          · rw [transferred] at built
            injection built with reached
            injection reached with equal
            rcases transferSigners_eq_ok transferred with
              ⟨moved, same, appended⟩
            exact
              ⟨scripted, made, moved, rfl, same, equal.symm.trans appended⟩

end Building

/-! ## What arrives -/

/-- The transaction has everything that was put into the builder. -/
structure Carries (builder : TxBuilder) (transaction : Transaction) :
    Prop where
  version : transaction.version = builder.version
  nonce : transaction.nonce = builder.nonce
  validUntilBlock : transaction.validUntilBlock = builder.validUntilBlock
  systemFee : transaction.systemFee = builder.systemFee
  networkFee : transaction.networkFee = builder.networkFee
  script : transaction.script = builder.script
  signers : transaction.signers.map some = builder.signers
  attributes :
    (transaction.attributes.map fun attr => (attr.type, some attr.data)) =
      builder.attributes

/-- What a transaction misses, it misses in its attributes or its script. -/
theorem carries_iff
    {alloc : Allocator} {time : UInt32}
    {builder after : TxBuilder} {transaction : Transaction}
    (built :
      buildUnsigned alloc time builder = (.ok transaction, after)) :
    Carries builder transaction ↔
      builder.slots = [] ∧
        alloc.neocGrants builder.script.len = true := by
  rcases buildUnsigned_eq_ok built with
    ⟨scripted, created, moved, made, signers, reached⟩
  rw [setProperties_state scripted] at reached
  rcases Transaction.create_blank made with ⟨-, blank⟩
  subst reached
  constructor
  · intro carries
    constructor
    · have sent := carries.attributes
      rw [blank.2] at sent
      exact List.map_eq_nil_iff.mp sent.symm
    · by_contra refused
      have script := carries.script
      simp only [refused] at script
      rw [← script] at scripted
      exact scripted rfl
  · rintro ⟨none, granted⟩
    refine ⟨rfl, rfl, rfl, rfl, rfl, ?_, ?_, ?_⟩
    · simp only [granted, if_true]
    · simp only [blank.1, List.nil_append]
      exact signers.symm
    · simp only [blank.2, attributes, none, List.map_nil]

/--
After any history, a transaction that is built carries everything exactly
when the builder holds no attribute and the copy of its script is granted.
-/
theorem buildUnsigned_carries_iff
    (host : Host)
    {alloc : Allocator}
    {nonce time : UInt32}
    {after : TxBuilder}
    {transaction : Transaction}
    (history : List (Step curve))
    (built :
      buildUnsigned alloc time
          (finalState (next host) (fresh nonce) history) =
        (.ok transaction, after)) :
    Carries (finalState (next host) (fresh nonce) history) transaction ↔
      (finalState (next host) (fresh nonce) history).slots = [] ∧
        alloc.neocGrants
          (finalState (next host) (fresh nonce) history).script.len =
            true :=
  carries_iff built

/-- A host on which nothing is refused. -/
def calm : Surroundings where
  alloc := .ample
  time := 0
  cryptoInitialized := true

/-- A script, a signer, and then some attributes. -/
def usualHistory (attributes : List Attribute) :
    List (Step (Curve.basePoint fun _ => none)) :=
  [⟨calm, .setScript (.items [0x40])⟩,
    ⟨calm, .addSigner
      { account := Bytes.zero 20
        scopes := WitnessScope.calledByEntry.toByte
        allowedContracts := []
        allowedGroups := []
        rules := .null 0 }⟩] ++
    attributes.map fun attr => ⟨calm, .addAttribute attr⟩

/-- The builder after that history. -/
def usualBuilder (attributes : List Attribute) : TxBuilder :=
  finalState (next (Host.ofTables [] [])) (fresh 0) (usualHistory attributes)

/-- A call that succeeds on inspection has a result. -/
theorem exists_of_isOk {α : Type} {call : Routine TxBuilder α}
    {builder : TxBuilder} (succeeds : (call builder).1.isOk = true) :
    ∃ value after, call builder = (.ok value, after) := by
  rcases ran : call builder with ⟨reason | value, after⟩
  · rw [ran] at succeeds
    cases succeeds
  · exact ⟨value, after, rfl⟩

/-- Without attributes everything arrives. -/
theorem buildUnsigned_carries_plain :
    ∃ transaction after,
      buildUnsigned .ample 0 (usualBuilder []) =
          (.ok transaction, after) ∧
        Carries (usualBuilder []) transaction := by
  rcases
    exists_of_isOk
      (show
        (buildUnsigned .ample 0 (usualBuilder [])).1.isOk = true by
        decide +kernel) with
    ⟨transaction, after, built⟩
  refine ⟨transaction, after, built, ?_⟩
  apply (buildUnsigned_carries_iff _ (usualHistory []) built).mpr
  exact ⟨rfl, by decide +kernel⟩

/-- A high priority attribute is lost without an error. -/
theorem buildUnsigned_loses_attribute :
    ∃ transaction after,
      buildUnsigned .ample 0
          (usualBuilder [⟨.highPriority, .null 0⟩]) =
          (.ok transaction, after) ∧
        ¬Carries (usualBuilder [⟨.highPriority, .null 0⟩]) transaction := by
  rcases
    exists_of_isOk
      (show
        (buildUnsigned .ample 0
          (usualBuilder [⟨.highPriority, .null 0⟩])).1.isOk = true by
        decide +kernel) with
    ⟨transaction, after, built⟩
  refine ⟨transaction, after, built, ?_⟩
  intro carries
  have empty := ((carries_iff built).mp carries).1
  have held :
      (usualBuilder [⟨.highPriority, .null 0⟩]).slots.length = 1 := by
    decide +kernel
  rw [empty] at held
  cases held

end NeoC.TxBuilder
