import NeoC.Transaction.Transaction

/-!
# Histories of a transaction

A history is any sequence of calls on a transaction, successful or not.  Each
call sees its own allocator, and its own answer to whether the library has
been initialised, so a call may fail at any point of the history.

The lemmas of this module say what each call can do to the transaction.  What
holds of all histories is derived from them without looking at a call again.
-/

namespace NeoC.Transaction

open Foundation

variable {curve : Curve}

/-- The calls of a history. -/
inductive Operation (curve : Curve) where
  | setVersion (version : UInt8)
  | setNonce (nonce : UInt32)
  | setSystemFee (fee : UInt64)
  | setNetworkFee (fee : UInt64)
  | setValidUntilBlock (block : UInt32)
  | setScript (script : Buffer)
  | addSigner (signer : Signer)
  | addAttribute (attr : Attribute)
  | addWitness (witness : Witness)
  | calculateHash
  | sign (account : Account curve)
  | getHash

/-- Make one call. -/
def perform (host : Host) (alloc : Allocator) :
    Operation curve → Routine Transaction Unit
  | .setVersion version => setVersion version
  | .setNonce nonce => setNonce nonce
  | .setSystemFee fee => setSystemFee fee
  | .setNetworkFee fee => setNetworkFee fee
  | .setValidUntilBlock block => setValidUntilBlock block
  | .setScript script => setScript alloc script
  | .addSigner signer => addSigner alloc signer
  | .addAttribute attr => addAttribute alloc attr
  | .addWitness witness => addWitness alloc witness
  | .calculateHash => do
      let _ ← calculateHash host alloc
      return ()
  | .sign account => sign host alloc account
  | .getHash => do
      let _ ← getHash host alloc
      return ()

/-- A call together with what it finds around it. -/
structure Step (curve : Curve) where
  alloc : Allocator
  /-- `neoc_crypto_init` has been called by now. -/
  cryptoInitialized : Bool
  operation : Operation curve

/-- The host as a step finds it. -/
def Step.host (step : Step curve) (host : Host) : Host :=
  { host with cryptoInitialized := step.cryptoInitialized }

/-- The transaction after a step. -/
def next (host : Host) (transaction : Transaction) (step : Step curve) :
    Transaction :=
  (perform (step.host host) step.alloc step.operation transaction).2

/-! ## What a call can do -/

section Calls

variable {host : Host} {alloc : Allocator}

/-- A new transaction has no signers and no attributes. -/
theorem create_blank {time : UInt32} {transaction : Transaction}
    (created : create alloc time = .ok transaction) :
    alloc.neocGrants structSize = true ∧ transaction.signers = [] ∧
      transaction.attributes = [] := by
  rw [create] at created
  split at created
  · rename_i granted
    injection created with equal
    rw [← equal]
    exact ⟨granted, rfl, rfl⟩
  · cases created

theorem setScript_cases (script : Buffer) (transaction : Transaction) :
    (setScript alloc script transaction).2 = transaction ∨
      (∃ content,
        script = .items content ∧ alloc.neocGrants content.length = true ∧
          (setScript alloc script transaction).2 =
            { transaction with script := .items content }) ∨
      (alloc.neocGrants script.len = false ∧
        (setScript alloc script transaction).2 =
          { transaction with script := .null transaction.script.len }) := by
  cases script with
  | null count => exact .inl rfl
  | items content =>
      unfold setScript
      dsimp only
      split
      · exact .inl rfl
      · split
        · rename_i granted
          exact .inr (.inl ⟨content, rfl, granted, rfl⟩)
        · rename_i refused
          exact .inr (.inr ⟨Bool.not_eq_true _ ▸ refused, rfl⟩)

theorem addSigner_cases (signer : Signer) (transaction : Transaction) :
    (addSigner alloc signer transaction).2 = transaction ∨
      (addSigner alloc signer transaction).2 =
        { transaction with signers := transaction.signers ++ [signer] } := by
  rw [addSigner, Call.bind_of_ok (Call.read_run _ _)]
  split
  · exact .inl rfl
  · split
    · exact .inr rfl
    · exact .inl rfl

/-- The first signer is added if there is memory for the array. -/
theorem addSigner_first {transaction : Transaction}
    (blank : transaction.signers = []) (signer : Signer) :
    addSigner alloc signer transaction =
      if alloc.neocGrants pointerSize then
        (.ok (), { transaction with signers := [signer] })
      else
        (.error (.error .outOfMemory "Failed to resize signers"),
          transaction) := by
  rw [addSigner, Call.bind_of_ok (Call.read_run _ _), blank]
  split
  · contradiction
  · rw [List.length_nil, Nat.zero_add, Nat.one_mul]
    split
    · simp [blank]
    · rfl

theorem addSigner_eq_ok {signer : Signer} {transaction added : Transaction}
    {value : Unit}
    (ran : addSigner alloc signer transaction = (.ok value, added)) :
    added =
      { transaction with signers := transaction.signers ++ [signer] } := by
  rw [addSigner, Call.bind_of_ok (Call.read_run _ _)] at ran
  split at ran
  · cases ran
  · split at ran
    · injection ran with _ equal
      exact equal.symm
    · cases ran

/-- A signer was added, so there was memory for the array. -/
theorem addSigner_granted {signer : Signer} {transaction added : Transaction}
    {value : Unit}
    (ran : addSigner alloc signer transaction = (.ok value, added)) :
    alloc.neocGrants ((transaction.signers.length + 1) * pointerSize) =
      true := by
  rw [addSigner, Call.bind_of_ok (Call.read_run _ _)] at ran
  split at ran
  · cases ran
  · split at ran
    · assumption
    · cases ran

theorem addAttribute_cases (attr : Attribute) (transaction : Transaction) :
    (addAttribute alloc attr transaction).2 = transaction ∨
      (addAttribute alloc attr transaction).2 =
        { transaction with
          attributes := transaction.attributes ++ [attr] } := by
  rw [addAttribute, Call.bind_of_ok (Call.read_run _ _)]
  split
  · exact .inr rfl
  · exact .inl rfl

theorem addWitness_cases (witness : Witness) (transaction : Transaction) :
    (∃ reason,
      addWitness alloc witness transaction = (.error reason, transaction)) ∨
      addWitness alloc witness transaction =
        (.ok (),
          { transaction with
            witnesses := transaction.witnesses ++ [witness] }) := by
  rw [addWitness, Call.bind_of_ok (Call.read_run _ _)]
  split
  · exact .inr rfl
  · exact .inl ⟨_, rfl⟩

/-- The hash of the unsigned bytes is returned and kept, or nothing is. -/
theorem calculateHash_cases (transaction : Transaction) :
    (∃ reason,
      calculateHash host alloc transaction = (.error reason, transaction)) ∨
      calculateHash host alloc transaction =
        (.ok (host.sha256Digest transaction.unsignedBytes),
          { transaction with
            hash := host.sha256Digest transaction.unsignedBytes }) := by
  rw [calculateHash, Call.bind_of_ok (Call.read_run _ _)]
  rw [id]
  rcases built : buildSerialized alloc transaction false with reason | data
  · exact .inl ⟨reason, Call.lift_error_bind _ _ _⟩
  · rw [Call.lift_ok_bind]
    rcases hashed : host.sha256 data with reason | digest
    · exact .inl ⟨reason, Call.lift_error_bind _ _ _⟩
    · right
      rw [Call.lift_ok_bind, ← buildSerialized_unsigned built,
        ← Host.sha256_eq_ok hashed]
      rfl

theorem getHash_of_cached {transaction : Transaction}
    (cached : transaction.hash ≠ Bytes.zero 32) :
    getHash host alloc transaction = (.ok transaction.hash, transaction) := by
  rw [getHash, Call.bind_of_ok (Call.read_run _ _), if_neg cached]
  rfl

theorem getHash_of_zero {transaction : Transaction}
    (zero : transaction.hash = Bytes.zero 32) :
    getHash host alloc transaction =
      calculateHash host alloc transaction := by
  rw [getHash, Call.bind_of_ok (Call.read_run _ _), if_pos zero]

/-- A witness made from a signature has both its scripts. -/
theorem createFromSignature_eq_ok {signature publicKey : List UInt8}
    {witness : Witness}
    (created :
      Witness.createFromSignature alloc signature publicKey = .ok witness) :
    witness =
      { invocationScript := .items (0x40 :: signature),
        verificationScript := .items (0x21 :: publicKey ++ [0xAC]) } := by
  unfold Witness.createFromSignature at created
  split at created
  · cases created
  · rename_i invocationGranted
    split at created
    · cases created
    · rename_i verificationGranted
      have invocation :
          Witness.copyScript alloc (.items (0x40 :: signature))
              "Failed to allocate invocation script" =
            .ok (.items (0x40 :: signature)) := by
        rw [Witness.copyScript, if_neg (by simp), List.length_cons,
          Nat.add_comm, if_pos (by simpa using invocationGranted)]
      have verification :
          Witness.copyScript alloc (.items (0x21 :: publicKey ++ [0xAC]))
              "Failed to allocate verification script" =
            .ok (.items (0x21 :: publicKey ++ [0xAC])) := by
        rw [Witness.copyScript, if_neg (by simp), List.length_append,
          List.length_cons, List.length_singleton,
          Nat.add_comm publicKey.length 1,
          if_pos (by simpa using verificationGranted)]
      unfold Witness.create at created
      split at created
      · cases created
      · rw [invocation, verification] at created
        injection created with equal
        exact equal.symm

/-- The witness that signing appends. -/
def signatureWitness (signature : Bytes 64) (publicKey : Bytes 33) :
    Witness where
  invocationScript := .items (0x40 :: signature.val)
  verificationScript := .items (0x21 :: publicKey.val ++ [0xAC])

/-- After hashing, signing appends one witness or leaves what it finds. -/
theorem sign_of_hashed {transaction hashedTransaction : Transaction}
    {digest : Hash256}
    (hashed :
      calculateHash host alloc transaction =
        (.ok digest, hashedTransaction))
    (account : Account curve) :
    (∃ reason,
      sign host alloc account transaction =
        (.error reason, hashedTransaction)) ∨
      ∃ keyPair signature,
        account.keyPair = some keyPair ∧
          account.sign alloc digest = .ok signature ∧
          sign host alloc account transaction =
            (.ok (),
              { hashedTransaction with
                witnesses :=
                  hashedTransaction.witnesses ++
                    [signatureWitness signature keyPair.getPublicKey] }) := by
  rw [sign, Call.bind_of_ok hashed]
  rcases signed : account.sign alloc digest with reason | signature
  · exact .inl ⟨reason, Call.lift_error_bind _ _ _⟩
  · rw [Call.lift_ok_bind]
    cases hasKeys : account.keyPair with
    | none => exact .inl ⟨_, rfl⟩
    | some keyPair =>
        dsimp only
        rcases created :
            Witness.createFromSignature alloc signature.val
              keyPair.getPublicKey.val with
          reason | witness
        · exact .inl ⟨reason, Call.lift_error_bind _ _ _⟩
        · rw [Call.lift_ok_bind, createFromSignature_eq_ok created]
          rcases @addWitness_cases alloc _ _ with
            ⟨reason, failed⟩ | added
          · exact .inl ⟨reason, failed⟩
          · exact .inr ⟨keyPair, signature, rfl, rfl, added⟩

theorem sign_of_failed {transaction transaction' : Transaction}
    {reason : Halt}
    (failed :
      calculateHash host alloc transaction =
        (.error reason, transaction'))
    (account : Account curve) :
    sign host alloc account transaction = (.error reason, transaction') :=
  Call.bind_of_error failed

end Calls

/-! ## What a step can do -/

/-- The step computes the hash of the transaction and stores it. -/
def hashes (host : Host) (transaction : Transaction) (step : Step curve) :
    Bool :=
  match step.operation with
  | .calculateHash =>
      (calculateHash (step.host host) step.alloc transaction).1.isOk
  | .sign _ =>
      (calculateHash (step.host host) step.alloc transaction).1.isOk
  | .getHash =>
      decide (transaction.hash = Bytes.zero 32) &&
        (calculateHash (step.host host) step.alloc transaction).1.isOk
  | _ => false

/--
What a step can make of a transaction.  A step that hashes may add a witness,
but signing keeps the hash it stored even if it fails afterwards.
-/
inductive Change (host : Host) (transaction : Transaction)
    (step : Step curve) : Transaction → Prop where
  | same (idle : hashes host transaction step = false) :
      Change host transaction step transaction
  | header (idle : hashes host transaction step = false)
      (version : UInt8) (nonce : UInt32) (systemFee networkFee : UInt64)
      (validUntilBlock : UInt32) :
      Change host transaction step
        { transaction with
          version, nonce, systemFee, networkFee, validUntilBlock }
  | scriptSet {content : List UInt8}
      (isSet : step.operation = .setScript (.items content)) :
      Change host transaction step
        { transaction with script := .items content }
  | scriptLost {script : Buffer}
      (isSet : step.operation = .setScript script)
      (refused : step.alloc.neocGrants script.len = false) :
      Change host transaction step
        { transaction with script := .null transaction.script.len }
  | signerAdded {signer : Signer}
      (isAdd : step.operation = .addSigner signer) :
      Change host transaction step
        { transaction with signers := transaction.signers ++ [signer] }
  | attributeAdded {attr : Attribute}
      (isAdd : step.operation = .addAttribute attr) :
      Change host transaction step
        { transaction with attributes := transaction.attributes ++ [attr] }
  | witnessAdded {witness : Witness}
      (isAdd : step.operation = .addWitness witness) :
      Change host transaction step
        { transaction with witnesses := transaction.witnesses ++ [witness] }
  | hashed (stores : hashes host transaction step = true)
      {added : List Witness} (backed : ∀ witness ∈ added, witness.Backed) :
      Change host transaction step
        { transaction with
          hash := host.sha256Digest transaction.unsignedBytes,
          witnesses := transaction.witnesses ++ added }

section Changes

variable {host : Host} {transaction changed : Transaction}
  {step : Step curve}

/-- A hash that is computed is stored, with or without a witness. -/
theorem Change.stored (stores : hashes host transaction step = true) :
    Change host transaction step
      { transaction with
        hash := host.sha256Digest transaction.unsignedBytes } := by
  have change := Change.hashed stores (List.forall_mem_nil Witness.Backed)
  rw [List.append_nil] at change
  exact change

/-- Every step makes one of these changes. -/
theorem next_change (transaction : Transaction) (step : Step curve) :
    Change host transaction step (next host transaction step) := by
  rcases step with ⟨alloc, initialized, operation⟩
  cases operation with
  | setVersion version => exact .header rfl version _ _ _ _
  | setNonce nonce => exact .header rfl _ nonce _ _ _
  | setSystemFee fee => exact .header rfl _ _ fee _ _
  | setNetworkFee fee => exact .header rfl _ _ _ fee _
  | setValidUntilBlock block => exact .header rfl _ _ _ _ block
  | setScript script =>
      rw [next, perform]
      rcases setScript_cases script transaction with
        same | ⟨content, isSet, -, replaced⟩ | ⟨refused, lost⟩
      · rw [same]
        exact .same rfl
      · rw [replaced]
        exact .scriptSet (congrArg Operation.setScript isSet)
      · rw [lost]
        exact .scriptLost rfl refused
  | addSigner signer =>
      rw [next, perform]
      rcases addSigner_cases signer transaction with same | added
      · rw [same]
        exact .same rfl
      · rw [added]
        exact .signerAdded rfl
  | addAttribute attr =>
      rw [next, perform]
      rcases addAttribute_cases attr transaction with same | added
      · rw [same]
        exact .same rfl
      · rw [added]
        exact .attributeAdded rfl
  | addWitness witness =>
      rw [next, perform]
      rcases addWitness_cases witness transaction with
        ⟨reason, failed⟩ | added
      · rw [failed]
        exact .same rfl
      · rw [added]
        exact .witnessAdded rfl
  | calculateHash =>
      rw [next, perform, Call.discard_state]
      rcases calculateHash_cases transaction with ⟨reason, failed⟩ | hashed
      · rw [failed]
        exact .same (congrArg (fun ran => ran.1.isOk) failed)
      · rw [hashed]
        exact .stored (congrArg (fun ran => ran.1.isOk) hashed)
  | sign account =>
      rw [next, perform]
      rcases calculateHash_cases transaction with ⟨reason, failed⟩ | hashed
      · rw [sign_of_failed failed]
        exact .same (congrArg (fun ran => ran.1.isOk) failed)
      · have stores :
            hashes host transaction ⟨alloc, initialized, .sign account⟩ =
              true :=
          congrArg (fun ran => ran.1.isOk) hashed
        rcases sign_of_hashed hashed account with
          ⟨reason, failed⟩ | ⟨keyPair, signature, -, -, signed⟩
        · rw [failed]
          exact .stored stores
        · rw [signed]
          exact
            .hashed stores
              (List.forall_mem_singleton.mpr ⟨trivial, trivial⟩)
  | getHash =>
      rw [next, perform, Call.discard_state]
      by_cases zero : transaction.hash = Bytes.zero 32
      · rw [getHash_of_zero zero]
        rcases calculateHash_cases transaction with
          ⟨reason, failed⟩ | hashed
        · rw [failed]
          refine .same (Bool.and_eq_false_imp.mpr fun _ => ?_)
          exact congrArg (fun ran => ran.1.isOk) failed
        · rw [hashed]
          refine .stored (Bool.and_eq_true_iff.mpr ⟨?_, ?_⟩)
          · exact decide_eq_true zero
          · exact congrArg (fun ran => ran.1.isOk) hashed
      · rw [getHash_of_cached zero]
        refine .same (Bool.and_eq_false_imp.mpr fun isZero => ?_)
        exact absurd (of_decide_eq_true isZero) zero

/-- A step that does not hash leaves the stored hash alone. -/
theorem Change.hash_of_not_hashes
    (change : Change host transaction step changed)
    (idle : ¬hashes host transaction step = true) :
    changed.hash = transaction.hash := by
  cases change with
  | hashed stores backed => exact absurd stores idle
  | _ => rfl

/-- A step that hashes stores the hash of the bytes it finds. -/
theorem Change.hash_of_hashes
    (change : Change host transaction step changed)
    (stores : hashes host transaction step = true) :
    changed.hash = host.sha256Digest transaction.unsignedBytes := by
  cases change with
  | hashed _ backed => rfl
  | same idle => exact absurd stores (Bool.eq_false_iff.mp idle)
  | header idle => exact absurd stores (Bool.eq_false_iff.mp idle)
  | scriptSet isSet => simp [hashes, isSet] at stores
  | scriptLost isSet refused => simp [hashes, isSet] at stores
  | signerAdded isAdd => simp [hashes, isAdd] at stores
  | attributeAdded isAdd => simp [hashes, isAdd] at stores
  | witnessAdded isAdd => simp [hashes, isAdd] at stores

/-- Only `neoc_transaction_add_signer` changes the signers. -/
theorem Change.signers_cases
    (change : Change host transaction step changed) :
    changed.signers = transaction.signers ∨
      ∃ signer,
        step.operation = .addSigner signer ∧
          changed.signers = transaction.signers ++ [signer] := by
  cases change with
  | signerAdded isAdd => exact .inr ⟨_, isAdd, rfl⟩
  | _ => exact .inl rfl

end Changes

end NeoC.Transaction
