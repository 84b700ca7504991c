import NeoC.Transaction.Sign

/-!
# Signing for several accounts

`neoc_transaction_sign_multi` signs for one account after another and stops
at the first that fails.  It takes nothing back: the witnesses of the accounts
before that one stay on the transaction.  Every account signs the same hash,
since the unsigned bytes do not change on the way.
-/

namespace NeoC.Transaction

open Foundation

variable {curve : Curve}

/--
`neoc_transaction_sign_multi`.  Each account comes with the allocator that its
signature meets.
-/
def signMulti (host : Host) (accounts : List (Allocator × Account curve)) :
    Routine Transaction Unit :=
  if accounts = [] then
    errorSet .invalidArgument "Invalid arguments"
  else
    Call.forEach (fun account => sign host account.1 account.2) accounts

/-- The witness of an account for the unsigned bytes of a transaction. -/
def WitnessOf (host : Host) (transaction : Transaction)
    (account : Allocator × Account curve) (witness : Witness) : Prop :=
  ∃ keyPair signature,
    account.2.keyPair = some keyPair ∧
      account.2.sign account.1
          (host.sha256Digest transaction.unsignedBytes) = .ok signature ∧
        witness = signatureWitness signature keyPair.getPublicKey

/-- One signature appends a witness, or leaves the witnesses as they are. -/
theorem sign_emits {host : Host} {transaction : Transaction}
    (account : Allocator × Account curve) (state : Transaction)
    (unsigned : state.unsignedBytes = transaction.unsignedBytes) :
    (∃ reason state',
      sign host account.1 account.2 state = (.error reason, state') ∧
        state'.witnesses = state.witnesses) ∨
    ∃ witness state',
      sign host account.1 account.2 state = (.ok (), state') ∧
        state'.unsignedBytes = transaction.unsignedBytes ∧
          WitnessOf host transaction account witness ∧
            state'.witnesses = state.witnesses ++ [witness] := by
  rcases @calculateHash_cases host account.1 state with
    ⟨reason, failed⟩ | hashed
  · exact .inl ⟨reason, state, sign_of_failed failed account.2, rfl⟩
  · rcases sign_of_hashed hashed account.2 with
      ⟨reason, failed⟩ | ⟨keyPair, signature, hasKeys, bySign, appended⟩
    · exact .inl ⟨reason, _, failed, rfl⟩
    · rw [unsigned] at bySign
      exact
        .inr
          ⟨_, _, appended, unsigned, ⟨keyPair, signature, hasKeys, bySign, rfl⟩,
            rfl⟩

/--
Signing for several accounts appends one witness for each account in their
order, up to the first whose signature fails; the witnesses that were there
are kept, and the error is the one of that signature.
-/
theorem signMulti_signs
    (host : Host)
    (accounts : List (Allocator × Account curve))
    (transaction : Transaction) :
    ((signMulti host accounts transaction).1 = .ok () ∧
      ∃ witnesses,
        List.Forall₂ (WitnessOf host transaction) accounts witnesses ∧
          (signMulti host accounts transaction).2.witnesses =
            transaction.witnesses ++ witnesses) ∨
    ∃ reason,
      (signMulti host accounts transaction).1 = .error reason ∧
        (accounts = [] ∧
          reason = .error .invalidArgument "Invalid arguments" ∧
            (signMulti host accounts transaction).2 = transaction ∨
        ∃ signed failing rest witnesses state,
          accounts = signed ++ failing :: rest ∧
            List.Forall₂ (WitnessOf host transaction) signed witnesses ∧
              Call.forEach (fun account => sign host account.1 account.2)
                    signed transaction =
                  (.ok (), state) ∧
                state.witnesses = transaction.witnesses ++ witnesses ∧
                  sign host failing.1 failing.2 state =
                      (.error reason,
                        (signMulti host accounts transaction).2) ∧
                    (signMulti host accounts transaction).2.witnesses =
                      transaction.witnesses ++ witnesses) := by
  by_cases none : accounts = []
  · right
    rw [signMulti, if_pos none]
    exact ⟨_, rfl, .inl ⟨none, rfl, rfl⟩⟩
  · rw [signMulti, if_neg none]
    have step := @sign_emits curve host transaction
    rcases Call.forEach_emits step accounts rfl with
      ⟨signed, witnesses, state, made, ran, appended, ended⟩
    rcases ended with
      rfl | ⟨reason, failing, rest, final, whole, failed, halted, unchanged⟩
    · left
      rw [ran]
      exact ⟨rfl, witnesses, made, appended⟩
    · right
      rw [halted]
      exact
        ⟨reason, rfl,
          .inr
            ⟨signed, failing, rest, witnesses, state, whole, made, ran,
              appended, failed, unchanged.trans appended⟩⟩

/-- An account without keys. -/
def keylessAccount : Account baseCurve where
  scriptHash := baseScriptHash.reverse
  keyPair := none

/-- The witness of the first account stays when the second one fails. -/
theorem signMulti_keeps_first :
    (signMulti baseHost
        [(.ample, baseAccount), (.ample, keylessAccount)]
        emptyTransaction).1.isOk = false ∧
      (signMulti baseHost
        [(.ample, baseAccount), (.ample, keylessAccount)]
        emptyTransaction).2.witnesses ≠ emptyTransaction.witnesses := by
  constructor
  · decide +kernel
  · decide +kernel

end NeoC.Transaction
