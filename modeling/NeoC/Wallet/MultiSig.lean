import NeoC.Script.ScriptHelper

/-!
# Multi-signature accounts

`neoc_multi_sig_create` keeps its threshold and its number of keys in eight
bits.  It sorts pointers to keys, not encodings, and encodes the keys again
for every comparison.
-/

namespace NeoC

open Foundation NeoVm

/-- A `neoc_multi_sig_account_t`. -/
structure MultiSigAccount (curve : Curve) where
  threshold : UInt8
  publicKeyCount : UInt8
  publicKeys : List (Option (EcPublicKey curve))
  scriptHash : Hash160
  verificationScript : List UInt8

namespace MultiSig

variable {curve : Curve}

/-- `sizeof(neoc_multi_sig_account_t)`. -/
def structSize : Nat := 56

/-! ## Creating an account -/

/-- `compare_public_keys`; nothing is compared with a `NULL`. -/
def comparePublicKeys :
    Option (EcPublicKey curve) → Option (EcPublicKey curve) → Ordering
  | some left, some right =>
      compare left.compressed.val right.compressed.val
  | _, _ => .eq

/--
`qsort` on the pointers.  Where the encodings of two keys are refused, their
comparison reads 33 bytes through `NULL`.
-/
def sortPublicKeys (alloc : Allocator)
    (publicKeys : List (Option (EcPublicKey curve))) :
    Outcome (List (Option (EcPublicKey curve))) :=
  if alloc.grants 33 = false ∧
      2 ≤ (publicKeys.filter Option.isSome).length then
    .error .illegalAccess
  else
    .ok
      (publicKeys.mergeSort fun left right =>
        (comparePublicKeys left right).isLE)

/-- `neoc_ec_public_key_get_encoded` on a pointer. -/
def encodedKey (alloc : Allocator) :
    Option (EcPublicKey curve) → Outcome (List UInt8)
  | none => .error (.error .invalidArgument "Invalid arguments")
  | some publicKey => publicKey.getEncoded alloc true

/-- The loop that pushes the keys. -/
def pushKeys (alloc : Allocator) :
    List (Option (EcPublicKey curve)) → Routine BinaryWriter Unit
  | [] => pure ()
  | publicKey :: rest => do
      let pubkeyBytes ← Call.lift (encodedKey alloc publicKey)
      ScriptBuilder.pushData alloc (.items pubkeyBytes)
      pushKeys alloc rest

/-- What is pushed for the sorted keys. -/
def pushScript (host : Host) (alloc : Allocator) (threshold : UInt8)
    (publicKeys : List (Option (EcPublicKey curve))) (keyCount : UInt8) :
    Routine BinaryWriter Unit := do
  ScriptBuilder.pushInteger alloc (Int64.ofNat threshold.toNat)
  pushKeys alloc publicKeys
  ScriptBuilder.pushInteger alloc (Int64.ofNat keyCount.toNat)
  ScriptBuilder.emitSyscall host alloc .systemCryptoCheckMultisig

/-- Taking the script from the builder. -/
def takeScript (alloc : Allocator) (builder : BinaryWriter) :
    Outcome (List UInt8) :=
  if alloc.neocGrants builder.position = false then
    .error (.error .outOfMemory "Failed to allocate verification script")
  else do
    let script ← ScriptBuilder.toArray alloc builder
    if script.length ≠ builder.position then
      .error (.error .internal "Script size mismatch")
    else
      .ok script

/-- `neoc_multi_sig_create`. -/
def create (host : Host) (alloc : Allocator) (threshold : UInt8)
    (publicKeys : Slice (Option (EcPublicKey curve))) (keyCount : UInt8) :
    Outcome (MultiSigAccount curve) :=
  match publicKeys with
  | .null _ => .error (.error .invalidArgument "Invalid arguments")
  | .items keys =>
      if keyCount = 0 then
        .error (.error .invalidArgument "Invalid arguments")
      else if threshold = 0 ∨ threshold > keyCount then
        .error (.error .invalidArgument "Invalid threshold")
      else if alloc.neocGrants structSize = false then
        .error
          (.error .outOfMemory "Failed to allocate multi-sig account")
      else if alloc.neocGrants (keyCount.toNat * 8) = false then
        .error
          (.error .outOfMemory "Failed to allocate public keys array")
      else if keys.length < keyCount.toNat then
        .error .illegalAccess
      else do
        let sorted ← sortPublicKeys alloc (keys.take keyCount.toNat)
        let builder ← ScriptBuilder.create alloc
        let written ←
          (pushScript host alloc threshold sorted keyCount).eval builder
        let script ← takeScript alloc written.2
        let scriptHash ← Hash160.fromScript host script
        .ok
          { threshold
            publicKeyCount := keyCount
            publicKeys := sorted
            scriptHash
            verificationScript := script }

/-! ## What is created -/

section Created

variable {host : Host} {alloc : Allocator}

/-- The encodings of the keys of a list. -/
def encodings (publicKeys : List (EcPublicKey curve)) :
    List (List UInt8) :=
  publicKeys.map fun key => key.compressed.val

theorem encodings_length (publicKeys : List (EcPublicKey curve)) :
    ∀ entry ∈ encodings publicKeys, entry.length = 33 :=
  VerificationScript.length_compressed publicKeys

theorem sortPublicKeys_eq_ok
    {publicKeys : List (EcPublicKey curve)}
    {sorted : List (Option (EcPublicKey curve))}
    (ran : sortPublicKeys alloc (publicKeys.map some) = .ok sorted) :
    sorted = (VerificationScript.sortKeys publicKeys).map some := by
  rw [sortPublicKeys] at ran
  split at ran
  · cases ran
  · injection ran with same
    rw [← same, VerificationScript.sortKeys]
    symm
    apply List.map_mergeSort
    intro left _ right _
    rfl

/-- The keys that were pushed had been encoded. -/
theorem pushKeys_granted
    {publicKeys : List (EcPublicKey curve)} (nonempty : publicKeys ≠ [])
    {writer written : BinaryWriter}
    (ran : pushKeys alloc (publicKeys.map some) writer = (.ok (), written)) :
    alloc.grants 33 = true := by
  cases publicKeys with
  | nil => exact absurd rfl nonempty
  | cons publicKey rest =>
      rw [List.map_cons, pushKeys] at ran
      rcases Call.bind_eq_ok_iff.mp ran with ⟨encoded, state, lifted, -⟩
      rw [Call.lift_run] at lifted
      injection lifted with made
      rw [encodedKey, EcPublicKey.getEncoded] at made
      simp only [if_true] at made
      split at made
      · assumption
      · cases made

theorem pushKeys_assembles (granted : alloc.grants 33 = true)
    (publicKeys : List (EcPublicKey curve)) :
    ScriptBuilder.Assembles alloc
      (pushKeys alloc (publicKeys.map some))
      ((encodings publicKeys).map Instruction.pushData) := by
  induction publicKeys with
  | nil => exact BinaryWriter.emits_pure
  | cons publicKey rest induction =>
      have first := publicKey.compressed.property
      have encoded :
          encodedKey alloc (some publicKey) =
            .ok publicKey.compressed.val := by
        simp [encodedKey, EcPublicKey.getEncoded, granted]
      have pushed :=
        @ScriptBuilder.pushData_assembles alloc publicKey.compressed.val
      rw [ScriptBuilder.instructionOfBytes, if_neg (by omega)] at pushed
      rw [List.map_cons, pushKeys, encoded]
      exact pushed.bind induction

theorem pushScript_assembles (granted : alloc.grants 33 = true)
    (threshold : UInt8) {publicKeys : List (EcPublicKey curve)}
    {keyCount : UInt8} (counted : publicKeys.length = keyCount.toNat) :
    ScriptBuilder.Assembles alloc
      (pushScript host alloc threshold (publicKeys.map some) keyCount)
      (VerificationScript.multiSigProgram host (encodings publicKeys)
        threshold.toNat) := by
  have small := threshold.toNat_lt
  have small' := keyCount.toNat_lt
  have first :=
    @ScriptBuilder.pushInteger_assembles alloc
      (Int64.ofNat threshold.toNat)
  have last :=
    @ScriptBuilder.pushInteger_assembles alloc (Int64.ofNat keyCount.toNat)
  rw [Int64.toInt_ofNat_of_lt (by omega)] at first last
  have length : (encodings publicKeys).length = keyCount.toNat := by
    rw [encodings, List.length_map, counted]
  rw [VerificationScript.multiSigProgram, length]
  exact
    first.bind
      ((pushKeys_assembles granted publicKeys).bind
        (last.bind (ScriptBuilder.emitSyscall_assembles host _)))

theorem takeScript_eq_ok {builder : BinaryWriter} {script : List UInt8}
    (taken : takeScript alloc builder = .ok script) :
    ScriptBuilder.toArray alloc builder = .ok script := by
  rw [takeScript] at taken
  split at taken
  · cases taken
  · rcases Except.bind_eq_ok_iff.mp taken with ⟨array, copied, checked⟩
    split at checked
    · cases checked
    · injection checked with same
      rw [copied, same]

/-- A created account has a script, and its hash is that of the script. -/
theorem create_hashed {threshold keyCount : UInt8}
    {publicKeys : Slice (Option (EcPublicKey curve))}
    {account : MultiSigAccount curve}
    (created : create host alloc threshold publicKeys keyCount =
      .ok account) :
    account.verificationScript ≠ [] ∧
      Hash160.fromScript host account.verificationScript =
        .ok account.scriptHash := by
  cases publicKeys with
  | null count => cases created
  | items keys =>
      rw [create] at created
      split at created
      · cases created
      split at created
      · cases created
      split at created
      · cases created
      split at created
      · cases created
      split at created
      · cases created
      rcases Except.bind_eq_ok_iff.mp created with ⟨sorted, -, rest⟩
      rcases Except.bind_eq_ok_iff.mp rest with ⟨builder, -, rest⟩
      rcases Except.bind_eq_ok_iff.mp rest with ⟨written, -, rest⟩
      rcases Except.bind_eq_ok_iff.mp rest with ⟨script, taken, rest⟩
      rcases Except.bind_eq_ok_iff.mp rest with ⟨scriptHash, hashed, rest⟩
      injection rest with same
      subst same
      refine ⟨?_, hashed⟩
      rw [takeScript] at taken
      split at taken
      · cases taken
      rename_i granted
      rcases Except.bind_eq_ok_iff.mp taken with ⟨array, -, checked⟩
      split at checked
      · cases checked
      · rename_i size
        injection checked with same
        rintro rfl
        rw [same] at size
        rw [← not_ne_iff.mp size] at granted
        exact granted rfl

/-- What the fields of a created account are. -/
structure Created (host : Host) (threshold : UInt8)
    (publicKeys : List (EcPublicKey curve)) (keyCount : UInt8)
    (account : MultiSigAccount curve) : Prop where
  threshold_eq : account.threshold = threshold
  count_eq : account.publicKeyCount = keyCount
  script_eq :
    account.verificationScript =
      assemble
        (VerificationScript.multiSigProgram host
          (VerificationScript.sortEntries
            (encodings (publicKeys.take keyCount.toNat)))
          threshold.toNat)
  hashed :
    Hash160.fromScript host account.verificationScript =
      .ok account.scriptHash
  positive : 1 ≤ threshold.toNat
  enough : threshold.toNat ≤ keyCount.toNat

theorem create_eq_ok {threshold keyCount : UInt8}
    {publicKeys : List (EcPublicKey curve)}
    {account : MultiSigAccount curve}
    (created :
      create host alloc threshold (.items (publicKeys.map some)) keyCount =
        .ok account) :
    Created host threshold publicKeys keyCount account := by
  rw [create] at created
  split at created
  · cases created
  rename_i some
  split at created
  · cases created
  rename_i bounded
  split at created
  · cases created
  split at created
  · cases created
  split at created
  · cases created
  rename_i inside
  rw [List.length_map] at inside
  rcases Except.bind_eq_ok_iff.mp created with ⟨sorted, ordered, rest⟩
  rcases Except.bind_eq_ok_iff.mp rest with ⟨builder, opened, rest⟩
  rcases Except.bind_eq_ok_iff.mp rest with ⟨⟨_, written⟩, ran, rest⟩
  rcases Except.bind_eq_ok_iff.mp rest with ⟨script, taken, rest⟩
  rcases Except.bind_eq_ok_iff.mp rest with ⟨scriptHash, hashed, rest⟩
  injection rest with same
  subst same
  have positive : 1 ≤ threshold.toNat := by
    rcases Nat.eq_zero_or_pos threshold.toNat with zero | positive
    · exact absurd (.inl (UInt8.toNat_inj.mp zero)) bounded
    · exact positive
  have enough : threshold.toNat ≤ keyCount.toNat := by
    by_contra above
    exact bounded (.inr (UInt8.lt_iff_toNat_lt.mpr (by omega)))
  rw [← List.map_take] at ordered
  have order := sortPublicKeys_eq_ok ordered
  subst order
  have counted :
      (VerificationScript.sortKeys
        (publicKeys.take keyCount.toNat)).length = keyCount.toNat := by
    rw [VerificationScript.length_sortKeys, List.length_take]
    omega
  have nonempty :
      VerificationScript.sortKeys (publicKeys.take keyCount.toNat) ≠ [] :=
    List.length_pos_iff.mp (by omega)
  have pushed := Call.eval_eq_ok_iff.mp ran
  have granted : alloc.grants 33 = true := by
    rw [pushScript] at pushed
    rcases Call.bind_eq_ok_iff.mp pushed with ⟨_, _, -, later⟩
    rcases Call.bind_eq_ok_iff.mp later with ⟨_, _, keys, -⟩
    exact pushKeys_granted nonempty keys
  have built :
      ScriptBuilder.build alloc
          (pushScript host alloc threshold
            ((VerificationScript.sortKeys
              (publicKeys.take keyCount.toNat)).map Option.some) keyCount) =
        .ok script := by
    rw [ScriptBuilder.build, BinaryWriter.produce, opened]
    change (Call.eval _ _ >>= _) = _
    rw [ran]
    exact takeScript_eq_ok taken
  have assembled :=
    ScriptBuilder.build_eq_ok
      (pushScript_assembles granted threshold counted).appends built
  refine ⟨rfl, rfl, ?_, hashed, positive, enough⟩
  rw [encodings, VerificationScript.sortEntries_map]
  exact assembled

end Created

end MultiSig

end NeoC
