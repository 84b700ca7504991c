import NeoC.Script.VerificationScript

/-!
# The script helper

`script_helper.c` writes the scripts of `verification_script.c` a second time,
for keys that are given as bytes.  Its multi-signature script lists the keys
in the order in which they were passed; the sorting is left to the caller.
The script hash of one or more public keys is taken from these scripts.
-/

namespace NeoC

open Foundation NeoVm

namespace ScriptHelper

/-! ## The helper -/

/-- What is pushed for one key. -/
def pushSingleSig (host : Host) (alloc : Allocator)
    (publicKey : List UInt8) : Routine BinaryWriter Unit := do
  ScriptBuilder.pushData alloc (.items publicKey)
  ScriptBuilder.emitSyscall host alloc .systemCryptoCheckSig

/-- `neoc_script_create_single_sig_verification`. -/
def createSingleSigVerification (host : Host) (alloc : Allocator)
    (publicKey : List UInt8) : Outcome (List UInt8) :=
  if publicKey.length ≠ 33 ∧ publicKey.length ≠ 65 then
    .error (.error .invalidSize "Invalid public key size")
  else
    ScriptBuilder.build alloc (pushSingleSig host alloc publicKey)

/-- The loop that pushes the keys. -/
def pushPublicKeys (alloc : Allocator) :
    List Buffer → Routine BinaryWriter Unit
  | [] => pure ()
  | publicKey :: rest =>
      if publicKey.len ≠ 33 ∧ publicKey.len ≠ 65 then
        errorSet .invalidSize "Invalid public key size"
      else do
        ScriptBuilder.pushData alloc publicKey
        pushPublicKeys alloc rest

/-- What is pushed for several keys. -/
def pushMultiSig (host : Host) (alloc : Allocator)
    (publicKeys : List Buffer) (minSignatures : Nat) :
    Routine BinaryWriter Unit := do
  ScriptBuilder.pushInteger alloc (Int64.ofNat minSignatures)
  pushPublicKeys alloc publicKeys
  ScriptBuilder.pushInteger alloc (Int64.ofNat publicKeys.length)
  ScriptBuilder.emitSyscall host alloc .systemCryptoCheckMultisig

/-- `neoc_script_create_multi_sig_verification_internal`. -/
def createMultiSigVerificationInternal (host : Host) (alloc : Allocator)
    (publicKeys : Slice Buffer) (minSignatures : Nat) :
    Outcome (List UInt8) :=
  match publicKeys with
  | .null _ => .error (.error .invalidArgument "Invalid arguments")
  | .items keys =>
      if keys.length = 0 ∨ keys.length > 1024 then
        .error (.error .invalidSize "Invalid key count")
      else if minSignatures = 0 ∨ minSignatures > keys.length then
        .error (.error .invalidArgument "Invalid minimum signatures")
      else
        ScriptBuilder.build alloc
          (pushMultiSig host alloc keys minSignatures)

/-- `neoc_script_create_multisig_verification`. -/
def createMultisigVerification (host : Host) (alloc : Allocator)
    (minimumSignatures : UInt8) (publicKeys : Slice Buffer) :
    Outcome (List UInt8) :=
  createMultiSigVerificationInternal host alloc publicKeys
    minimumSignatures.toNat

/-- `neoc_script_create_multi_sig_verification`. -/
def createMultiSigVerification (host : Host) (alloc : Allocator)
    (publicKeys : Slice Buffer) (minSignatures : Nat) :
    Outcome (List UInt8) :=
  createMultiSigVerificationInternal host alloc publicKeys minSignatures

end ScriptHelper

namespace Hash160

/-- `neoc_hash160_from_public_key`. -/
def fromPublicKey (host : Host) (alloc : Allocator)
    (publicKeyData : Bytes 33) : Outcome Hash160 := do
  let script ←
    ScriptHelper.createSingleSigVerification host alloc publicKeyData.val
  fromScript host script

/-- `neoc_hash160_from_public_keys`. -/
def fromPublicKeys (host : Host) (alloc : Allocator)
    (publicKeys : Slice (Bytes 33)) (signingThreshold : Nat) :
    Outcome Hash160 :=
  match publicKeys with
  | .null _ => .error (.error .nullPointer "")
  | .items keys =>
      if keys.length = 0 ∨ signingThreshold = 0 ∨
          signingThreshold > keys.length then
        .error (.error .invalidArgument "")
      else if keys.length >
          VerificationScript.maxPublicKeysPerMultisigAccount then
        .error (.error .invalidArgument "")
      else do
        let script ←
          -- The threshold is cut to eight bits.
          ScriptHelper.createMultisigVerification host alloc
            (UInt8.ofNat signingThreshold)
            (.items (keys.map fun key => .items key.val))
        fromScript host script

end Hash160

/-! ## The scripts that are made -/

namespace ScriptHelper

variable {host : Host} {alloc : Allocator}

/-- The script for one key. -/
def singleSigScript (host : Host) (publicKey : List UInt8) : List UInt8 :=
  [Opcode.pushData1, UInt8.ofNat publicKey.length] ++ publicKey ++
    Opcode.syscall ::
      LittleEndian.toBytes 4
        (host.interopGetHash .systemCryptoCheckSig).toNat

/-- What is pushed for a key of either size is the script of the key. -/
theorem pushSingleSig_emits {publicKey : List UInt8}
    (sized : ¬ (publicKey.length ≠ 33 ∧ publicKey.length ≠ 65)) :
    BinaryWriter.Emits alloc (pushSingleSig host alloc publicKey)
      (singleSigScript host publicKey) := by
  have pushed := @ScriptBuilder.pushData_assembles alloc publicKey
  rw [ScriptBuilder.instructionOfBytes, if_neg (by omega)] at pushed
  have assembled :=
    pushed.bind
      (ScriptBuilder.emitSyscall_assembles host .systemCryptoCheckSig)
  have header :
      LittleEndian.toBytes 1 publicKey.length =
        [UInt8.ofNat publicKey.length] := by
    rw [LittleEndian.toBytes, Nat.mod_eq_of_lt (by omega)]
    rfl
  have bytes :
      assemble
          ([.pushData publicKey] ++
            [.syscall (host.interopGetHash .systemCryptoCheckSig)]) =
        singleSigScript host publicKey := by
    rw [singleSigScript]
    simp only [List.cons_append, List.nil_append, assemble_cons,
      Instruction.encode]
    rw [if_pos (by omega), header, show assemble [] = [] from rfl,
      List.append_nil]
    simp [Opcode.pushData1, Opcode.syscall]
  rw [← bytes]
  exact assembled

theorem createSingleSigVerification_eq_ok {publicKey script : List UInt8}
    (built :
      createSingleSigVerification host alloc publicKey = .ok script) :
    script = singleSigScript host publicKey := by
  rw [createSingleSigVerification] at built
  split at built
  · cases built
  · rename_i sized
    exact
      ScriptBuilder.build_eq_ok (pushSingleSig_emits sized).appends built

theorem length_singleSigScript {publicKey : List UInt8}
    (sized : publicKey.length = 33) :
    (singleSigScript host publicKey).length = 40 := by
  rw [singleSigScript]
  simp [LittleEndian.length_toBytes, sized]

/-- With memory, the script of a key is made. -/
theorem createSingleSigVerification_eq {publicKey : List UInt8}
    (sized : publicKey.length = 33) (serves : alloc.Serves 256) :
    createSingleSigVerification host alloc publicKey =
      .ok (singleSigScript host publicKey) := by
  have either : ¬ (publicKey.length ≠ 33 ∧ publicKey.length ≠ 65) := by
    omega
  rw [createSingleSigVerification, if_neg either]
  apply ScriptBuilder.build_succeeds (pushSingleSig_emits either)
  rw [length_singleSigScript sized]
  exact serves

theorem pushPublicKeys_assembles {entries : List (List UInt8)}
    (exact : ∀ entry ∈ entries, entry.length = 33) :
    ScriptBuilder.Assembles alloc
      (pushPublicKeys alloc (entries.map Slice.items))
      (entries.map Instruction.pushData) := by
  induction entries with
  | nil => exact BinaryWriter.emits_pure
  | cons entry rest induction =>
      rcases List.forall_mem_cons.mp exact with ⟨first, others⟩
      have pushed := @ScriptBuilder.pushData_assembles alloc entry
      rw [ScriptBuilder.instructionOfBytes, if_neg (by omega)] at pushed
      rw [List.map_cons, pushPublicKeys,
        if_neg (by simp [Slice.len, first])]
      exact pushed.bind (induction others)

theorem pushMultiSig_assembles {entries : List (List UInt8)}
    (exact : ∀ entry ∈ entries, entry.length = 33)
    (few : entries.length ≤ 1024) {minSignatures : Nat}
    (small : minSignatures ≤ 1024) :
    ScriptBuilder.Assembles alloc
      (pushMultiSig host alloc (entries.map Slice.items) minSignatures)
      (VerificationScript.multiSigProgram host entries minSignatures) := by
  have threshold :=
    @ScriptBuilder.pushInteger_assembles alloc (Int64.ofNat minSignatures)
  have count :=
    @ScriptBuilder.pushInteger_assembles alloc (Int64.ofNat entries.length)
  rw [Int64.toInt_ofNat_of_lt (by omega)] at threshold count
  have pushed :=
    threshold.bind
      ((pushPublicKeys_assembles exact).bind
        (count.bind
          (ScriptBuilder.emitSyscall_assembles host
            .systemCryptoCheckMultisig)))
  rw [pushMultiSig, List.length_map]
  exact pushed

/-- The script lists the keys as they were passed. -/
theorem createMultiSigVerificationInternal_eq_ok
    {entries : List (List UInt8)} {minSignatures : Nat}
    {script : List UInt8}
    (exact : ∀ entry ∈ entries, entry.length = 33)
    (built :
      createMultiSigVerificationInternal host alloc
          (.items (entries.map Slice.items)) minSignatures =
        .ok script) :
    script =
        assemble
          (VerificationScript.multiSigProgram host entries minSignatures) ∧
      1 ≤ minSignatures ∧ minSignatures ≤ entries.length ∧
      entries.length ≤ 1024 := by
  rw [createMultiSigVerificationInternal, List.length_map] at built
  split at built
  · cases built
  split at built
  · cases built
  · rename_i counted bounded
    have assembled :=
      @pushMultiSig_assembles host alloc _ exact (by omega) minSignatures
        (by omega)
    exact
      ⟨ScriptBuilder.build_eq_ok assembled.appends built, by omega,
        by omega, by omega⟩

end ScriptHelper

end NeoC
