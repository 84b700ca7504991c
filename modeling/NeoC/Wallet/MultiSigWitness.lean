import NeoC.Script.InvocationScript
import NeoC.Wallet.MultiSig

/-!
# The witness of a multi-signature account

`neoc_multi_sig_create_witness` builds an invocation script of its own, with
the script builder instead of the invocation script type.  It takes as many
signatures as the threshold asks for and reads 64 bytes of each.
-/

namespace NeoC

open Foundation NeoVm

namespace MultiSig

variable {curve : Curve}

/-- The loop that pushes the signatures. -/
def pushSignatures (alloc : Allocator) :
    (count : Nat) → List Buffer → Routine BinaryWriter Unit
  | 0, _ => pure ()
  | _ + 1, [] => Call.halt .illegalAccess
  | _ + 1, .null _ :: _ => errorSet .invalidArgument "Null signature"
  | count + 1, .items content :: rest =>
      if content.length < 64 then
        Call.halt .illegalAccess
      else do
        ScriptBuilder.pushData alloc (.items (content.take 64))
        pushSignatures alloc count rest

/--
`neoc_multi_sig_create_witness`: the bytes written to a buffer of
`invocationSize` bytes.  The state is `*actual_size`.
-/
def createWitness (alloc : Allocator) (account : MultiSigAccount curve)
    (signatures : Slice Buffer) (sigCount : UInt8) (invocationSize : Nat) :
    Routine Nat (List UInt8) :=
  match signatures with
  | .null _ => errorSet .invalidArgument "Invalid arguments"
  | .items buffers =>
      if sigCount < account.threshold then
        errorSet .invalidArgument "Not enough signatures"
      else do
        let builder ← Call.lift (ScriptBuilder.create alloc)
        let count := min sigCount.toNat account.threshold.toNat
        let pushed ←
          Call.lift ((pushSignatures alloc count buffers).eval builder)
        let scriptLen := pushed.2.getPosition
        Call.update fun _ => scriptLen
        if invocationSize < scriptLen then
          errorSet .bufferTooSmall "Invocation script buffer too small"
        else do
          let scriptData ← Call.lift (ScriptBuilder.toArray alloc pushed.2)
          if scriptData.length ≠ scriptLen then
            errorSet .internal "Script size mismatch"
          else
            pure scriptData

/-! ## What is written -/

open InvocationScript (pushesBytes pushBytes signaturesOf added next Accepts)

variable {alloc : Allocator}

/-- The byte strings of some signatures. -/
def signatureBytes (signatures : List (Bytes 64)) : List (List UInt8) :=
  signatures.map Subtype.val

theorem length_signatureBytes (signatures : List (Bytes 64)) :
    ∀ content ∈ signatureBytes signatures, content.length = 64 := by
  intro content member
  rcases List.mem_map.mp member with ⟨signature, -, rfl⟩
  exact signature.property

theorem length_pushesBytes (signatures : List (Bytes 64)) :
    (pushesBytes (signatureBytes signatures)).length =
      66 * signatures.length := by
  induction signatures with
  | nil => rfl
  | cons signature rest induction =>
      have one : (pushBytes signature.val).length = 66 := by
        rw [pushBytes, Instruction.encode,
          if_pos (by rw [signature.property]; decide), List.length_cons,
          List.length_append, LittleEndian.length_toBytes,
          signature.property]
      rw [signatureBytes, List.map_cons, InvocationScript.pushesBytes_cons,
        List.length_append, one, ← signatureBytes, induction,
        List.length_cons]
      omega

/-- The builder pushes the same bytes for a signature. -/
theorem pushSignatures_emits {signatures : List (Bytes 64)} {count : Nat}
    (enough : count ≤ signatures.length) :
    BinaryWriter.Emits alloc
      (pushSignatures alloc count
        ((signatureBytes signatures).map Slice.items))
      (pushesBytes (signatureBytes (signatures.take count))) := by
  induction count generalizing signatures with
  | zero => exact BinaryWriter.emits_pure
  | succ count induction =>
      cases signatures with
      | nil => exact absurd enough (Nat.not_succ_le_zero count)
      | cons signature rest =>
          have exact := signature.property
          have pushed :=
            @ScriptBuilder.pushData_assembles alloc signature.val
          rw [ScriptBuilder.instructionOfBytes, if_neg (by omega)] at pushed
          rw [signatureBytes, List.map_cons, List.map_cons, pushSignatures,
            if_neg (by omega), List.take_of_length_le (by omega),
            List.take_succ_cons]
          exact
            ScriptBuilder.Assembles.bind pushed
              (induction (Nat.le_of_succ_le_succ enough))

/-- With memory, the witness consists of as many pushes as are asked for. -/
theorem createWitness_eq {account : MultiSigAccount curve}
    {signatures : List (Bytes 64)} {sigCount : UInt8}
    {invocationSize : Nat} (actualSize : Nat)
    (given : sigCount.toNat ≤ signatures.length)
    (enough : account.threshold ≤ sigCount)
    (room : 66 * account.threshold.toNat ≤ invocationSize)
    (serves :
      alloc.Serves (max 256 (132 * account.threshold.toNat))) :
    createWitness alloc account
        (.items ((signatureBytes signatures).map Slice.items)) sigCount
        invocationSize actualSize =
      (.ok
          (pushesBytes
            (signatureBytes (signatures.take account.threshold.toNat))),
        66 * account.threshold.toNat) := by
  have reached : account.threshold.toNat ≤ sigCount.toNat :=
    UInt8.le_iff_toNat_le.mp enough
  have emits :=
    @pushSignatures_emits alloc signatures account.threshold.toNat
      (by omega)
  have length :
      (pushesBytes
        (signatureBytes
          (signatures.take account.threshold.toNat))).length =
        66 * account.threshold.toNat := by
    rw [length_pushesBytes, List.length_take, Nat.min_eq_left (by omega)]
  rcases ScriptBuilder.create_succeeds (serves.mono (le_max_left _ _)) with
    ⟨builder, created⟩
  rcases emits.fresh_run (ScriptBuilder.fresh_create alloc) created
      (serves.mono (by omega)) with
    ⟨written, ran, contents, position⟩
  have granted : alloc.grants written.position = true :=
    serves _ (by omega)
  have taken :
      ScriptBuilder.toArray alloc written =
        .ok
          (pushesBytes
            (signatureBytes
              (signatures.take account.threshold.toNat))) := by
    rw [ScriptBuilder.toArray, BinaryWriter.toArray, if_pos granted,
      contents]
  rw [createWitness, if_neg (UInt8.not_lt.mpr enough),
    Nat.min_eq_right reached, created, Call.lift_ok_bind, ran,
    Call.lift_ok_bind]
  have moved :
      ((Call.update fun _ => written.getPosition :
            Routine Nat Unit) actualSize) =
        (.ok (), 66 * account.threshold.toNat) := by
    rw [Call.update_run, BinaryWriter.getPosition, position, length]
  have fits : ¬ invocationSize < written.getPosition := by
    rw [BinaryWriter.getPosition]
    omega
  have matching :
      ¬ (pushesBytes
          (signatureBytes
            (signatures.take account.threshold.toNat))).length ≠
        written.getPosition := by
    rw [BinaryWriter.getPosition, position]
    exact fun different => different rfl
  rw [Call.bind_of_ok moved]
  refine (congrFun (if_neg fits) _).trans ?_
  rw [taken, Call.lift_ok_bind]
  exact congrFun (if_neg matching) _

/-! ## Signatures in and out -/

/--
Whatever is pushed into an invocation script, by its constructor and by any
sequence of added signatures, the parser returns the 64-byte strings among it
in order, also from a copy that went over the wire.  Each byte string of a
possible length is accepted if there is memory for it.  The witness of a
multi-signature account consists of the same bytes as the script made from
the first signatures.
-/
theorem extractSignatures_after_history
    (first : List (List UInt8))
    (lengths :
      ∀ content ∈ first, 1 ≤ content.length ∧ content.length < 0x100000000)
    (creating : Allocator)
    (serves :
      creating.Serves
        (max InvocationScript.structSize (pushesBytes first).length))
    (steps : List InvocationScript.Step) :
    (∃ created,
      InvocationScript.createMultiSig creating
          (.items (first.map Slice.items)) =
        .ok created ∧
      Along next Accepts created steps ∧
      ∀ alloc : Allocator,
        alloc.Serves
            (2 * (finalState next created steps).script.len + 64) →
          InvocationScript.extractSignatures alloc
              (finalState next created steps) =
            .ok (signaturesOf (first ++ added created steps)) ∧
          ∃ serialized copy,
            InvocationScript.serialize alloc
                (finalState next created steps) =
              .ok serialized ∧
            InvocationScript.deserialize alloc serialized = .ok copy ∧
            InvocationScript.extractSignatures alloc copy =
              .ok (signaturesOf (first ++ added created steps))) ∧
    ∀ (alloc : Allocator) (account : MultiSigAccount curve)
        (signatures : List (Bytes 64)) (sigCount : UInt8)
        (invocationSize actualSize : Nat),
      sigCount.toNat ≤ signatures.length →
        account.threshold ≤ sigCount →
          66 * account.threshold.toNat ≤ invocationSize →
            alloc.Serves (max 256 (132 * account.threshold.toNat)) →
              ∃ bytes created,
                createWitness alloc account
                    (.items ((signatureBytes signatures).map Slice.items))
                    sigCount invocationSize actualSize =
                  (.ok bytes, bytes.length) ∧
                InvocationScript.createMultiSig alloc
                    (.items
                      ((signatureBytes
                        (signatures.take account.threshold.toNat)).map
                          Slice.items)) =
                  .ok created ∧
                created.script.content = bytes := by
  refine ⟨?_, ?_⟩
  · rcases InvocationScript.createMultiSig_succeeds lengths serves with
      ⟨created, made⟩
    have holds :=
      (InvocationScript.createMultiSig_holds made).finalState steps
    refine ⟨created, made, ?_, ?_⟩
    · exact
        along_of_forall (fun _ => True) (fun _ _ _ => trivial)
          (fun state step _ => InvocationScript.accepts state step) trivial
          steps
    · intro alloc memory
      rw [holds.len_eq] at memory
      have extracted :=
        holds.extractSignatures_eq (memory.mono (by omega))
      rcases holds.deserialize_serialize memory with
        ⟨serialized, wrote, -, restored⟩
      exact
        ⟨extracted, serialized, _, wrote, restored, extracted⟩
  · intro alloc account signatures sigCount invocationSize actualSize
      given enough room memory
    have reached : account.threshold.toNat ≤ sigCount.toNat :=
      UInt8.le_iff_toNat_le.mp enough
    have taken :
        (pushesBytes
          (signatureBytes
            (signatures.take account.threshold.toNat))).length =
          66 * account.threshold.toNat := by
      rw [length_pushesBytes, List.length_take, Nat.min_eq_left (by omega)]
    have written :=
      createWitness_eq actualSize given enough room memory
    rcases @InvocationScript.createMultiSig_succeeds alloc
        (signatureBytes (signatures.take account.threshold.toNat))
        (fun content member => by
          have exact := length_signatureBytes _ content member
          omega)
        (memory.mono (by
          simp only [InvocationScript.structSize]
          omega)) with
      ⟨created, made⟩
    rw [← taken] at written
    exact
      ⟨_, created, written, made,
        (InvocationScript.createMultiSig_holds made).content_eq⟩

/-- Two signatures, a byte string of another length, and a failed call. -/
theorem extractSignatures_after_history_mixed :
    ∃ created,
      InvocationScript.createMultiSig .ample
          (.items [.items (List.replicate 64 7), .items [1]]) =
        .ok created ∧
      InvocationScript.extractSignatures .ample
          (finalState next created
            [⟨.ample, .items (List.replicate 64 8)⟩,
              ⟨.ample, .null 1⟩]) =
        .ok [List.replicate 64 7, List.replicate 64 8] := by
  have history :=
    @extractSignatures_after_history (Curve.basePoint fun _ => none)
      [List.replicate 64 7, [1]]
      (by simp)
      .ample (Allocator.ample_serves (by decide))
      [⟨.ample, .items (List.replicate 64 8)⟩,
        ⟨.ample, .null 1⟩]
  rcases history.1 with ⟨created, made, -, extracted⟩
  have script :
      InvocationScript.createMultiSig .ample
          (.items [.items (List.replicate 64 7), .items [1]]) =
        .ok
          { script :=
              .items (pushesBytes [List.replicate 64 7, [1]]) } := by
    decide +kernel
  have same := Except.ok.inj (made.symm.trans script)
  subst same
  refine ⟨_, made, ?_⟩
  have both :=
    (extracted .ample
      (Allocator.ample_serves (by decide +kernel))).1
  exact both

end MultiSig

end NeoC
