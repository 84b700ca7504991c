import NeoC.Transaction.WireFormat

/-!
# What a serialization commits to

Two transactions with the same unsigned bytes have the same header, signers,
attributes and script, and two with the same serialization have the same
witnesses as well, as long as every stored length has its bytes.  A script
whose replacement could not be allocated has lost them: the bytes of the
witnesses then stand where a reader looks for the script.
-/

namespace NeoC

open Foundation BinaryWriter

variable {alloc : Allocator}

/-! ## Attributes and witnesses -/

namespace Attribute

/-- The type and the data of an attribute. -/
def commitment (attr : Attribute) : AttributeType × List UInt8 :=
  (attr.type, attr.data.content)

end Attribute

theorem AttributeType.toByte_injective :
    Function.Injective AttributeType.toByte := by
  intro left right same
  cases left <;> cases right <;> first | rfl | cases same

namespace Transaction

/-- The bytes of an attribute show its type and its data. -/
theorem attributeBytes_unambiguous :
    Unambiguous
      (fun left right : Attribute =>
        BinaryWriter.Legible left.data ∧ BinaryWriter.Legible right.data)
      attributeBytes Attribute.commitment := by
  have kind :
      Unambiguous
        (fun left right : Attribute =>
          BinaryWriter.Legible left.data ∧ BinaryWriter.Legible right.data)
        (fun attr => [attr.type.toByte]) Attribute.type := by
    intro left right leftRest rightRest _ same
    rcases List.cons.inj same with ⟨sameByte, rest⟩
    exact ⟨AttributeType.toByte_injective sameByte, rest⟩
  exact kind.seq (bufferBytes_unambiguous.comap Attribute.data)

theorem one_le_length_attributeBytes (attr : Attribute) :
    1 ≤ (attributeBytes attr).length := by
  rw [attributeBytes, List.length_append, List.length_singleton]
  exact Nat.le_add_right 1 _

theorem writeAttribute_ensures {attr : Attribute}
    (backed : attr.data.Backed) :
    Ensures (writeAttribute alloc attr) (BinaryWriter.Legible attr.data) :=
  (writeVarBytes_ensures backed).bind_right
    (writeByte_emits attr.type.toByte).appends

end Transaction

namespace Witness

/-- The two scripts of a witness. -/
def commitment (witness : Witness) : List UInt8 × List UInt8 :=
  (witness.invocationScript.content, witness.verificationScript.content)

/-- A witness whose two scripts can be read back. -/
structure Legible (witness : Witness) : Prop where
  invocationScript : BinaryWriter.Legible witness.invocationScript
  verificationScript : BinaryWriter.Legible witness.verificationScript

/-- The bytes of a witness show its two scripts. -/
theorem encode_unambiguous :
    Unambiguous (fun left right => left.Legible ∧ right.Legible)
      encode commitment := by
  have invocation :
      Unambiguous (fun left right => Legible left ∧ Legible right)
        (fun witness => bufferBytes witness.invocationScript)
        (fun witness => witness.invocationScript.content) :=
    (bufferBytes_unambiguous.comap invocationScript).mono fun _ _ both =>
      ⟨both.1.invocationScript, both.2.invocationScript⟩
  have verification :
      Unambiguous (fun left right => Legible left ∧ Legible right)
        (fun witness => bufferBytes witness.verificationScript)
        (fun witness => witness.verificationScript.content) :=
    (bufferBytes_unambiguous.comap verificationScript).mono fun _ _ both =>
      ⟨both.1.verificationScript, both.2.verificationScript⟩
  exact invocation.seq verification

theorem one_le_length_encode (witness : Witness) :
    1 ≤ witness.encode.length := by
  rw [encode, List.length_append]
  exact
    (one_le_length_bufferBytes _).trans (Nat.le_add_right _ _)

theorem writeWitness_ensures {witness : Witness}
    (backed : witness.Backed) :
    Ensures (Transaction.writeWitness alloc witness) witness.Legible := by
  refine (Transaction.writeWitness_appends witness).ensures_length.imp ?_
  intro bounded
  rw [encode, List.length_append,
    Signer.length_bufferBytes backed.invocationScript,
    Signer.length_bufferBytes backed.verificationScript] at bounded
  exact
    ⟨⟨backed.invocationScript, lt_sizeModulus (by omega)⟩,
      ⟨backed.verificationScript, lt_sizeModulus (by omega)⟩⟩

end Witness

/-! ## Transactions -/

/-- What the unsigned bytes of a transaction show of it. -/
structure TransactionCommitment where
  version : UInt8
  nonce : UInt32
  systemFee : UInt64
  networkFee : UInt64
  validUntilBlock : UInt32
  signers : List SignerCommitment
  attributes : List (AttributeType × List UInt8)
  script : List UInt8

namespace Transaction

/-- Everything but the witnesses and the stored hash. -/
def commitment (transaction : Transaction) : TransactionCommitment where
  version := transaction.version
  nonce := transaction.nonce
  systemFee := transaction.systemFee
  networkFee := transaction.networkFee
  validUntilBlock := transaction.validUntilBlock
  signers := transaction.signers.map Signer.commitment
  attributes := transaction.attributes.map Attribute.commitment
  script := transaction.script.content

/-- A transaction whose unsigned bytes can be read back. -/
structure Legible (transaction : Transaction) : Prop where
  signers :
    transaction.signers.length < sizeModulus ∧
      ∀ signer ∈ transaction.signers, signer.Legible
  attributes :
    transaction.attributes.length < sizeModulus ∧
      ∀ attr ∈ transaction.attributes, BinaryWriter.Legible attr.data
  script : BinaryWriter.Legible transaction.script

/-- Witnesses that can be read back. -/
def LegibleWitnesses (transaction : Transaction) : Prop :=
  transaction.witnesses.length < sizeModulus ∧
    ∀ witness ∈ transaction.witnesses, witness.Legible

/-- The unsigned bytes show everything but the witnesses. -/
theorem unsignedBytes_unambiguous :
    Unambiguous (fun left right => left.Legible ∧ right.Legible)
      unsignedBytes commitment := by
  have versions :
      Unambiguous (fun left right => Legible left ∧ Legible right)
        (fun transaction => [transaction.version]) version :=
    fun _ _ _ _ _ same => List.cons.inj same
  have signerLists :=
    ((counted_unambiguous Signer.encode_unambiguous).comap signers).mono
        fun left right (both : Legible left ∧ Legible right) =>
          ⟨both.1.signers, both.2.signers⟩
  have attributeLists :=
    ((counted_unambiguous attributeBytes_unambiguous).comap attributes).mono
        fun left right (both : Legible left ∧ Legible right) =>
          ⟨both.1.attributes, both.2.attributes⟩
  have scripts :=
    (bufferBytes_unambiguous.comap script).mono
        fun left right (both : Legible left ∧ Legible right) =>
          ⟨both.1.script, both.2.script⟩
  have lists := signerLists.seq (attributeLists.seq scripts)
  have uint32 (part : Transaction → UInt32) :
      Unambiguous (fun left right => Legible left ∧ Legible right)
        (fun value => LittleEndian.toBytes 4 (part value).toNat) part :=
    LittleEndian.word_unambiguous (fun _ _ => UInt32.toNat_inj.mp)
      UInt32.toNat_lt part
  have uint64 (part : Transaction → UInt64) :
      Unambiguous (fun left right => Legible left ∧ Legible right)
        (fun value => LittleEndian.toBytes 8 (part value).toNat) part :=
    LittleEndian.word_unambiguous (fun _ _ => UInt64.toNat_inj.mp)
      UInt64.toNat_lt part
  have whole :=
    versions.seq
      ((uint32 nonce).seq
        ((uint64 systemFee).seq
          ((uint64 networkFee).seq ((uint32 validUntilBlock).seq lists))))
  refine whole.map ?_
  intro left right _ seen
  simp only [Prod.mk.injEq] at seen
  rcases seen with
    ⟨sameVersion, sameNonce, sameSystemFee, sameNetworkFee, sameBlock,
      sameSigners, sameAttributes, sameScript⟩
  rw [commitment, commitment, sameVersion, sameNonce, sameSystemFee,
    sameNetworkFee, sameBlock, sameSigners, sameAttributes, sameScript]

/-- The bytes of the witnesses show their scripts. -/
theorem witnessBytes_unambiguous :
    Unambiguous
      (fun left right => left.LegibleWitnesses ∧ right.LegibleWitnesses)
      witnessBytes
      (fun transaction => transaction.witnesses.map Witness.commitment) :=
  (counted_unambiguous Witness.encode_unambiguous).comap witnesses

/-! ## What a successful serialization ensures -/

section Ensures

variable {transaction : Transaction}

/-- Every length has its bytes, and every signer the rules that it counts. -/
structure Supplied (transaction : Transaction) : Prop where
  backed : transaction.Backed
  rules : ∀ signer ∈ transaction.signers, signer.rules.Backed

theorem writeUnsigned_ensures (supplied : transaction.Supplied) :
    Ensures (writeUnsigned alloc transaction) transaction.Legible := by
  rcases supplied with ⟨backed, rules⟩
  have signerList :
      Ensures (writeSigners alloc transaction)
        (transaction.signers.length < sizeModulus ∧
          ∀ signer ∈ transaction.signers, signer.Legible) :=
    writeCounted_ensures (fun signer _ => signer.serialize_appends)
      Signer.one_le_length_encode
      fun signer inside =>
        Signer.serialize_ensures (backed.signers signer inside).groups
          (rules signer inside)
  have attributeList :
      Ensures (writeAttributes alloc transaction)
        (transaction.attributes.length < sizeModulus ∧
          ∀ attr ∈ transaction.attributes, BinaryWriter.Legible attr.data) :=
    writeCounted_ensures (fun attr _ => writeAttribute_appends attr)
      one_le_length_attributeBytes
      fun attr inside =>
        writeAttribute_ensures (backed.attributes attr inside)
  have scriptBytes :
      Ensures (writeVarBytes alloc transaction.script)
        (BinaryWriter.Legible transaction.script) :=
    writeVarBytes_ensures backed.script
  have lists :=
    (Ensures.bind_left signerList).and
      (((Ensures.bind_left attributeList).and
        (scriptBytes.bind_right
          (writeAttributes_appends transaction))).bind_right
            (writeSigners_appends transaction))
  refine
    (((((lists.bind_right (writeWord_emits 4 _).appends).bind_right
      (writeWord_emits 8 _).appends).bind_right
        (writeWord_emits 8 _).appends).bind_right
          (writeWord_emits 4 _).appends).bind_right
            (writeByte_emits transaction.version).appends).imp ?_
  rintro ⟨signers, attributes, script⟩
  exact ⟨signers, attributes, script⟩

theorem writeWitnesses_ensures (backed : transaction.Backed) :
    Ensures (writeWitnesses alloc transaction)
      transaction.LegibleWitnesses :=
  writeCounted_ensures (fun witness _ => writeWitness_appends witness)
    Witness.one_le_length_encode
    fun witness inside =>
      Witness.writeWitness_ensures (backed.witnesses witness inside)

/-- What was serialized, with or without its witnesses, is legible. -/
theorem buildSerialized_legible {includeWitnesses : Bool}
    {data : List UInt8} (supplied : transaction.Supplied)
    (built :
      buildSerialized alloc transaction includeWitnesses = .ok data) :
    transaction.Legible :=
  (Ensures.bind_left (writeUnsigned_ensures supplied)).of_produce
    (fresh_create 256) built

theorem buildSerialized_legibleWitnesses {data : List UInt8}
    (supplied : transaction.Supplied)
    (built : buildSerialized alloc transaction true = .ok data) :
    transaction.LegibleWitnesses :=
  ((writeWitnesses_ensures supplied.backed).bind_right
    (writeUnsigned_appends transaction)).of_produce (fresh_create 256) built

end Ensures

/-! ## Along two histories -/

/-- Equal serializations of the two come from equal contents. -/
structure Committed (left right : Transaction) : Prop where
  unsigned :
    ∀ (alloc alloc' : Allocator) (data : List UInt8),
      buildSerialized alloc left false = .ok data →
        buildSerialized alloc' right false = .ok data →
          left.commitment = right.commitment
  signed :
    ∀ (alloc alloc' : Allocator) (data : List UInt8),
      buildSerialized alloc left true = .ok data →
        buildSerialized alloc' right true = .ok data →
          left.commitment = right.commitment ∧
            left.witnesses.map Witness.commitment =
              right.witnesses.map Witness.commitment

theorem Supplied.committed {left right : Transaction}
    (supplied : left.Supplied) (supplied' : right.Supplied) :
    Committed left right := by
  constructor
  · intro alloc alloc' data built built'
    have same : left.unsignedBytes = right.unsignedBytes := by
      rw [← buildSerialized_unsigned built,
        ← buildSerialized_unsigned built']
    exact
      unsignedBytes_unambiguous.view_eq
        ⟨buildSerialized_legible supplied built,
          buildSerialized_legible supplied' built'⟩
        same
  · intro alloc alloc' data built built'
    have same :
        left.unsignedBytes ++ left.witnessBytes =
          right.unsignedBytes ++ right.witnessBytes := by
      rw [← buildSerialized_signed built, ← buildSerialized_signed built']
    -- The unsigned bytes end where they are read to end, in both.
    rcases
      unsignedBytes_unambiguous left right _ _
        ⟨buildSerialized_legible supplied built,
          buildSerialized_legible supplied' built'⟩
        same with
      ⟨seen, sameWitnesses⟩
    exact
      ⟨seen,
        witnessBytes_unambiguous.view_eq
          ⟨buildSerialized_legibleWitnesses supplied built,
            buildSerialized_legibleWitnesses supplied' built'⟩
          sameWitnesses⟩

variable {curve : Curve}

/-- A signer is added with the array of the witness rules that it counts. -/
def RulesPresent (step : Step curve) : Prop :=
  match step.operation with
  | .addSigner signer => signer.rules.Backed
  | _ => True

theorem next_supplied {host : Host} (transaction : Transaction)
    (step : Step curve) (supplied : transaction.Supplied)
    (keeps : KeepsBacking transaction step ∧ RulesPresent step) :
    (next host transaction step).Supplied := by
  rcases supplied with ⟨backed, rules⟩
  rcases keeps with ⟨keepsBacking, present⟩
  refine ⟨next_backed transaction step backed keepsBacking, ?_⟩
  rcases (@next_change curve host transaction step).signers_cases with
    same | ⟨signer, isAdd, added⟩
  · rw [same]
    exact rules
  · rw [added]
    rw [RulesPresent, isAdd] at present
    exact forall_mem_append_singleton rules present

theorem create_supplied {alloc : Allocator} {time : UInt32}
    {transaction : Transaction}
    (created : create alloc time = .ok transaction) :
    transaction.Supplied := by
  rcases create_backed created with ⟨backed, noSigners⟩
  refine ⟨backed, ?_⟩
  rw [noSigners]
  exact List.forall_mem_nil _

theorem finalState_supplied {host : Host} {alloc : Allocator}
    {time : UInt32} {transaction : Transaction} {steps : List (Step curve)}
    (created : create alloc time = .ok transaction)
    (present : ∀ step ∈ steps, RulesPresent step)
    (keeps : Along (next host) KeepsBacking transaction steps) :
    (finalState (next host) transaction steps).Supplied :=
  finalState_invariant Supplied next_supplied (create_supplied created)
    ((along_and transaction steps).mpr
      ⟨keeps, (along_const transaction steps).mpr present⟩)

/--
In any two histories whose signers come with their witness rules and whose
steps leave no stored length without its bytes, transactions with the same
unsigned bytes have the same header, script, signers and attributes, and
transactions with the same serialization have the same witnesses too.
-/
theorem serialization_commits_along_histories
    {host host' : Host}
    {alloc alloc' : Allocator}
    {time time' : UInt32}
    {transaction transaction' : Transaction}
    (created : create alloc time = .ok transaction)
    (created' : create alloc' time' = .ok transaction')
    (steps steps' : List (Step curve))
    (present : ∀ step ∈ steps, RulesPresent step)
    (present' : ∀ step ∈ steps', RulesPresent step)
    (keeps : Along (next host) KeepsBacking transaction steps)
    (keeps' : Along (next host') KeepsBacking transaction' steps') :
    Committed (finalState (next host) transaction steps)
      (finalState (next host') transaction' steps') :=
  (finalState_supplied created present keeps).committed
    (finalState_supplied created' present' keeps')

/-- A script and a signer with a witness rule, in one order. -/
def scriptFirst : List (Step (Curve.basePoint fun _ => none)) :=
  [⟨.ample, true, .setScript (.items [0x40])⟩,
    ⟨.ample, true, .addSigner ruledSigner⟩]

/-- The same in the other order. -/
def signerFirst : List (Step (Curve.basePoint fun _ => none)) :=
  [⟨.ample, true, .addSigner ruledSigner⟩,
    ⟨.ample, true, .setScript (.items [0x40])⟩]

/-- The order in which the parts are given does not matter. -/
theorem serialization_commits_scriptFirst :
    Committed
      (finalState (next (Host.ofTables [] [])) emptyTransaction scriptFirst)
      (finalState (next (Host.ofTables [] [])) emptyTransaction
        signerFirst) := by
  have created : create .ample 0 = .ok emptyTransaction := rfl
  have backed : ruledSigner.Backed :=
    ⟨List.forall_mem_nil _, by decide⟩
  have granted : Allocator.ample.neocGrants 1 = true := by decide
  refine
    serialization_commits_along_histories created created scriptFirst
      signerFirst ?_ ?_ ?_ ?_
  · rw [scriptFirst, List.forall_mem_cons, List.forall_mem_singleton]
    exact ⟨trivial, trivial⟩
  · rw [signerFirst, List.forall_mem_cons, List.forall_mem_singleton]
    exact ⟨trivial, trivial⟩
  · exact ⟨.inr (.inl granted), .inr backed, trivial⟩
  · exact ⟨.inr backed, .inr (.inl granted), trivial⟩

/-- An allocator without any memory left. -/
def exhausted : Allocator where
  grants _ := false
  grants_le _ granted := by cases granted

/-- A script whose replacement finds no memory, and an empty witness. -/
def scriptLost : List (Step (Curve.basePoint fun _ => none)) :=
  [⟨.ample, true, .setScript (.items [0x40, 0x40])⟩,
    ⟨exhausted, true, .setScript (.items [0x40])⟩,
    ⟨.ample, true, .addWitness ⟨.null 0, .null 0⟩⟩]

/-- A script of two bytes, and no witness. -/
def scriptKept : List (Step (Curve.basePoint fun _ => none)) :=
  [⟨.ample, true, .setScript (.items [0x01, 0x00])⟩]

/--
The bytes of a lost script and of an empty witness read as a script of two
bytes without a witness.
-/
theorem lost_script_reads_as_another :
    ¬∀ (host host' : Host) (alloc alloc' : Allocator) (time time' : UInt32)
        (transaction transaction' : Transaction)
        (steps steps' : List (Step (Curve.basePoint fun _ => none))),
      create alloc time = .ok transaction →
        create alloc' time' = .ok transaction' →
          (∀ step ∈ steps, RulesPresent step) →
            (∀ step ∈ steps', RulesPresent step) →
              Committed (finalState (next host) transaction steps)
                (finalState (next host') transaction' steps') := by
  intro always
  have committed :=
    always (Host.ofTables [] []) (Host.ofTables [] []) .ample
      .ample 0 0 emptyTransaction emptyTransaction scriptLost
      scriptKept rfl rfl
      (by simp [scriptLost, RulesPresent])
      (by simp [scriptKept, RulesPresent])
  have lost :
      buildSerialized .ample
          (finalState (next (Host.ofTables [] [])) emptyTransaction
            scriptLost) true =
        .ok (List.replicate 27 0x00 ++ [0x02, 0x01, 0x00, 0x00]) := by
    decide +kernel
  have kept :
      buildSerialized .ample
          (finalState (next (Host.ofTables [] [])) emptyTransaction
            scriptKept) true =
        .ok (List.replicate 27 0x00 ++ [0x02, 0x01, 0x00, 0x00]) := by
    decide +kernel
  rcases committed.signed .ample .ample _ lost kept with
    ⟨same, -⟩
  have scripts := congrArg TransactionCommitment.script same
  cases scripts

end Transaction

end NeoC
