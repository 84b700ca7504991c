import NeoC.Serialization.RoundTrip
import NeoC.WitnessRule.Construction

/-!
# The binary form of witness conditions and rules

Three recursions over a condition have to agree: the serializer, the size
function and the deserializer.  The serializer emits the bytes of the
condition; the size is their number; and the deserializer `Reads` them, at
whatever depth the condition stands.  In the other direction the deserializer
`Yields` only proper conditions within the limit of nesting.
-/

namespace NeoC

open Foundation Serialization

/-! ## Types of conditions -/

/-- A `neoc_witness_condition_type_t`. -/
inductive WitnessConditionType where
  | boolean
  | not
  | and
  | or
  | scriptHash
  | group
  | calledByEntry
  | calledByContract
  | calledByGroup
deriving DecidableEq, Repr

/-- The type that a byte stands for. -/
def WitnessConditionType.ofByte (byte : UInt8) :
    Option WitnessConditionType :=
  if byte = 0x00 then some .boolean
  else if byte = 0x01 then some .not
  else if byte = 0x02 then some .and
  else if byte = 0x03 then some .or
  else if byte = 0x18 then some .scriptHash
  else if byte = 0x19 then some .group
  else if byte = 0x20 then some .calledByEntry
  else if byte = 0x28 then some .calledByContract
  else if byte = 0x29 then some .calledByGroup
  else none

namespace WitnessCondition

/-- The type of a condition. -/
def type : WitnessCondition → WitnessConditionType
  | .boolean _ => .boolean
  | .not _ => .not
  | .and _ => .and
  | .or _ => .or
  | .scriptHash _ => .scriptHash
  | .group _ => .group
  | .calledByEntry => .calledByEntry
  | .calledByContract _ => .calledByContract
  | .calledByGroup _ => .calledByGroup

/-! ## The size -/

mutual

/--
`neoc_witness_condition_internal_size`, before it is reduced to a `size_t`.
-/
def internalSize : WitnessCondition → Nat
  | .boolean _ => 1 + 1
  | .not expression => 1 + internalSize expression
  | .and expressions =>
      1 + BinaryWriter.varIntSize expressions.length +
        internalSizes expressions
  | .or expressions =>
      1 + BinaryWriter.varIntSize expressions.length +
        internalSizes expressions
  | .scriptHash _ => 1 + 20
  | .group _ => 1 + 33
  | .calledByEntry => 1
  | .calledByContract _ => 1 + 20
  | .calledByGroup _ => 1 + 33

/-- The loop over the operands. -/
def internalSizes : List WitnessCondition → Nat
  | [] => 0
  | expression :: rest => internalSize expression + internalSizes rest

end

/-- `neoc_witness_condition_get_size`. -/
def getSize (condition : Option WitnessCondition) : Nat :=
  match condition with
  | none => 0
  | some condition => condition.internalSize % sizeModulus

/-! ## The deserializer -/

/-- Reading the operands of a conjunction or disjunction. -/
def deserializeOperands (alloc : Allocator)
    (operand : Routine BinaryReader WitnessCondition) :
    Routine BinaryReader (List WitnessCondition) := do
  let count ← BinaryReader.readVarInt
  if count = 0 ∨ maxSubitems < count.toNat then
    errorSet .invalidFormat "Invalid witness condition list size"
  else do
    BinaryReader.malloc alloc (count.toNat * 8)
      "Failed to allocate witness condition list"
    operand.times count.toNat

/-- `neoc_hash160_deserialize`. -/
def deserializeHash : Routine BinaryReader Hash160 := do
  let data ← BinaryReader.readBytes 20
  pure (Bytes.fill 20 data)

/-- Reading the key of a group. -/
def deserializeKey (curve : Curve) (alloc : Allocator) :
    Routine BinaryReader (Option (Bytes 33)) := do
  let buffer ← BinaryReader.readBytes 33
  let publicKey ← Call.lift (EcPublicKey.fromBytes curve alloc buffer)
  pure (some publicKey.compressed)

/-- What follows the type byte; `operand` reads a condition one level down. -/
def deserializePayload (curve : Curve) (alloc : Allocator)
    (operand : Routine BinaryReader WitnessCondition)
    (type : WitnessConditionType) : Routine BinaryReader WitnessCondition :=
  match type with
  | .boolean => do
      let value ← BinaryReader.readBool
      pure (.boolean value)
  | .not => do
      let expression ← operand
      pure (.not expression)
  | .and => do
      let expressions ← deserializeOperands alloc operand
      pure (.and expressions)
  | .or => do
      let expressions ← deserializeOperands alloc operand
      pure (.or expressions)
  | .scriptHash => do
      let hash ← deserializeHash
      pure (.scriptHash hash)
  | .group => do
      let publicKey ← deserializeKey curve alloc
      pure (.group publicKey)
  | .calledByEntry => pure .calledByEntry
  | .calledByContract => do
      let hash ← deserializeHash
      pure (.calledByContract hash)
  | .calledByGroup => do
      let publicKey ← deserializeKey curve alloc
      pure (.calledByGroup publicKey)

/-- `neoc_witness_condition_deserialize_internal`. -/
def deserializeInternal (curve : Curve) (alloc : Allocator) (depth : Nat) :
    Routine BinaryReader WitnessCondition :=
  if depth > maxNestingDepth then
    errorSet .invalidFormat "Witness condition nesting depth exceeded"
  else do
    let typeByte ← BinaryReader.readByte
    match WitnessConditionType.ofByte typeByte with
    | none =>
        errorSet .invalidFormat "Unknown witness condition type byte"
    | some type => do
        Call.lift (allocCondition alloc)
        deserializePayload curve alloc
          (deserializeInternal curve alloc (depth + 1)) type
termination_by maxNestingDepth + 1 - depth

/-- `neoc_witness_condition_deserialize`. -/
def deserialize (curve : Curve) (alloc : Allocator) :
    Routine BinaryReader WitnessCondition :=
  deserializeInternal curve alloc 0

end WitnessCondition

/-! ## Rules -/

/-- `neoc_witness_action_from_byte`. -/
def WitnessAction.fromByte (byte : UInt8) : Outcome WitnessAction :=
  if byte = 0 then .ok .deny
  else if byte = 1 then .ok .allow
  else .error (.error .invalidArgument "Invalid witness action byte")

namespace WitnessRule

/-- `neoc_witness_rule_get_size`. -/
def getSize (rule : Option WitnessRule) : Nat :=
  match rule with
  | none => 0
  | some rule => sizeAdd 1 (WitnessCondition.getSize rule.condition)

/-- What is written for a rule. -/
def writeRule (alloc : Allocator) (rule : WitnessRule) :
    Routine BinaryWriter Unit := do
  BinaryWriter.writeByte alloc rule.action.toByte
  WitnessCondition.serialize alloc rule.condition

/--
`neoc_witness_rule_serialize`: the bytes written to a buffer of `bufferSize`
bytes.  The state is `*bytes_written`.
-/
def serialize (alloc : Allocator) (rule : Option WitnessRule)
    (bufferSize : Nat) : Routine Nat (List UInt8) :=
  match rule with
  | none => errorSet .invalidArgument "Invalid arguments"
  | some rule =>
      if bufferSize < getSize (some rule) then do
        Call.update fun _ => getSize (some rule)
        errorSet .bufferTooSmall
          "Buffer too small for witness rule serialization"
      else do
        let serialized ←
          Call.lift
            (BinaryWriter.produce alloc
              (BinaryWriter.create alloc (getSize (some rule)) true)
              (writeRule alloc rule))
        if bufferSize < serialized.length then
          Call.halt .illegalAccess
        else do
          Call.update fun _ => serialized.length
          pure serialized

/-- What is read for a rule. -/
def readRule (curve : Curve) (alloc : Allocator) :
    Routine BinaryReader WitnessRule := do
  let actionByte ← BinaryReader.readByte
  let action ← Call.lift (WitnessAction.fromByte actionByte)
  let condition ← WitnessCondition.deserialize curve alloc
  BinaryReader.malloc alloc structSize "Failed to allocate witness rule"
  pure { action, condition := some condition }

/--
`neoc_witness_rule_deserialize`: the rule and `*bytes_read`.
-/
def deserialize (curve : Curve) (alloc : Allocator) (buffer : List UInt8) :
    Outcome (WitnessRule × Nat) := do
  let reader ← BinaryReader.create alloc buffer
  let read ← (readRule curve alloc).eval reader
  .ok (read.1, read.2.getPosition)

end WitnessRule

namespace WitnessCondition

open BinaryWriter (countBytes)

variable {curve : Curve} {alloc : Allocator}

/-! ## The size is the number of bytes -/

theorem internalSizes_eq {expressions : List WitnessCondition}
    (each :
      ∀ expression ∈ expressions,
        expression.internalSize = expression.encode.length) :
    internalSizes expressions = (encodeAll expressions).length := by
  induction expressions with
  | nil => rfl
  | cons expression rest induction =>
      rcases List.forall_mem_cons.mp each with ⟨first, later⟩
      rw [internalSizes, encodeAll, List.length_append, first,
        induction later]

theorem Legible.internalSize_eq {condition : WitnessCondition}
    (legible : condition.Legible) :
    condition.internalSize = condition.encode.length := by
  induction legible with
  | boolean value => rfl
  | not inner induction =>
      rw [internalSize, encode, induction]
      exact Nat.add_comm _ _
  | and small each induction =>
      rw [internalSize, encode, internalSizes_eq induction,
        ← BinaryWriter.length_countBytes small]
      simp only [List.length_append, List.length_singleton]
      omega
  | or small each induction =>
      rw [internalSize, encode, internalSizes_eq induction,
        ← BinaryWriter.length_countBytes small]
      simp only [List.length_append, List.length_singleton]
      omega
  | scriptHash hash =>
      rw [internalSize, encode, List.length_append, hash.property]
      rfl
  | group encoded =>
      rw [internalSize, encode, List.length_append, groupBytes,
        encoded.property]
      rfl
  | calledByEntry => rfl
  | calledByContract hash =>
      rw [internalSize, encode, List.length_append, hash.property]
      rfl
  | calledByGroup encoded =>
      rw [internalSize, encode, List.length_append, groupBytes,
        encoded.property]
      rfl

theorem Legible.getSize_eq {condition : WitnessCondition}
    (legible : condition.Legible)
    (small : condition.encode.length < sizeModulus) :
    getSize (some condition) = condition.encode.length := by
  rw [getSize, legible.internalSize_eq, Nat.mod_eq_of_lt small]

/-! ## Reading the bytes of a condition -/

theorem ofByte_typeToByte (condition : WitnessCondition) :
    WitnessConditionType.ofByte condition.typeToByte =
      some condition.type := by
  cases condition <;> rfl

theorem reads_hash (hash : Hash160) :
    Reads deserializeHash hash.val hash := by
  have read := (reads_readBytes hash.val).map (Bytes.fill 20)
  rw [hash.property, Bytes.fill_val] at read
  exact read

theorem reads_key (granted : alloc.grants EcPublicKey.structSize = true)
    (point : curve.Point) :
    Reads (deserializeKey curve alloc) (curve.compressed point).val
      (some (curve.compressed point)) := by
  have decoded :
      EcPublicKey.fromBytes curve alloc (curve.compressed point).val =
        .ok (EcPublicKey.ofPoint point true) :=
    EcPublicKey.fromBytes_compressed granted
      (EcPublicKey.ofPoint point true)
  have raw := reads_readBytes (curve.compressed point).val
  rw [(curve.compressed point).property] at raw
  have read :
      Reads (deserializeKey curve alloc)
        ((curve.compressed point).val ++ [])
        (some (EcPublicKey.ofPoint point true).compressed) :=
    raw.bind
      ((reads_lift decoded).map fun publicKey =>
        some publicKey.compressed)
  rw [List.append_nil] at read
  exact read

/-- The operands are read behind their number. -/
theorem reads_operands (serves : alloc.Serves 128)
    {operand : Routine BinaryReader WitnessCondition}
    {expressions : List WitnessCondition}
    (some : 1 ≤ expressions.length)
    (few : expressions.length ≤ maxSubitems)
    (each :
      ∀ expression ∈ expressions,
        Reads operand expression.encode expression) :
    Reads (deserializeOperands alloc operand)
      (countBytes expressions.length ++ expressions.flatMap encode)
      expressions := by
  simp only [maxSubitems] at few
  have number :
      (UInt64.ofNat expressions.length).toNat = expressions.length :=
    UInt64.toNat_ofNat_of_lt' (by simp only [UInt64.size]; omega)
  have counted :=
    reads_readVarInt (UInt64.ofNat expressions.length)
  have prefixed :
      VarInt.encode (UInt64.ofNat expressions.length).toNat =
        countBytes expressions.length := by
    rw [countBytes, number,
      Nat.mod_eq_of_lt (by simp only [sizeModulus]; omega)]
  rw [prefixed] at counted
  refine counted.bind ?_
  have accepted :
      ¬ (UInt64.ofNat expressions.length = 0 ∨
        maxSubitems < (UInt64.ofNat expressions.length).toNat) := by
    rintro (zero | many)
    · have none := congrArg UInt64.toNat zero
      rw [number, UInt64.toNat_zero] at none
      omega
    · rw [number] at many
      simp only [maxSubitems] at many
      omega
  rw [if_neg accepted, number]
  exact
    (reads_malloc _ (serves _ (by omega))).bind (Reads.times each)

/-- A condition is read if what follows its type byte is. -/
theorem reads_internal {depth : Nat} (shallow : depth ≤ maxNestingDepth)
    (granted : alloc.grants structSize = true)
    {condition : WitnessCondition}
    (payload :
      Reads
        (deserializePayload curve alloc
          (deserializeInternal curve alloc (depth + 1)) condition.type)
        condition.body condition) :
    Reads (deserializeInternal curve alloc depth) condition.encode
      condition := by
  have allocated : allocCondition alloc = .ok () := by
    rw [allocCondition, if_pos granted]
  rw [deserializeInternal, if_neg (Nat.not_lt.mpr shallow), encode_eq_cons]
  refine (reads_readByte condition.typeToByte).bind ?_
  rw [ofByte_typeToByte]
  exact (reads_lift allocated).bind payload

/-- A proper condition within the limit is read back. -/
theorem Proper.reads {condition : WitnessCondition}
    (proper : condition.Proper curve) (serves : alloc.Serves 128)
    {depth : Nat}
    (shallow : depth + condition.nestingDepth ≤ maxNestingDepth) :
    Reads (deserializeInternal curve alloc depth) condition.encode
      condition := by
  have granted : alloc.grants structSize = true := serves _ (by decide)
  have key : alloc.grants EcPublicKey.structSize = true :=
    serves _ (by decide)
  induction proper generalizing depth with
  | boolean value =>
      have flag := (reads_readByte (if value then 1 else 0)).map (· != 0)
      have restored : ((if value then 1 else 0 : UInt8) != 0) = value := by
        cases value <;> rfl
      rw [restored] at flag
      refine reads_internal (by omega) granted ?_
      exact flag.map WitnessCondition.boolean
  | not inner induction =>
      rw [nestingDepth] at shallow
      refine reads_internal (by omega) granted ?_
      have nested := @induction (depth + 1) (by omega)
      exact nested.map WitnessCondition.not
  | and some few each induction =>
      rw [nestingDepth] at shallow
      have inside := operand_shallow shallow
      refine reads_internal (by omega) granted ?_
      have nested :=
        reads_operands serves some few fun expression member =>
          induction expression member (inside expression member)
      exact nested.map WitnessCondition.and
  | or some few each induction =>
      rw [nestingDepth] at shallow
      have inside := operand_shallow shallow
      refine reads_internal (by omega) granted ?_
      have nested :=
        reads_operands serves some few fun expression member =>
          induction expression member (inside expression member)
      exact nested.map WitnessCondition.or
  | scriptHash hash =>
      refine reads_internal (by omega) granted ?_
      exact (reads_hash hash).map WitnessCondition.scriptHash
  | group point =>
      refine reads_internal (by omega) granted ?_
      exact (reads_key key point).map WitnessCondition.group
  | calledByEntry =>
      refine reads_internal (by omega) granted ?_
      exact reads_pure _
  | calledByContract hash =>
      refine reads_internal (by omega) granted ?_
      exact (reads_hash hash).map WitnessCondition.calledByContract
  | calledByGroup point =>
      refine reads_internal (by omega) granted ?_
      exact (reads_key key point).map WitnessCondition.calledByGroup

/-! ## What the deserializer accepts -/

/-- A proper condition whose nesting fits below a depth. -/
def Fits (curve : Curve) (depth : Nat) (condition : WitnessCondition) :
    Prop :=
  condition.Proper curve ∧
    depth + condition.nestingDepth ≤ maxNestingDepth

theorem yields_operands {operand : Routine BinaryReader WitnessCondition}
    {accepted : WitnessCondition → Prop}
    (each : Call.Yields operand accepted) :
    Call.Yields (deserializeOperands alloc operand) fun expressions =>
      1 ≤ expressions.length ∧ expressions.length ≤ maxSubitems ∧
        ∀ expression ∈ expressions, accepted expression := by
  refine Call.Yields.after fun count => ?_
  split
  · exact Call.yields_halt _
  rename_i counted
  refine Call.Yields.after fun _ => ?_
  have positive : 1 ≤ count.toNat := by
    rcases Nat.eq_zero_or_pos count.toNat with zero | positive
    · exact absurd (.inl (UInt64.toNat_inj.mp zero)) counted
    · exact positive
  have few : count.toNat ≤ maxSubitems := by
    by_contra many
    exact counted (.inr (Nat.lt_of_not_le many))
  intro reader expressions reader' ran
  rcases each.times count.toNat reader expressions reader' ran with
    ⟨length, inside⟩
  exact ⟨by omega, by omega, inside⟩

theorem yields_key :
    Call.Yields (deserializeKey curve alloc) fun publicKey =>
      ∃ point, publicKey = some (curve.compressed point) := by
  refine Call.Yields.after fun _ => Call.Yields.after fun publicKey => ?_
  refine Call.yields_pure ⟨publicKey.point, ?_⟩
  rw [publicKey.compressed_eq]

/-- Operands one level down make a condition at this level. -/
theorem yields_payload {depth : Nat}
    {operand : Routine BinaryReader WitnessCondition}
    (shallow : depth ≤ maxNestingDepth)
    (each : Call.Yields operand (Fits curve (depth + 1)))
    (type : WitnessConditionType) :
    Call.Yields (deserializePayload curve alloc operand type)
      (Fits curve depth) := by
  have below {expressions : List WitnessCondition}
      (inside :
        ∀ expression ∈ expressions, Fits curve (depth + 1) expression) :
      depth + nestingBelow expressions ≤ maxNestingDepth := by
    have levels :
        nestingBelow expressions ≤ maxNestingDepth - depth := by
      apply nestingBelow_le_iff.mpr
      intro expression member
      have within := (inside expression member).2
      omega
    omega
  cases type with
  | boolean =>
      refine Call.Yields.after fun value => Call.yields_pure ?_
      exact ⟨.boolean value, shallow⟩
  | not =>
      refine each.bind fun expression fits => Call.yields_pure ?_
      refine ⟨.not fits.1, ?_⟩
      rw [nestingDepth]
      have within := fits.2
      omega
  | and =>
      refine (yields_operands each).bind ?_
      rintro expressions ⟨some, few, inside⟩
      refine Call.yields_pure ⟨.and some few ?_, ?_⟩
      · exact fun expression member => (inside expression member).1
      · rw [nestingDepth]
        exact below inside
  | or =>
      refine (yields_operands each).bind ?_
      rintro expressions ⟨some, few, inside⟩
      refine Call.yields_pure ⟨.or some few ?_, ?_⟩
      · exact fun expression member => (inside expression member).1
      · rw [nestingDepth]
        exact below inside
  | scriptHash =>
      refine Call.Yields.after fun hash => Call.yields_pure ?_
      exact ⟨.scriptHash hash, shallow⟩
  | group =>
      refine yields_key.bind ?_
      rintro _ ⟨point, rfl⟩
      exact Call.yields_pure ⟨.group point, shallow⟩
  | calledByEntry => exact Call.yields_pure ⟨.calledByEntry, shallow⟩
  | calledByContract =>
      refine Call.Yields.after fun hash => Call.yields_pure ?_
      exact ⟨.calledByContract hash, shallow⟩
  | calledByGroup =>
      refine yields_key.bind ?_
      rintro _ ⟨point, rfl⟩
      exact Call.yields_pure ⟨.calledByGroup point, shallow⟩

/-- Whatever is accepted is proper and within the limit. -/
theorem yields_internal (depth : Nat) :
    Call.Yields (deserializeInternal curve alloc depth)
      (Fits curve depth) := by
  -- The induction is on the levels that are left.
  induction left : maxNestingDepth + 1 - depth generalizing depth with
  | zero =>
      rw [deserializeInternal, if_pos (by omega)]
      exact Call.yields_halt _
  | succ levels induction =>
      rw [deserializeInternal, if_neg (by omega)]
      refine Call.Yields.after fun typeByte => ?_
      split
      · exact Call.yields_halt _
      · refine Call.Yields.after fun _ => ?_
        exact
          yields_payload (by omega) (induction (depth + 1) (by omega)) _

end WitnessCondition

/-! ## Rules on the wire -/

namespace WitnessRule

variable {curve : Curve} {alloc : Allocator}

theorem fromByte_toByte (action : WitnessAction) :
    WitnessAction.fromByte action.toByte = .ok action := by
  cases action <;> rfl

/-- The bytes of a rule. -/
def encode (action : WitnessAction) (condition : WitnessCondition) :
    List UInt8 :=
  action.toByte :: condition.encode

theorem getSize_eq {condition : WitnessCondition} (action : WitnessAction)
    (legible : condition.Legible)
    (small : condition.encode.length + 1 < sizeModulus) :
    getSize (some { action, condition := some condition }) =
      (encode action condition).length := by
  rw [getSize, legible.getSize_eq (by omega), sizeAdd_of_lt (by omega),
    encode, List.length_cons, Nat.add_comm]

theorem writeRule_emits {condition : WitnessCondition}
    (action : WitnessAction) (legible : condition.Legible)
    (granted : alloc.grants 33 = true)
    (shallow :
      condition.nestingDepth ≤ WitnessCondition.maxNestingDepth) :
    BinaryWriter.Emits alloc
      (writeRule alloc { action, condition := some condition })
      (encode action condition) :=
  (BinaryWriter.writeByte_emits _).bind
    (legible.serializeInternal_emits granted (by rwa [Nat.zero_add]))

/-- With memory, a rule is written into a buffer that is large enough. -/
theorem serialize_eq {condition : WitnessCondition}
    (action : WitnessAction) (legible : condition.Legible)
    (shallow : condition.nestingDepth ≤ WitnessCondition.maxNestingDepth)
    {bufferSize : Nat}
    (room : (encode action condition).length ≤ bufferSize)
    (serves :
      alloc.Serves (max 33 (2 * (encode action condition).length)))
    (bytesWritten : Nat) :
    serialize alloc (some { action, condition := some condition })
        bufferSize bytesWritten =
      (.ok (encode action condition), (encode action condition).length) := by
  have bounded := serves.bound_le
  have modulus : ptrdiffMax < sizeModulus := by decide
  have length :
      (encode action condition).length = condition.encode.length + 1 := by
    rw [encode, List.length_cons]
  have size := getSize_eq action legible (by omega)
  rcases @BinaryWriter.create_succeeds alloc
      (getSize (some { action, condition := some condition })) true
      (serves.mono
        (by rw [size]; simp only [BinaryWriter.structSize]; omega)) with
    ⟨writer, created⟩
  have made :=
    BinaryWriter.produce_succeeds
      (BinaryWriter.fresh_create
        (getSize (some { action, condition := some condition })))
      created
      (writeRule_emits action legible (serves 33 (le_max_left _ _)) shallow)
      (serves.mono (le_max_right _ _))
  have fits :
      ¬ bufferSize <
        getSize (some { action, condition := some condition }) := by
    omega
  have inside : ¬ bufferSize < (encode action condition).length :=
    Nat.not_lt.mpr room
  rw [serialize, if_neg fits, made, Call.lift_ok_bind, if_neg inside]
  rfl

theorem reads_rule {condition : WitnessCondition} (action : WitnessAction)
    (proper : condition.Proper curve) (serves : alloc.Serves 128)
    (shallow :
      condition.nestingDepth ≤ WitnessCondition.maxNestingDepth) :
    Reads (readRule curve alloc) (encode action condition)
      { action, condition := some condition } := by
  have read :
      Reads (readRule curve alloc)
        ([action.toByte] ++ ([] ++ (condition.encode ++ ([] ++ []))))
        { action, condition := some condition } :=
    (reads_readByte action.toByte).bind
      ((reads_lift (fromByte_toByte action)).bind
        ((proper.reads serves (by rwa [Nat.zero_add])).bind
          ((reads_malloc _ (serves _ (by decide))).bind
            (reads_pure _))))
  rw [List.nil_append, List.nil_append, List.append_nil] at read
  exact read

/-- A rule that was written is read back from what starts with its bytes. -/
theorem deserialize_eq {condition : WitnessCondition}
    (action : WitnessAction) (proper : condition.Proper curve)
    (shallow : condition.nestingDepth ≤ WitnessCondition.maxNestingDepth)
    {suffix : List UInt8}
    (serves :
      alloc.Serves
        (max 128 ((encode action condition).length + suffix.length))) :
    deserialize curve alloc (encode action condition ++ suffix) =
      .ok
        ({ action, condition := some condition },
          (encode action condition).length) := by
  have bounded := serves.bound_le
  have opened :=
    @BinaryReader.create_succeeds alloc (encode action condition ++ suffix)
      (serves.mono
        (by
          rw [List.length_append]
          simp only [BinaryReader.structSize]
          omega))
  have read :=
    (reads_rule action proper (serves.mono (le_max_left _ _))
      shallow).eval_fresh
        (show (encode action condition ++ suffix).length ≤ ptrdiffMax by
          rw [List.length_append]
          omega)
  rw [deserialize, opened]
  change (Call.eval _ _ >>= _) = _
  rw [read]
  rfl

/-- Rules are only accepted with proper conditions within the limit. -/
theorem deserialize_fits {buffer : List UInt8} {rule : WitnessRule}
    {bytesRead : Nat}
    (accepted : deserialize curve alloc buffer = .ok (rule, bytesRead)) :
    ∃ condition,
      rule.condition = some condition ∧
        WitnessCondition.Fits curve 0 condition := by
  rcases Except.bind_eq_ok_iff.mp accepted with ⟨reader, -, rest⟩
  rcases Except.bind_eq_ok_iff.mp rest with ⟨⟨found, last⟩, ran, rest⟩
  injection rest with same
  injection same with equal
  subst equal
  have yields :
      Call.Yields (readRule curve alloc) fun rule =>
        ∃ condition,
          rule.condition = some condition ∧
            WitnessCondition.Fits curve 0 condition := by
    refine Call.Yields.after fun _ => Call.Yields.after fun action => ?_
    refine (WitnessCondition.yields_internal 0).bind ?_
    intro condition fits
    refine Call.Yields.after fun _ => Call.yields_pure ?_
    exact ⟨condition, rfl, fits⟩
  exact yields reader found last (Call.eval_eq_ok_iff.mp ran)

/-! ## The codec as a whole -/

open WitnessCondition (Proper nestingDepth maxNestingDepth)

/-- The serialized form of a condition, and what is read from it. -/
structure ConditionCodec (curve : Curve) (condition : WitnessCondition)
    (bytes : List UInt8) : Prop where
  /-- With memory, exactly these bytes are written. -/
  written :
    ∀ (alloc : Allocator) (writer : BinaryWriter),
      writer.WellFormed → writer.autoGrow = true →
        alloc.Serves (max 33 (2 * (writer.position + bytes.length))) →
          ∃ written,
            WitnessCondition.serialize alloc (some condition) writer =
              (.ok (), written) ∧
            written.contents = writer.contents ++ bytes
  size : WitnessCondition.getSize (some condition) = bytes.length
  /-- Wherever they stand and whatever follows, they are read back. -/
  read :
    ∀ (alloc : Allocator) (reader : BinaryReader) (suffix : List UInt8),
      alloc.Serves 128 → reader.WellFormed →
        reader.data.drop reader.position = bytes ++ suffix →
          WitnessCondition.deserialize curve alloc reader =
            (.ok condition,
              { reader with position := reader.position + bytes.length })

/-- The serialized form of a rule, and what is read from it. -/
structure RuleCodec (curve : Curve) (rule : WitnessRule)
    (bytes : List UInt8) : Prop where
  written :
    ∀ (alloc : Allocator) (bufferSize bytesWritten : Nat),
      bytes.length ≤ bufferSize →
        alloc.Serves (max 33 (2 * bytes.length)) →
          serialize alloc (some rule) bufferSize bytesWritten =
            (.ok bytes, bytes.length)
  size : getSize (some rule) = bytes.length
  read :
    ∀ (alloc : Allocator) (suffix : List UInt8),
      alloc.Serves (max 128 (bytes.length + suffix.length)) →
        deserialize curve alloc (bytes ++ suffix) = .ok (rule, bytes.length)

/-- A proper condition within the limit is written and read back. -/
theorem conditionCodec {condition : WitnessCondition} {curve : Curve}
    (proper : condition.Proper curve)
    (shallow : condition.nestingDepth ≤ maxNestingDepth) :
    ConditionCodec curve condition condition.encode := by
  have fits : 0 + condition.nestingDepth ≤ maxNestingDepth := by
    rwa [Nat.zero_add]
  have bounded := proper.length_encode_le shallow
  have limit : WitnessCondition.sizeBound maxNestingDepth = 8738 := rfl
  refine ⟨?_, ?_, ?_⟩
  · intro alloc writer wellFormed grows serves
    have emits :=
      proper.legible.serializeInternal_emits
        (serves 33 (le_max_left _ _)) fits
    rcases emits.succeeds writer wellFormed grows
        (serves.mono (le_max_right _ _)) with
      ⟨written, ran⟩
    exact
      ⟨written, ran, (emits.appends writer written wellFormed ran).2.2⟩
  · exact
      proper.legible.getSize_eq (by simp only [sizeModulus]; omega)
  · intro alloc reader suffix serves wellFormed found
    exact proper.reads serves fits reader suffix wellFormed found

/-- A rule with a proper condition within the limit, likewise. -/
theorem ruleCodec {condition : WitnessCondition} {curve : Curve}
    (proper : condition.Proper curve)
    (shallow : condition.nestingDepth ≤ maxNestingDepth)
    (action : WitnessAction) :
    RuleCodec curve { action, condition := some condition }
      (encode action condition) := by
  have bounded := proper.length_encode_le shallow
  have limit : WitnessCondition.sizeBound maxNestingDepth = 8738 := rfl
  refine ⟨?_, ?_, ?_⟩
  · intro alloc bufferSize bytesWritten room serves
    exact
      serialize_eq action proper.legible shallow room serves bytesWritten
  · exact
      getSize_eq action proper.legible (by simp only [sizeModulus]; omega)
  · intro alloc suffix serves
    exact deserialize_eq action proper shallow serves

/--
Every proper condition within the limit of nesting has a serialized form that
is written, measured and read back, and so has every rule with it.  Whatever
the deserializers accept is proper and within the limit.
-/
theorem witness_codec
    (curve : Curve) :
    (∀ condition : WitnessCondition,
      condition.Proper curve →
        condition.nestingDepth ≤ maxNestingDepth →
          (∃ bytes, ConditionCodec curve condition bytes) ∧
          ∀ action, ∃ bytes,
            RuleCodec curve { action, condition := some condition }
              bytes) ∧
    (∀ (alloc : Allocator) (reader reader' : BinaryReader)
        (condition : WitnessCondition),
      WitnessCondition.deserialize curve alloc reader =
          (.ok condition, reader') →
        condition.Proper curve ∧
          condition.nestingDepth ≤ maxNestingDepth) ∧
    ∀ (alloc : Allocator) (buffer : List UInt8) (rule : WitnessRule)
        (bytesRead : Nat),
      deserialize curve alloc buffer = .ok (rule, bytesRead) →
        ∃ condition,
          rule.condition = some condition ∧ condition.Proper curve ∧
            condition.nestingDepth ≤ maxNestingDepth := by
  refine ⟨?_, ?_, ?_⟩
  · intro condition proper shallow
    exact
      ⟨⟨_, conditionCodec proper shallow⟩,
        fun action => ⟨_, ruleCodec proper shallow action⟩⟩
  · intro alloc reader reader' condition accepted
    have fits :=
      WitnessCondition.yields_internal 0 reader condition reader' accepted
    rwa [WitnessCondition.Fits, Nat.zero_add] at fits
  · intro alloc buffer rule bytesRead accepted
    rcases deserialize_fits accepted with ⟨condition, carries, fits⟩
    rw [WitnessCondition.Fits, Nat.zero_add] at fits
    exact ⟨condition, carries, fits⟩

/-- A rule with a nested condition, followed by other bytes. -/
theorem witness_codec_nested :
    ∃ bytes,
      serialize .ample
          (some
            ⟨.allow,
              some (.and [.not .calledByEntry, .boolean true])⟩) 100 0 =
        (.ok bytes, bytes.length) ∧
      deserialize (Curve.basePoint fun _ => none) .ample
          (bytes ++ [7]) =
        .ok
          (⟨.allow, some (.and [.not .calledByEntry, .boolean true])⟩,
            bytes.length) := by
  have proper :
      Proper (Curve.basePoint fun _ => none)
        (.and [.not .calledByEntry, .boolean true]) := by
    refine .and (by decide) (by decide) ?_
    intro expression member
    rcases List.mem_cons.mp member with rfl | member
    · exact .not .calledByEntry
    · rw [List.mem_singleton.mp member]
      exact .boolean true
  rcases
    ((witness_codec (Curve.basePoint fun _ => none)).1 _ proper
      (by decide)).2 .allow with
    ⟨bytes, codec⟩
  have length : bytes.length = 7 := codec.size.symm
  refine ⟨bytes, codec.written _ _ _ (by omega) ?_, codec.read _ _ ?_⟩
  · rw [length]
    exact Allocator.ample_serves (by decide)
  · rw [length]
    exact Allocator.ample_serves (by decide)

end WitnessRule

end NeoC
