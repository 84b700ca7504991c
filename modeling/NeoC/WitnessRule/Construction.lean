import NeoC.Transaction.Copy
import NeoC.Transaction.WireFormat

/-!
# Building witness conditions and rules

The constructors of witness conditions copy their operands and check how many
there are.  None of them looks at how deeply the operands are nested; the
serializer does.  `Built` is what the constructors can make, in any
combination and under any memory, and `Proper` describes it from the inside:
between one and sixteen operands everywhere, and keys that are points of the
curve.

With memory a proper condition can be serialized exactly if its nesting is
within the limit of the serializer.
-/

namespace NeoC

open Foundation

theorem Copies.eq_of_ok {α : Type} {outcome : Outcome α} {value result : α}
    (copies : Copies outcome value) (made : outcome = .ok result) :
    result = value := by
  rcases copies with same | ⟨code, text, failed⟩
  · rw [made] at same
    injection same
  · rw [made] at failed
    cases failed

namespace WitnessCondition

/-- `NEOC_WITNESS_CONDITION_MAX_SUBITEMS`. -/
def maxSubitems : Nat := 16

/-! ## The constructors -/

/-- `neoc_witness_condition_alloc`, with the error that its callers set. -/
def allocCondition (alloc : Allocator) : Outcome Unit :=
  if alloc.grants structSize then
    .ok ()
  else
    .error (.error .outOfMemory "Failed to allocate witness condition")

/-- `neoc_witness_condition_clone`. -/
def clone (curve : Curve) (alloc : Allocator)
    (src : Option WitnessCondition) : Outcome WitnessCondition :=
  match src with
  | none => .error (.error .invalidArgument "Invalid arguments")
  | some condition => cloneInternal curve alloc condition

/-- `neoc_witness_condition_create_boolean`. -/
def createBoolean (alloc : Allocator) (value : Bool) :
    Outcome WitnessCondition := do
  allocCondition alloc
  .ok (.boolean value)

/-- `neoc_witness_condition_create_not`. -/
def createNot (curve : Curve) (alloc : Allocator)
    (expression : Option WitnessCondition) : Outcome WitnessCondition :=
  match expression with
  | none => .error (.error .invalidArgument "Invalid arguments")
  | some expression => do
      allocCondition alloc
      let expression ← cloneInternal curve alloc expression
      .ok (.not expression)

/-- `neoc_witness_condition_create_logical`. -/
def createLogical (curve : Curve) (alloc : Allocator)
    (type : List WitnessCondition → WitnessCondition)
    (expressions : Slice (Option WitnessCondition)) :
    Outcome WitnessCondition :=
  match expressions with
  | .null _ => .error (.error .invalidArgument "Invalid arguments")
  | .items expressions =>
      if expressions.length = 0 ∨ expressions.length > maxSubitems then
        .error (.error .invalidArgument "Invalid expression count")
      else do
        allocCondition alloc
        if alloc.grants (expressions.length * 8) = false then
          .error
            (.error .outOfMemory "Failed to allocate witness condition list")
        else do
          let clones ← expressions.mapM (clone curve alloc)
          .ok (type clones)

/-- `neoc_witness_condition_create_and`. -/
def createAnd (curve : Curve) (alloc : Allocator)
    (expressions : Slice (Option WitnessCondition)) :
    Outcome WitnessCondition :=
  createLogical curve alloc .and expressions

/-- `neoc_witness_condition_create_or`. -/
def createOr (curve : Curve) (alloc : Allocator)
    (expressions : Slice (Option WitnessCondition)) :
    Outcome WitnessCondition :=
  createLogical curve alloc .or expressions

/-- The two constructors that store a hash. -/
def createWithHash (alloc : Allocator) (type : Hash160 → WitnessCondition)
    (hash : Option Hash160) : Outcome WitnessCondition :=
  match hash with
  | none => .error (.error .invalidArgument "Invalid arguments")
  | some hash => do
      allocCondition alloc
      .ok (type hash)

/-- `neoc_witness_condition_create_script_hash`. -/
def createScriptHash (alloc : Allocator) (hash : Option Hash160) :
    Outcome WitnessCondition :=
  createWithHash alloc .scriptHash hash

/-- `neoc_witness_condition_create_called_by_contract`. -/
def createCalledByContract (alloc : Allocator)
    (contractHash : Option Hash160) : Outcome WitnessCondition :=
  createWithHash alloc .calledByContract contractHash

/-- The two constructors that store a copy of a key. -/
def createWithKey {curve : Curve} (alloc : Allocator)
    (type : Option (Bytes 33) → WitnessCondition)
    (publicKey : Option (EcPublicKey curve)) : Outcome WitnessCondition :=
  match publicKey with
  | none => .error (.error .invalidArgument "Invalid arguments")
  | some publicKey => do
      allocCondition alloc
      let copy ← clonePublicKey curve alloc (some publicKey.compressed)
      .ok (type copy)

/-- `neoc_witness_condition_create_group`. -/
def createGroup {curve : Curve} (alloc : Allocator)
    (publicKey : Option (EcPublicKey curve)) : Outcome WitnessCondition :=
  createWithKey alloc .group publicKey

/-- `neoc_witness_condition_create_called_by_group`. -/
def createCalledByGroup {curve : Curve} (alloc : Allocator)
    (groupKey : Option (EcPublicKey curve)) : Outcome WitnessCondition :=
  createWithKey alloc .calledByGroup groupKey

/-- `neoc_witness_condition_create_called_by_entry`. -/
def createCalledByEntry (alloc : Allocator) : Outcome WitnessCondition := do
  allocCondition alloc
  .ok .calledByEntry

/-- What the constructors make of each other's results, in any memory. -/
inductive Built (curve : Curve) : WitnessCondition → Prop where
  | boolean {alloc : Allocator} {value : Bool} {condition : WitnessCondition}
      (made : createBoolean alloc value = .ok condition) :
      Built curve condition
  | not {alloc : Allocator} {expression condition : WitnessCondition}
      (operand : Built curve expression)
      (made : createNot curve alloc (some expression) = .ok condition) :
      Built curve condition
  | and {alloc : Allocator} {expressions : List WitnessCondition}
      {condition : WitnessCondition}
      (operands : ∀ expression ∈ expressions, Built curve expression)
      (made :
        createAnd curve alloc (.items (expressions.map some)) =
          .ok condition) :
      Built curve condition
  | or {alloc : Allocator} {expressions : List WitnessCondition}
      {condition : WitnessCondition}
      (operands : ∀ expression ∈ expressions, Built curve expression)
      (made :
        createOr curve alloc (.items (expressions.map some)) =
          .ok condition) :
      Built curve condition
  | scriptHash {alloc : Allocator} {hash : Hash160}
      {condition : WitnessCondition}
      (made : createScriptHash alloc (some hash) = .ok condition) :
      Built curve condition
  | group {alloc : Allocator} {publicKey : EcPublicKey curve}
      {condition : WitnessCondition}
      (made : createGroup alloc (some publicKey) = .ok condition) :
      Built curve condition
  | calledByEntry {alloc : Allocator} {condition : WitnessCondition}
      (made : createCalledByEntry alloc = .ok condition) :
      Built curve condition
  | calledByContract {alloc : Allocator} {contractHash : Hash160}
      {condition : WitnessCondition}
      (made :
        createCalledByContract alloc (some contractHash) = .ok condition) :
      Built curve condition
  | calledByGroup {alloc : Allocator} {groupKey : EcPublicKey curve}
      {condition : WitnessCondition}
      (made : createCalledByGroup alloc (some groupKey) = .ok condition) :
      Built curve condition
  | clone {alloc : Allocator} {src condition : WitnessCondition}
      (source : Built curve src)
      (made : WitnessCondition.clone curve alloc (some src) = .ok condition) :
      Built curve condition

/-! ## Proper conditions -/

/--
The number of operands is within the limits everywhere, and every key is a
point of the curve.
-/
inductive Proper (curve : Curve) : WitnessCondition → Prop where
  | boolean (value : Bool) : Proper curve (.boolean value)
  | not {expression : WitnessCondition} (inner : Proper curve expression) :
      Proper curve (.not expression)
  | and {expressions : List WitnessCondition}
      (some : 1 ≤ expressions.length)
      (few : expressions.length ≤ maxSubitems)
      (each : ∀ expression ∈ expressions, Proper curve expression) :
      Proper curve (.and expressions)
  | or {expressions : List WitnessCondition}
      (some : 1 ≤ expressions.length)
      (few : expressions.length ≤ maxSubitems)
      (each : ∀ expression ∈ expressions, Proper curve expression) :
      Proper curve (.or expressions)
  | scriptHash (hash : Hash160) : Proper curve (.scriptHash hash)
  | group (point : curve.Point) :
      Proper curve (.group (some (curve.compressed point)))
  | calledByEntry : Proper curve .calledByEntry
  | calledByContract (hash : Hash160) :
      Proper curve (.calledByContract hash)
  | calledByGroup (point : curve.Point) :
      Proper curve (.calledByGroup (some (curve.compressed point)))

variable {curve : Curve} {alloc : Allocator}

theorem allKeysOn_iff {expressions : List WitnessCondition} :
    AllKeysOn curve expressions ↔
      ∀ expression ∈ expressions, KeysOn curve expression := by
  induction expressions with
  | nil => simp [AllKeysOn]
  | cons expression rest induction =>
      rw [AllKeysOn, induction, List.forall_mem_cons]

theorem isKey_compressed (point : curve.Point) :
    IsKey curve (some (curve.compressed point)) := by
  intro encoded member
  exact ⟨point, (Option.mem_some_iff.mp member).symm⟩

namespace Proper

variable {condition : WitnessCondition}

theorem keysOn (proper : condition.Proper curve) :
    condition.KeysOn curve := by
  induction proper with
  | boolean value => trivial
  | not inner induction =>
      rw [KeysOn]
      exact induction
  | and some few each induction =>
      rw [KeysOn]
      exact allKeysOn_iff.mpr induction
  | or some few each induction =>
      rw [KeysOn]
      exact allKeysOn_iff.mpr induction
  | scriptHash hash => trivial
  | group point =>
      rw [KeysOn]
      exact isKey_compressed point
  | calledByEntry => trivial
  | calledByContract hash => trivial
  | calledByGroup point =>
      rw [KeysOn]
      exact isKey_compressed point

theorem legible (proper : condition.Proper curve) : condition.Legible := by
  have small {count : Nat} (few : count ≤ maxSubitems) :
      count < sizeModulus := by
    simp only [maxSubitems] at few
    simp only [sizeModulus]
    omega
  induction proper with
  | boolean value => exact .boolean value
  | not inner induction => exact .not induction
  | and some few each induction => exact .and (small few) induction
  | or some few each induction => exact .or (small few) induction
  | scriptHash hash => exact .scriptHash hash
  | group point => exact .group _
  | calledByEntry => exact .calledByEntry
  | calledByContract hash => exact .calledByContract hash
  | calledByGroup point => exact .calledByGroup _

end Proper

/-! ## What is built is proper -/

theorem allocCondition_copies : Copies (allocCondition alloc) () := by
  rw [allocCondition]
  split
  · exact .inl rfl
  · exact .inr ⟨_, _, rfl⟩

/-- A constructor without operands makes what it says. -/
theorem leaf_eq_ok {leaf condition : WitnessCondition}
    (made : (allocCondition alloc >>= fun _ => .ok leaf) = .ok condition) :
    condition = leaf := by
  rcases Except.bind_eq_ok_iff.mp made with ⟨_, -, rest⟩
  injection rest with same
  exact same.symm

theorem createNot_copies {expression : WitnessCondition}
    (keys : expression.KeysOn curve) :
    Copies (createNot curve alloc (some expression)) (.not expression) :=
  allocCondition_copies.bind
    ((cloneInternal_copies expression keys).bind (.inl rfl))

/-- Only between one and sixteen operands are taken, and copied. -/
theorem createLogical_eq_ok
    {type : List WitnessCondition → WitnessCondition}
    {expressions : List WitnessCondition} {condition : WitnessCondition}
    (keys : ∀ expression ∈ expressions, expression.KeysOn curve)
    (made :
      createLogical curve alloc type (.items (expressions.map some)) =
        .ok condition) :
    1 ≤ expressions.length ∧ expressions.length ≤ maxSubitems ∧
      condition = type expressions := by
  rw [createLogical, List.length_map] at made
  split at made
  · cases made
  rename_i counted
  refine ⟨by omega, by omega, ?_⟩
  rcases Except.bind_eq_ok_iff.mp made with ⟨_, -, rest⟩
  split at rest
  · cases rest
  have copied :
      Copies ((expressions.map some).mapM (clone curve alloc))
        expressions := by
    have operands :=
      @Copies.mapM _ _ (clone curve alloc)
        (fun expression => expression.getD .calledByEntry)
        (expressions.map some) (by
          intro expression member
          rcases List.mem_map.mp member with ⟨inner, inside, rfl⟩
          exact cloneInternal_copies inner (keys inner inside))
    rw [List.map_map] at operands
    rwa [show
      (fun expression : Option WitnessCondition =>
          expression.getD .calledByEntry) ∘ some = id from rfl,
      List.map_id] at operands
  have copies :
      Copies
        ((expressions.map some).mapM (clone curve alloc) >>= fun clones =>
          .ok (type clones))
        (type expressions) :=
    copied.bind (.inl rfl)
  exact copies.eq_of_ok rest

theorem createWithKey_eq_ok
    {type : Option (Bytes 33) → WitnessCondition}
    {publicKey : EcPublicKey curve} {condition : WitnessCondition}
    (made : createWithKey alloc type (some publicKey) = .ok condition) :
    condition = type (some (curve.compressed publicKey.point)) := by
  have copies :
      Copies (createWithKey alloc type (some publicKey))
        (type (some publicKey.compressed)) := by
    refine
      allocCondition_copies.bind
        ((clonePublicKey_copies ?_).bind (.inl rfl))
    rw [publicKey.compressed_eq]
    exact isKey_compressed publicKey.point
  rw [copies.eq_of_ok made, publicKey.compressed_eq]

/-- Whatever the constructors make is proper. -/
theorem Built.proper {condition : WitnessCondition}
    (built : Built curve condition) : condition.Proper curve := by
  induction built with
  | boolean made =>
      rw [leaf_eq_ok made]
      exact .boolean _
  | not operand made induction =>
      rw [(createNot_copies induction.keysOn).eq_of_ok made]
      exact .not induction
  | and operands made induction =>
      rcases
        createLogical_eq_ok
          (fun expression member => (induction expression member).keysOn)
          made with
        ⟨some, few, rfl⟩
      exact .and some few induction
  | or operands made induction =>
      rcases
        createLogical_eq_ok
          (fun expression member => (induction expression member).keysOn)
          made with
        ⟨some, few, rfl⟩
      exact .or some few induction
  | scriptHash made =>
      rw [leaf_eq_ok made]
      exact .scriptHash _
  | group made =>
      rw [createWithKey_eq_ok made]
      exact .group _
  | calledByEntry made =>
      rw [leaf_eq_ok made]
      exact .calledByEntry
  | calledByContract made =>
      rw [leaf_eq_ok made]
      exact .calledByContract _
  | calledByGroup made =>
      rw [createWithKey_eq_ok made]
      exact .calledByGroup _
  | clone source made induction =>
      rw [(cloneInternal_copies _ induction.keysOn).eq_of_ok made]
      exact induction

/-! ## The limit of the serializer -/

mutual

/-- How deeply the operands of a condition are nested. -/
def nestingDepth : WitnessCondition → Nat
  | .not expression => nestingDepth expression + 1
  | .and expressions => nestingBelow expressions
  | .or expressions => nestingBelow expressions
  | .boolean _ => 0
  | .scriptHash _ => 0
  | .group _ => 0
  | .calledByEntry => 0
  | .calledByContract _ => 0
  | .calledByGroup _ => 0

/-- The levels that a list of operands adds. -/
def nestingBelow : List WitnessCondition → Nat
  | [] => 0
  | expression :: rest =>
      max (nestingDepth expression + 1) (nestingBelow rest)

end

theorem nestingBelow_le_iff {expressions : List WitnessCondition}
    {bound : Nat} :
    nestingBelow expressions ≤ bound ↔
      ∀ expression ∈ expressions, nestingDepth expression + 1 ≤ bound := by
  induction expressions with
  | nil => simp [nestingBelow]
  | cons expression rest induction =>
      rw [nestingBelow, max_le_iff, induction, List.forall_mem_cons]

open BinaryWriter

theorem serializeHead_ensures (depth : Nat) (condition : WitnessCondition) :
    Ensures (serializeHead alloc depth condition)
      (depth ≤ maxNestingDepth) := by
  rw [serializeHead]
  split
  · exact ensures_halt _ _
  · rename_i shallow
    exact Ensures.of_true (Nat.le_of_not_lt shallow) _

theorem ensures_below {call : Routine BinaryWriter Unit} {depth : Nat}
    {expressions : List WitnessCondition}
    (head : Ensures call (depth ≤ maxNestingDepth))
    (operands :
      Ensures call
        (∀ expression ∈ expressions,
          depth + 1 + expression.nestingDepth ≤ maxNestingDepth)) :
    Ensures call (depth + nestingBelow expressions ≤ maxNestingDepth) := by
  refine (head.and operands).imp ?_
  rintro ⟨shallow, each⟩
  have below : nestingBelow expressions ≤ maxNestingDepth - depth := by
    apply nestingBelow_le_iff.mpr
    intro expression member
    have inner := each expression member
    omega
  omega

mutual

/-- Only conditions within the limit are serialized. -/
theorem serializeInternal_ensures_shallow (depth : Nat) :
    (condition : WitnessCondition) →
      Ensures (serializeInternal alloc depth condition)
        (depth + condition.nestingDepth ≤ maxNestingDepth)
  | .boolean value => by
      rw [serializeInternal, nestingDepth]
      exact Ensures.bind_left (serializeHead_ensures depth _)
  | .not expression => by
      rw [serializeInternal, nestingDepth]
      refine
        ((serializeInternal_ensures_shallow (depth + 1)
          expression).bind_right (serializeHead_appends depth _)).imp ?_
      omega
  | .and expressions => by
      rw [serializeInternal, nestingDepth]
      exact
        ensures_below (Ensures.bind_left (serializeHead_ensures depth _))
          (((serializeAll_ensures_shallow (depth + 1)
            expressions).bind_right (writeCount_appends _)).bind_right
              (serializeHead_appends depth _))
  | .or expressions => by
      rw [serializeInternal, nestingDepth]
      exact
        ensures_below (Ensures.bind_left (serializeHead_ensures depth _))
          (((serializeAll_ensures_shallow (depth + 1)
            expressions).bind_right (writeCount_appends _)).bind_right
              (serializeHead_appends depth _))
  | .scriptHash hash => by
      rw [serializeInternal, nestingDepth]
      exact Ensures.bind_left (serializeHead_ensures depth _)
  | .group publicKey => by
      rw [serializeInternal, nestingDepth]
      exact Ensures.bind_left (serializeHead_ensures depth _)
  | .calledByEntry => by
      rw [serializeInternal, nestingDepth]
      exact serializeHead_ensures depth _
  | .calledByContract hash => by
      rw [serializeInternal, nestingDepth]
      exact Ensures.bind_left (serializeHead_ensures depth _)
  | .calledByGroup publicKey => by
      rw [serializeInternal, nestingDepth]
      exact Ensures.bind_left (serializeHead_ensures depth _)

theorem serializeAll_ensures_shallow (depth : Nat) :
    (expressions : List WitnessCondition) →
      Ensures (serializeAll alloc depth expressions)
        (∀ expression ∈ expressions,
          depth + expression.nestingDepth ≤ maxNestingDepth)
  | [] => Ensures.of_true (List.forall_mem_nil _) _
  | expression :: rest => by
      rw [serializeAll, List.forall_mem_cons]
      exact
        (Ensures.bind_left
          (serializeInternal_ensures_shallow depth expression)).and
          ((serializeAll_ensures_shallow depth rest).bind_right
            (serializeInternal_appends depth expression))

end

theorem serializeHead_emits {depth : Nat} {condition : WitnessCondition}
    (shallow : depth ≤ maxNestingDepth) :
    Emits alloc (serializeHead alloc depth condition)
      [condition.typeToByte] := by
  rw [serializeHead, if_neg (Nat.not_lt.mpr shallow)]
  exact writeByte_emits _

theorem serializeGroup_emits (granted : alloc.grants 33 = true)
    (encoded : Bytes 33) :
    Emits alloc (serializeGroup alloc (some encoded))
      (groupBytes (some encoded)) := by
  rw [serializeGroup, if_pos granted]
  exact writeBytes_emits encoded.val

theorem serializeAll_emits {depth : Nat}
    {expressions : List WitnessCondition}
    (each :
      ∀ expression ∈ expressions,
        Emits alloc (serializeInternal alloc depth expression)
          expression.encode) :
    Emits alloc (serializeAll alloc depth expressions)
      (encodeAll expressions) := by
  induction expressions with
  | nil =>
      rw [serializeAll, encodeAll]
      exact emits_pure
  | cons expression rest induction =>
      rcases List.forall_mem_cons.mp each with ⟨first, later⟩
      rw [serializeAll, encodeAll]
      exact first.bind (induction later)

/-- The operands of a conjunction or disjunction are within the limit. -/
theorem operand_shallow {depth : Nat}
    {expressions : List WitnessCondition}
    (shallow : depth + nestingBelow expressions ≤ maxNestingDepth) :
    ∀ expression ∈ expressions,
      depth + 1 + expression.nestingDepth ≤ maxNestingDepth := by
  intro expression member
  have inner :=
    nestingBelow_le_iff.mp (le_refl (nestingBelow expressions)) expression
      member
  omega

/-- With memory, conditions within the limit are serialized. -/
theorem Legible.serializeInternal_emits {condition : WitnessCondition}
    (legible : condition.Legible) (granted : alloc.grants 33 = true)
    {depth : Nat}
    (shallow : depth + condition.nestingDepth ≤ maxNestingDepth) :
    Emits alloc (serializeInternal alloc depth condition)
      condition.encode := by
  have head {condition : WitnessCondition} :
      Emits alloc (serializeHead alloc depth condition)
        [condition.typeToByte] :=
    serializeHead_emits (by omega)
  induction legible generalizing depth with
  | boolean value =>
      rw [serializeInternal, encode]
      exact head.bind (writeBool_emits value)
  | not inner induction =>
      rw [nestingDepth] at shallow
      rw [serializeInternal, encode]
      exact
        head.bind
          (induction (by omega) (serializeHead_emits (by omega)))
  | and small each induction =>
      rw [nestingDepth] at shallow
      have inside := operand_shallow shallow
      rw [serializeInternal, encode]
      refine
        head.bind ((writeCount_emits _).bind (serializeAll_emits ?_))
      intro expression member
      have within := inside expression member
      exact
        induction expression member (by omega)
          (serializeHead_emits (by omega))
  | or small each induction =>
      rw [nestingDepth] at shallow
      have inside := operand_shallow shallow
      rw [serializeInternal, encode]
      refine
        head.bind ((writeCount_emits _).bind (serializeAll_emits ?_))
      intro expression member
      have within := inside expression member
      exact
        induction expression member (by omega)
          (serializeHead_emits (by omega))
  | scriptHash hash =>
      rw [serializeInternal, encode]
      exact head.bind (writeBytes_emits hash.val)
  | group encoded =>
      rw [serializeInternal, encode]
      exact head.bind (serializeGroup_emits granted encoded)
  | calledByEntry =>
      rw [serializeInternal, encode]
      exact head
  | calledByContract hash =>
      rw [serializeInternal, encode]
      exact head.bind (writeBytes_emits hash.val)
  | calledByGroup encoded =>
      rw [serializeInternal, encode]
      exact head.bind (serializeGroup_emits granted encoded)

/-! ## How large a condition can be -/

/-- The largest size of a condition with this many levels. -/
def sizeBound : Nat → Nat
  | 0 => 34
  | levels + 1 => 2 + maxSubitems * sizeBound levels

theorem le_sizeBound (levels : Nat) : 34 ≤ sizeBound levels := by
  induction levels with
  | zero => exact le_rfl
  | succ levels induction =>
      simp only [sizeBound, maxSubitems]
      omega

/-- Operands of a bounded size, behind their number. -/
theorem length_operands_le {expressions : List WitnessCondition}
    {levels : Nat} (few : expressions.length ≤ maxSubitems)
    (each :
      ∀ expression ∈ expressions,
        expression.encode.length ≤ sizeBound levels) :
    (countBytes expressions.length ++
        expressions.flatMap encode).length + 1 ≤
      sizeBound (levels + 1) := by
  have counted : (countBytes expressions.length).length = 1 := by
    simp only [maxSubitems] at few
    rw [length_countBytes (by simp only [sizeModulus]; omega), varIntSize,
      if_pos (by omega)]
  have total :
      (expressions.flatMap encode).length ≤
        expressions.length * sizeBound levels := by
    rw [List.length_flatMap]
    have bounded :=
      List.sum_le_card_nsmul
        (expressions.map fun expression => expression.encode.length)
        (sizeBound levels) (by
          intro size member
          rcases List.mem_map.mp member with ⟨expression, inside, rfl⟩
          exact each expression inside)
    rw [List.length_map] at bounded
    exact bounded
  have most :
      expressions.length * sizeBound levels ≤
        maxSubitems * sizeBound levels :=
    Nat.mul_le_mul_right _ few
  rw [List.length_append, counted, sizeBound]
  omega

/-- Operands take one level. -/
theorem operands_size {expressions : List WitnessCondition} {levels : Nat}
    (some : 1 ≤ expressions.length)
    (few : expressions.length ≤ maxSubitems)
    (shallow : nestingBelow expressions ≤ levels)
    (each :
      ∀ expression ∈ expressions,
        ∀ levels, expression.nestingDepth ≤ levels →
          expression.encode.length ≤ sizeBound levels) :
    (countBytes expressions.length ++
        expressions.flatMap encode).length + 1 ≤
      sizeBound levels := by
  have inside := nestingBelow_le_iff.mp shallow
  rcases List.exists_mem_of_length_pos some with ⟨first, member⟩
  have nested := inside first member
  obtain ⟨below, rfl⟩ : ∃ below, levels = below + 1 :=
    ⟨levels - 1, by omega⟩
  apply length_operands_le few
  intro expression member
  exact
    each expression member below
      (Nat.le_of_succ_le_succ (inside expression member))

/-- A proper condition with few levels is small. -/
theorem Proper.length_encode_le {condition : WitnessCondition}
    (proper : condition.Proper curve) {levels : Nat}
    (shallow : condition.nestingDepth ≤ levels) :
    condition.encode.length ≤ sizeBound levels := by
  have small := le_sizeBound levels
  rw [encode_eq_cons, List.length_cons]
  induction proper generalizing levels with
  | boolean value => exact le_trans (by simp [body]) small
  | @not expression inner induction =>
      rw [nestingDepth] at shallow
      obtain ⟨below, rfl⟩ := Nat.exists_eq_add_of_le' shallow
      have nested :
          expression.encode.length ≤
            sizeBound (below + expression.nestingDepth) := by
        rw [encode_eq_cons, List.length_cons]
        exact induction (Nat.le_add_left _ _) (le_sizeBound _)
      have expanded :
          sizeBound (below + (expression.nestingDepth + 1)) =
            2 + maxSubitems *
              sizeBound (below + expression.nestingDepth) := rfl
      rw [body, expanded]
      simp only [maxSubitems]
      omega
  | @and expressions some few each induction =>
      exact
        operands_size some few shallow
          fun expression member levels below => by
            rw [encode_eq_cons, List.length_cons]
            exact induction expression member below (le_sizeBound _)
  | @or expressions some few each induction =>
      exact
        operands_size some few shallow
          fun expression member levels below => by
            rw [encode_eq_cons, List.length_cons]
            exact induction expression member below (le_sizeBound _)
  | scriptHash hash =>
      rw [body, hash.property]
      omega
  | group point =>
      rw [body, groupBytes, (curve.compressed point).property]
      exact small
  | calledByEntry => exact le_trans (by simp [body]) small
  | calledByContract hash =>
      rw [body, hash.property]
      omega
  | calledByGroup point =>
      rw [body, groupBytes, (curve.compressed point).property]
      exact small

/-- With memory to spare, the condition can be serialized. -/
def Serializable (condition : WitnessCondition) : Prop :=
  ∃ bytes,
    produce .ample (create .ample 64 true)
        (serialize .ample (some condition)) =
      .ok bytes

/-- With memory to spare, an array is made of what is emitted. -/
theorem produce_ample {calls : Routine BinaryWriter Unit}
    {bytes : List UInt8} (emits : Emits .ample calls bytes)
    (small : 2 * bytes.length ≤ ptrdiffMax) :
    produce .ample (create .ample 64 true) calls =
      .ok bytes := by
  rcases create_succeeds true
      (Allocator.ample_serves (by decide : max 64 structSize ≤ _)) with
    ⟨writer, created⟩
  exact
    produce_succeeds (fresh_create 64) created emits
      (Allocator.ample_serves small)

theorem Proper.serializable_iff {condition : WitnessCondition}
    (proper : condition.Proper curve) :
    condition.Serializable ↔ condition.nestingDepth ≤ maxNestingDepth := by
  constructor
  · rintro ⟨bytes, made⟩
    have shallow :=
      (serializeInternal_ensures_shallow 0 condition).of_produce
        (fresh_create 64) made
    rwa [Nat.zero_add] at shallow
  · intro shallow
    have emits :
        Emits .ample (serialize .ample (some condition))
          condition.encode :=
      proper.legible.serializeInternal_emits (by decide)
        (by rwa [Nat.zero_add])
    refine ⟨_, produce_ample emits ?_⟩
    have bounded := proper.length_encode_le shallow
    have limit : sizeBound maxNestingDepth = 8738 := rfl
    simp only [ptrdiffMax]
    omega

end WitnessCondition

/-! ## Rules and the signers that carry them -/

namespace WitnessRule

variable {curve : Curve} {alloc : Allocator}

/-- `neoc_witness_rule_create`. -/
def create (curve : Curve) (alloc : Allocator) (action : WitnessAction)
    (condition : Option WitnessCondition) : Outcome WitnessRule :=
  match condition with
  | none =>
      .error (.error .invalidArgument "Invalid witness rule arguments")
  | some condition =>
      if alloc.grants structSize = false then
        .error (.error .outOfMemory "Failed to allocate witness rule")
      else do
        let copy ← WitnessCondition.clone curve alloc (some condition)
        .ok { action, condition := some copy }

/-- A rule consists of the action and a copy of the condition. -/
theorem create_eq_ok {action : WitnessAction}
    {condition : WitnessCondition} {rule : WitnessRule}
    (proper : condition.Proper curve)
    (made : create curve alloc action (some condition) = .ok rule) :
    rule = { action, condition := some condition } := by
  rw [create] at made
  split at made
  · cases made
  rcases Except.bind_eq_ok_iff.mp made with ⟨copy, cloned, rest⟩
  injection rest with same
  have copied :=
    (WitnessCondition.cloneInternal_copies condition
      proper.keysOn).eq_of_ok cloned
  rw [← same, copied]

end WitnessRule

namespace Signer

open BinaryWriter

variable {alloc : Allocator} {signer : Signer}

/-- With memory to spare, the signer can be serialized. -/
def Serializable (signer : Signer) : Prop :=
  ∃ bytes,
    produce .ample (BinaryWriter.create .ample 64 true)
        (signer.serialize .ample) =
      .ok bytes

/-- A signer is written if its rules are written. -/
theorem serialize_emits
    (rules :
      signer.hasScope .witnessRules →
        ∀ rule ∈ signer.rules.content,
          Emits alloc (serializeRule alloc rule) (ruleBytes rule)) :
    Emits alloc (signer.serialize alloc) signer.encode := by
  have contracts :
      Emits alloc (serializeContracts alloc signer)
        signer.contractBytes := by
    refine emits_ite (fun _ => ?_) emits_pure
    refine (writeCount_emits _).bind (emits_forEach ?_)
    intro contract _
    exact writeBytes_emits contract.val
  have allowed :
      Emits alloc (serializeGroups alloc signer) signer.groupBytes := by
    refine emits_ite (fun _ => ?_) emits_pure
    refine (writeCount_emits _).bind (emits_forEach ?_)
    intro group _
    exact writeVarBytes_emits_buffer group
  have written :
      Emits alloc (serializeRules alloc signer) signer.rulesBytes := by
    refine emits_ite (fun scope => ?_) emits_pure
    exact (writeCount_emits _).bind (emits_forEach (rules scope))
  exact
    (writeBytes_emits signer.account.val).bind
      ((writeByte_emits signer.scopes).bind
        (contracts.bind (allowed.bind written)))

end Signer

namespace WitnessCondition

variable {curve : Curve}

/--
Any signer can be serialized that carries a rule made from the condition and
nothing the serializer refuses for another reason.
-/
def CarriedBySigners (curve : Curve) (condition : WitnessCondition) : Prop :=
  ∀ (alloc : Allocator) (action : WitnessAction) (rule : WitnessRule)
      (signer : Signer),
    WitnessRule.create curve alloc action (some condition) = .ok rule →
      signer.rules = .items [some rule] →
        (∀ group ∈ signer.allowedGroups, group.Backed) →
          2 * signer.encode.length ≤ ptrdiffMax →
            signer.Serializable

theorem Proper.carriedBySigners {condition : WitnessCondition}
    (proper : condition.Proper curve)
    (shallow : condition.nestingDepth ≤ maxNestingDepth) :
    condition.CarriedBySigners curve := by
  intro alloc action rule signer made carries _ small
  have shape := WitnessRule.create_eq_ok proper made
  subst shape
  refine ⟨_, produce_ample (Signer.serialize_emits ?_) small⟩
  intro _ entry member
  rw [carries] at member
  have only := List.mem_singleton.mp member
  subst only
  exact
    (BinaryWriter.writeByte_emits _).bind
      (proper.legible.serializeInternal_emits (by decide)
        (by rwa [Nat.zero_add]))

/--
A condition that was built can be serialized, alone and as part of a signer,
exactly if its nesting is within the limit of the serializer.
-/
theorem built_serializable_iff
    (condition : WitnessCondition)
    (built : Built curve condition) :
    condition.Serializable ∧ condition.CarriedBySigners curve ↔
      condition.nestingDepth ≤ maxNestingDepth := by
  constructor
  · rintro ⟨serializable, -⟩
    exact built.proper.serializable_iff.mp serializable
  · intro shallow
    exact
      ⟨built.proper.serializable_iff.mpr shallow,
        built.proper.carriedBySigners shallow⟩

theorem built_entry :
    Built (Curve.basePoint fun _ => none) .calledByEntry :=
  @Built.calledByEntry _ .ample _ rfl

theorem built_negation {expression : WitnessCondition}
    (operand : Built curve expression)
    (made :
      createNot curve .ample (some expression) =
        .ok (.not expression)) :
    Built curve (.not expression) :=
  .not operand made

/-- A negation of a negation stays within the limit. -/
theorem built_serializable_iff_twice :
    Built (Curve.basePoint fun _ => none) (.not (.not .calledByEntry)) ∧
      Serializable (.not (.not .calledByEntry)) := by
  have twice := built_negation (built_negation built_entry rfl) rfl
  exact ⟨twice, ((built_serializable_iff _ twice).mpr (by decide)).1⟩

/-- Three negations can be built and not be serialized. -/
theorem three_negations_not_serializable :
    ¬ ∀ (curve : Curve) (condition : WitnessCondition),
      Built curve condition →
        condition.Serializable ∧ condition.CarriedBySigners curve := by
  intro always
  have built :=
    built_negation (built_negation (built_negation built_entry rfl) rfl) rfl
  have shallow :=
    built.proper.serializable_iff.mp (always _ _ built).1
  exact absurd shallow (by decide)

end WitnessCondition

end NeoC
