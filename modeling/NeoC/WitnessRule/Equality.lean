import NeoC.WitnessRule.BinaryCodec

/-!
# Equality of witness rules

`neoc_witness_rule_equals` serializes both rules into buffers of their size
and compares the bytes.  It does not look at whether the serializations
succeeded.  A rule that cannot be serialized leaves no byte to compare, so two
such rules of one action and one size are equal to it, whatever their
conditions are.
-/

namespace NeoC

open Foundation

namespace WitnessRule

variable {curve : Curve} {alloc : Allocator}

/-- The bytes that a serialization has left in its buffer. -/
def leftInBuffer (outcome : Except Halt (List UInt8)) : List UInt8 :=
  match outcome with
  | .ok serialized => serialized
  | .error _ => []

/-- Serializing into a fresh buffer: what it holds and `*bytes_written`. -/
def serializedInto (alloc : Allocator) (rule : WitnessRule) :
    List UInt8 × Nat :=
  let ran := serialize alloc (some rule) (getSize (some rule)) 0
  (leftInBuffer ran.1, ran.2)

/--
`neoc_witness_rule_equals`; `identical` is whether the two pointers are one.
-/
def equals (alloc : Allocator) (identical : Bool)
    (rule1 rule2 : Option WitnessRule) : Bool :=
  if identical then
    true
  else
    match rule1, rule2 with
    | some rule1, some rule2 =>
        if rule1.action ≠ rule2.action then
          false
        else if getSize (some rule1) ≠ getSize (some rule2) then
          false
        else if alloc.grants (getSize (some rule1)) = false ∨
            alloc.grants (getSize (some rule2)) = false then
          false
        else
          let buf1 := serializedInto alloc rule1
          let buf2 := serializedInto alloc rule2
          decide
            (buf1.2 = buf2.2 ∧ buf1.1.take buf1.2 = buf2.1.take buf1.2)
    | _, _ => false

/-- What the constructors of rules make of conditions that were built. -/
inductive Built (curve : Curve) : WitnessRule → Prop where
  | create {alloc : Allocator} {action : WitnessAction}
      {condition : WitnessCondition} {rule : WitnessRule}
      (operand : WitnessCondition.Built curve condition)
      (made : WitnessRule.create curve alloc action (some condition) = .ok rule) :
      Built curve rule
  | clone {alloc : Allocator} {src rule : WitnessRule}
      (source : Built curve src)
      (made : src.clone curve alloc = .ok rule) :
      Built curve rule

/-- A rule has an action and a proper condition. -/
theorem Built.shape {rule : WitnessRule} (built : Built curve rule) :
    ∃ action condition,
      rule = { action, condition := some condition } ∧
        condition.Proper curve := by
  induction built with
  | create operand made =>
      exact
        ⟨_, _, create_eq_ok operand.proper made, operand.proper⟩
  | clone source made induction =>
      rcases induction with ⟨action, condition, rfl, proper⟩
      have keys :
          KeysOn curve { action, condition := some condition } := by
        intro inner member
        rw [← Option.mem_some_iff.mp member]
        exact proper.keysOn
      exact ⟨action, condition, (clone_copies keys).eq_of_ok made, proper⟩

/-! ## Rules that cannot be serialized -/

/-- The condition of the rule is nested too deeply for the serializer. -/
def TooDeep (rule : WitnessRule) : Prop :=
  ∃ condition,
    rule.condition = some condition ∧
      WitnessCondition.maxNestingDepth < condition.nestingDepth

/-- Nothing is left of a rule that is nested too deeply. -/
theorem serializedInto_deep {action : WitnessAction}
    {condition : WitnessCondition}
    (deep : WitnessCondition.maxNestingDepth < condition.nestingDepth) :
    serializedInto alloc { action, condition := some condition } =
      ([], 0) := by
  have ensures :
      BinaryWriter.Ensures
        (writeRule alloc { action, condition := some condition })
        (0 + condition.nestingDepth ≤ WitnessCondition.maxNestingDepth) :=
    (WitnessCondition.serializeInternal_ensures_shallow 0
      condition).bind_right (BinaryWriter.writeByte_emits _).appends
  rw [serializedInto, serialize, if_neg (Nat.lt_irrefl _)]
  rcases made :
      BinaryWriter.produce alloc
        (BinaryWriter.create alloc
          (getSize (some { action, condition := some condition })) true)
        (writeRule alloc { action, condition := some condition }) with
    reason | serialized
  · rw [Call.lift_error_bind]
    rfl
  · have shallow := ensures.of_produce (BinaryWriter.fresh_create _) made
    omega

/-- With memory, the bytes of any other rule are left. -/
theorem serializedInto_shallow {action : WitnessAction}
    {condition : WitnessCondition} (legible : condition.Legible)
    (shallow : condition.nestingDepth ≤ WitnessCondition.maxNestingDepth)
    (serves :
      alloc.Serves (max 33 (2 * (encode action condition).length))) :
    serializedInto alloc { action, condition := some condition } =
      (encode action condition, (encode action condition).length) := by
  have bounded := serves.bound_le
  have modulus : ptrdiffMax < sizeModulus := by decide
  have length :
      (encode action condition).length = condition.encode.length + 1 := by
    rw [encode, List.length_cons]
  have size := getSize_eq action legible (by omega)
  rw [serializedInto, size,
    serialize_eq action legible shallow le_rfl serves 0]
  rfl

/-- Rules with the same bytes are the same. -/
theorem encode_injective {action action' : WitnessAction}
    {condition condition' : WitnessCondition}
    (legible : condition.Legible) (legible' : condition'.Legible)
    (same : encode action condition = encode action' condition') :
    condition = condition' := by
  have bytes : condition.encode = condition'.encode :=
    (List.cons.inj same).2
  have read :=
    legible.readsBack condition' [] [] legible'
      (by rw [List.append_nil, List.append_nil, bytes])
  exact read.1

/-! ## When the comparison is right -/

/-- The comparison says whether the rules are the same. -/
def DecidesEquality (alloc : Allocator) (identical : Bool)
    (rule1 rule2 : WitnessRule) : Prop :=
  equals alloc identical (some rule1) (some rule2) = true ↔ rule1 = rule2

/-- Different rules of one action and one size, both nested too deeply. -/
structure Confused (rule1 rule2 : WitnessRule) : Prop where
  different : rule1 ≠ rule2
  action : rule1.action = rule2.action
  size : getSize (some rule1) = getSize (some rule2)
  deep1 : rule1.TooDeep
  deep2 : rule2.TooDeep

/-- Memory for the buffers and for both serializations. -/
def Comparable (alloc : Allocator) (rule1 rule2 : WitnessRule) : Prop :=
  ∀ rule, rule = rule1 ∨ rule = rule2 →
    ∀ condition, rule.condition = some condition →
      alloc.Serves (max 33 (2 * (encode rule.action condition).length))

/-- Two pointers, with buffers for both rules, are compared by bytes. -/
theorem equals_of_sizes {rule1 rule2 : WitnessRule}
    (action : rule1.action = rule2.action)
    (size : getSize (some rule1) = getSize (some rule2))
    (granted : alloc.grants (getSize (some rule1)) = true) :
    equals alloc false (some rule1) (some rule2) =
      decide
        ((serializedInto alloc rule1).2 = (serializedInto alloc rule2).2 ∧
          (serializedInto alloc rule1).1.take
              (serializedInto alloc rule1).2 =
            (serializedInto alloc rule2).1.take
              (serializedInto alloc rule1).2) := by
  have memory :
      ¬ (alloc.grants (getSize (some rule1)) = false ∨
        alloc.grants (getSize (some rule2)) = false) := by
    rw [← size, granted]
    simp
  rw [equals, if_neg (by decide)]
  dsimp only
  rw [if_neg (not_not.mpr action), if_neg (not_not.mpr size),
    if_neg memory]

theorem tooDeep_iff {action : WitnessAction}
    {condition : WitnessCondition} :
    TooDeep { action, condition := some condition } ↔
      WitnessCondition.maxNestingDepth < condition.nestingDepth := by
  constructor
  · rintro ⟨inner, same, deep⟩
    injection same with equal
    rwa [equal]
  · intro deep
    exact ⟨condition, rfl, deep⟩

section Compared

variable {action action' : WitnessAction}
  {condition condition' : WitnessCondition}

/-- What the bytes that are left tell about two rules of one action. -/
theorem left_bytes_iff
    (legible : condition.Legible) (legible' : condition'.Legible)
    (memory :
      Comparable alloc { action, condition := some condition }
        { action, condition := some condition' }) :
    ((serializedInto alloc { action, condition := some condition }).2 =
          (serializedInto alloc
            { action, condition := some condition' }).2 ∧
        (serializedInto alloc { action, condition := some condition }).1.take
            (serializedInto alloc
              { action, condition := some condition }).2 =
          (serializedInto alloc
              { action, condition := some condition' }).1.take
            (serializedInto alloc
              { action, condition := some condition }).2) ↔
      condition = condition' ∨
        (WitnessCondition.maxNestingDepth < condition.nestingDepth ∧
          WitnessCondition.maxNestingDepth < condition'.nestingDepth) := by
  have positive (condition : WitnessCondition) :
      (encode action condition).length ≠ 0 := by
    rw [encode, List.length_cons]
    omega
  have serves := memory _ (.inl rfl) condition rfl
  have serves' := memory _ (.inr rfl) condition' rfl
  rcases Nat.lt_or_ge WitnessCondition.maxNestingDepth
      condition.nestingDepth with deep | shallow
  · rw [serializedInto_deep deep]
    rcases Nat.lt_or_ge WitnessCondition.maxNestingDepth
        condition'.nestingDepth with deep' | shallow'
    · rw [serializedInto_deep deep']
      exact iff_of_true ⟨rfl, rfl⟩ (.inr ⟨deep, deep'⟩)
    · rw [serializedInto_shallow legible' shallow' serves']
      refine iff_of_false ?_ ?_
      · rintro ⟨nothing, -⟩
        exact positive condition' nothing.symm
      · rintro (rfl | ⟨-, deep'⟩) <;> omega
  · rw [serializedInto_shallow legible shallow serves]
    rcases Nat.lt_or_ge WitnessCondition.maxNestingDepth
        condition'.nestingDepth with deep' | shallow'
    · rw [serializedInto_deep deep']
      refine iff_of_false ?_ ?_
      · rintro ⟨nothing, -⟩
        exact positive condition nothing
      · rintro (rfl | ⟨deep, -⟩) <;> omega
    · rw [serializedInto_shallow legible' shallow' serves']
      dsimp only
      constructor
      · rintro ⟨length, bytes⟩
        rw [List.take_length, length, List.take_length] at bytes
        exact .inl (encode_injective legible legible' bytes)
      · rintro (rfl | ⟨deep, -⟩)
        · exact ⟨rfl, rfl⟩
        · omega

/-- What the comparison of two pointers tells about the rules. -/
theorem equals_iff
    (legible : condition.Legible) (legible' : condition'.Legible)
    (memory :
      Comparable alloc { action, condition := some condition }
        { action := action', condition := some condition' }) :
    equals alloc false (some { action, condition := some condition })
        (some { action := action', condition := some condition' }) = true ↔
      action = action' ∧
        getSize (some { action, condition := some condition }) =
          getSize
            (some { action := action', condition := some condition' }) ∧
        (condition = condition' ∨
          (WitnessCondition.maxNestingDepth < condition.nestingDepth ∧
            WitnessCondition.maxNestingDepth <
              condition'.nestingDepth)) := by
  by_cases sameAction : action = action'
  · subst sameAction
    by_cases size :
        getSize (some { action, condition := some condition }) =
          getSize (some { action, condition := some condition' })
    · have serves :
          alloc.Serves (max 33 (2 * (encode action condition).length)) :=
        memory _ (.inl rfl) condition rfl
      have bounded := serves.bound_le
      have modulus : ptrdiffMax < sizeModulus := by decide
      have length :
          (encode action condition).length =
            condition.encode.length + 1 := by
        rw [encode, List.length_cons]
      have granted :
          alloc.grants
              (getSize (some { action, condition := some condition })) =
            true := by
        rw [getSize_eq action legible (by omega)]
        exact serves _ (by omega)
      have compared :=
        @equals_of_sizes alloc { action, condition := some condition }
          { action, condition := some condition' } rfl size granted
      rw [compared, decide_eq_true_iff,
        left_bytes_iff legible legible' memory]
      exact ⟨fun found => ⟨rfl, size, found⟩, fun found => found.2.2⟩
    · refine iff_of_false ?_ fun found => size found.2.1
      rw [equals, if_neg (by decide)]
      dsimp only
      rw [if_neg (not_not.mpr rfl), if_pos size]
      decide
  · refine iff_of_false ?_ fun found => sameAction found.1
    rw [equals, if_neg (by decide)]
    dsimp only
    rw [if_pos sameAction]
    decide

end Compared

/--
The comparison of two rules that were built is right unless both are nested
too deeply, have one action and one size, and differ.
-/
theorem equals_decidesEquality_iff
    (identical : Bool)
    (rule1 rule2 : WitnessRule)
    (built1 : Built curve rule1)
    (built2 : Built curve rule2)
    (aliased : identical = true → rule1 = rule2)
    (memory : Comparable alloc rule1 rule2) :
    DecidesEquality alloc identical rule1 rule2 ↔
      ¬ Confused rule1 rule2 := by
  rcases built1.shape with ⟨action, condition, rfl, proper⟩
  rcases built2.shape with ⟨action', condition', rfl, proper'⟩
  cases identical with
  | true =>
      have same := aliased rfl
      refine iff_of_true ?_ fun confused => confused.different same
      exact iff_of_true rfl same
  | false =>
      rw [DecidesEquality,
        equals_iff proper.legible proper'.legible memory]
      constructor
      · intro decides confused
        have deep := tooDeep_iff.mp confused.deep1
        have deep' := tooDeep_iff.mp confused.deep2
        exact
          confused.different
            (decides.mp
              ⟨confused.action, confused.size, .inr ⟨deep, deep'⟩⟩)
      · intro distinct
        constructor
        · rintro ⟨rfl, size, rfl | ⟨deep, deep'⟩⟩
          · rfl
          · by_contra different
            exact
              distinct
                ⟨different, rfl, size, tooDeep_iff.mpr deep,
                  tooDeep_iff.mpr deep'⟩
        · intro same
          injection same with sameAction sameCondition
          injection sameCondition with equal
          subst sameAction equal
          exact ⟨rfl, rfl, .inl rfl⟩

/-- A rule made from three negations of a truth value. -/
def deepRule (value : Bool) : WitnessRule where
  action := .allow
  condition := some (.not (.not (.not (.boolean value))))

theorem built_deepRule (value : Bool) :
    Built (Curve.basePoint fun _ => none) (deepRule value) := by
  have leaf :
      WitnessCondition.Built (Curve.basePoint fun _ => none)
        (.boolean value) :=
    @WitnessCondition.Built.boolean _ .ample value _ rfl
  have operand :=
    WitnessCondition.built_negation
      (WitnessCondition.built_negation
        (WitnessCondition.built_negation leaf rfl) rfl) rfl
  exact @Built.create _ .ample .allow _ _ operand rfl

/-- Rules of which neither is long have the memory they need. -/
theorem comparable_ample {action : WitnessAction}
    {condition condition' : WitnessCondition}
    (serves :
      Allocator.ample.Serves (max 33 (2 * (encode action condition).length)))
    (serves' :
      Allocator.ample.Serves
        (max 33 (2 * (encode action condition').length))) :
    Comparable .ample { action, condition := some condition }
      { action, condition := some condition' } := by
  rintro rule (rfl | rfl) condition same
  · injection same with equal
    rwa [← equal]
  · injection same with equal
    rwa [← equal]

theorem comparable_deepRules :
    Comparable .ample (deepRule true) (deepRule false) :=
  comparable_ample (Allocator.ample_serves (by decide))
    (Allocator.ample_serves (by decide))

/-- A rule made from one negation of a truth value. -/
def shallowRule (value : Bool) : WitnessRule where
  action := .allow
  condition := some (.not (.boolean value))

theorem built_shallowRule (value : Bool) :
    Built (Curve.basePoint fun _ => none) (shallowRule value) := by
  have operand :=
    WitnessCondition.built_negation
      (@WitnessCondition.Built.boolean (Curve.basePoint fun _ => none)
        .ample value _ rfl) rfl
  exact @Built.create _ .ample .allow _ _ operand rfl

/-- One negation of true and one of false are told apart. -/
theorem equals_decidesEquality_iff_shallow :
    DecidesEquality .ample false (shallowRule true)
      (shallowRule false) := by
  have decides :=
    @equals_decidesEquality_iff (Curve.basePoint fun _ => none)
      .ample false (shallowRule true) (shallowRule false)
      (built_shallowRule true) (built_shallowRule false)
      (fun impossible => by cases impossible)
      (comparable_ample (Allocator.ample_serves (by decide))
        (Allocator.ample_serves (by decide)))
  refine decides.mpr fun confused => ?_
  exact absurd (tooDeep_iff.mp confused.deep1) (by decide)

/-- Three negations of true are equal to three negations of false. -/
theorem deepRules_equal :
    ¬ ∀ (curve : Curve) (alloc : Allocator) (identical : Bool)
        (rule1 rule2 : WitnessRule),
      Built curve rule1 → Built curve rule2 →
        (identical = true → rule1 = rule2) →
          Comparable alloc rule1 rule2 →
            DecidesEquality alloc identical rule1 rule2 := by
  intro decides
  have decided :=
    decides (Curve.basePoint fun _ => none) .ample false
      (deepRule true) (deepRule false) (built_deepRule true)
      (built_deepRule false) (fun impossible => by cases impossible)
      comparable_deepRules
  have same : deepRule true = deepRule false :=
    decided.mp (by decide +kernel)
  simp [deepRule] at same

end WitnessRule

end NeoC
