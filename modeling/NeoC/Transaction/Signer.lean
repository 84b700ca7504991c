import NeoC.Crypto.Hash
import NeoC.Serialization.BinaryWriter
import Mathlib.Algebra.Order.BigOperators.Group.List

/-!
# Signers and their witness rules

A signer is serialized by `neoc_signer_serialize` and measured by
`neoc_signer_get_size`, two traversals of one struct.  They agree on the
account and the scope byte.  The size function then takes every count and
every length to fit one byte, and counts no byte of a witness rule.
`Measured` names the signers for which that is right.
-/

namespace NeoC

open Foundation

/-! ## Witness conditions -/

/--
A `neoc_witness_condition_t`.  Of the key of a group only the compressed form
is read; `none` is a `NULL` key.
-/
inductive WitnessCondition where
  | boolean (value : Bool)
  | not (expression : WitnessCondition)
  | and (expressions : List WitnessCondition)
  | or (expressions : List WitnessCondition)
  | scriptHash (hash : Hash160)
  | group (publicKey : Option (Bytes 33))
  | calledByEntry
  | calledByContract (hash : Hash160)
  | calledByGroup (publicKey : Option (Bytes 33))

namespace WitnessCondition

/-- `NEOC_WITNESS_CONDITION_MAX_NESTING_DEPTH`. -/
def maxNestingDepth : Nat := 2

/-- `neoc_witness_condition_type_to_byte`. -/
def typeToByte : WitnessCondition → UInt8
  | .boolean _ => 0x00
  | .not _ => 0x01
  | .and _ => 0x02
  | .or _ => 0x03
  | .scriptHash _ => 0x18
  | .group _ => 0x19
  | .calledByEntry => 0x20
  | .calledByContract _ => 0x28
  | .calledByGroup _ => 0x29

/-- Encode the key of a group and write it. -/
def serializeGroup (alloc : Allocator) (publicKey : Option (Bytes 33)) :
    Routine BinaryWriter Unit :=
  match publicKey with
  | none => errorSet .invalidArgument "Invalid arguments"
  | some encoded =>
      if alloc.grants 33 then
        BinaryWriter.writeBytes alloc (.items encoded.val)
      else
        errorSet .outOfMemory "Failed to allocate memory"

/-- The depth check and the type byte, in front of every condition. -/
def serializeHead (alloc : Allocator) (depth : Nat)
    (condition : WitnessCondition) : Routine BinaryWriter Unit :=
  if depth > maxNestingDepth then
    errorSet .invalidFormat "Witness condition nesting depth exceeded"
  else
    BinaryWriter.writeByte alloc condition.typeToByte

mutual

/-- `neoc_witness_condition_serialize_internal`. -/
def serializeInternal (alloc : Allocator) (depth : Nat) :
    WitnessCondition → Routine BinaryWriter Unit
  | .boolean value => do
      serializeHead alloc depth (.boolean value)
      BinaryWriter.writeBool alloc value
  | .not expression => do
      serializeHead alloc depth (.not expression)
      serializeInternal alloc (depth + 1) expression
  | .and expressions => do
      serializeHead alloc depth (.and expressions)
      BinaryWriter.writeVarInt alloc (UInt64.ofNat expressions.length)
      serializeAll alloc (depth + 1) expressions
  | .or expressions => do
      serializeHead alloc depth (.or expressions)
      BinaryWriter.writeVarInt alloc (UInt64.ofNat expressions.length)
      serializeAll alloc (depth + 1) expressions
  | .scriptHash hash => do
      serializeHead alloc depth (.scriptHash hash)
      BinaryWriter.writeBytes alloc (.items hash.val)
  | .group publicKey => do
      serializeHead alloc depth (.group publicKey)
      serializeGroup alloc publicKey
  | .calledByEntry =>
      serializeHead alloc depth .calledByEntry
  | .calledByContract hash => do
      serializeHead alloc depth (.calledByContract hash)
      BinaryWriter.writeBytes alloc (.items hash.val)
  | .calledByGroup publicKey => do
      serializeHead alloc depth (.calledByGroup publicKey)
      serializeGroup alloc publicKey

/-- The loop over the operands of a conjunction or disjunction. -/
def serializeAll (alloc : Allocator) (depth : Nat) :
    List WitnessCondition → Routine BinaryWriter Unit
  | [] => pure ()
  | expression :: rest => do
      serializeInternal alloc depth expression
      serializeAll alloc depth rest

end

/-- `neoc_witness_condition_serialize`. -/
def serialize (alloc : Allocator) (condition : Option WitnessCondition) :
    Routine BinaryWriter Unit :=
  match condition with
  | none => errorSet .invalidArgument "Invalid arguments"
  | some condition => serializeInternal alloc 0 condition

/-- The bytes of the key of a group. -/
def groupBytes (publicKey : Option (Bytes 33)) : List UInt8 :=
  match publicKey with
  | none => []
  | some encoded => encoded.val

mutual

/-- The bytes of a condition. -/
def encode : WitnessCondition → List UInt8
  | .boolean value => [typeToByte (.boolean value)] ++ [if value then 1 else 0]
  | .not expression => [typeToByte (.not expression)] ++ encode expression
  | .and expressions =>
      [typeToByte (.and expressions)] ++
        (BinaryWriter.countBytes expressions.length ++ encodeAll expressions)
  | .or expressions =>
      [typeToByte (.or expressions)] ++
        (BinaryWriter.countBytes expressions.length ++ encodeAll expressions)
  | .scriptHash hash => [typeToByte (.scriptHash hash)] ++ hash.val
  | .group publicKey => [typeToByte (.group publicKey)] ++ groupBytes publicKey
  | .calledByEntry => [typeToByte .calledByEntry]
  | .calledByContract hash => [typeToByte (.calledByContract hash)] ++ hash.val
  | .calledByGroup publicKey =>
      [typeToByte (.calledByGroup publicKey)] ++ groupBytes publicKey

/-- The bytes of the operands, one after another. -/
def encodeAll : List WitnessCondition → List UInt8
  | [] => []
  | expression :: rest => encode expression ++ encodeAll rest

end

open BinaryWriter

variable {alloc : Allocator}

theorem serializeHead_appends (depth : Nat) (condition : WitnessCondition) :
    Appends (serializeHead alloc depth condition)
      [condition.typeToByte] := by
  rw [serializeHead]
  split
  · exact appends_halt _ _
  · exact (writeByte_emits _).appends

theorem serializeGroup_appends (publicKey : Option (Bytes 33)) :
    Appends (serializeGroup alloc publicKey) (groupBytes publicKey) := by
  cases publicKey with
  | none => exact appends_halt _ _
  | some encoded =>
      rw [serializeGroup]
      split
      · exact writeBytes_appends (.items encoded.val)
      · exact appends_halt _ _

mutual

/-- What is written for a condition is its bytes. -/
theorem serializeInternal_appends (depth : Nat) :
    (condition : WitnessCondition) →
      Appends (serializeInternal alloc depth condition) condition.encode
  | .boolean value => by
      rw [serializeInternal, encode]
      exact
        (serializeHead_appends depth _).bind (writeBool_emits value).appends
  | .not expression => by
      rw [serializeInternal, encode]
      exact
        (serializeHead_appends depth _).bind
          (serializeInternal_appends (depth + 1) expression)
  | .and expressions => by
      rw [serializeInternal, encode]
      exact
        (serializeHead_appends depth _).bind
          ((writeCount_appends _).bind
            (serializeAll_appends (depth + 1) expressions))
  | .or expressions => by
      rw [serializeInternal, encode]
      exact
        (serializeHead_appends depth _).bind
          ((writeCount_appends _).bind
            (serializeAll_appends (depth + 1) expressions))
  | .scriptHash hash => by
      rw [serializeInternal, encode]
      exact
        (serializeHead_appends depth _).bind (writeBytes_appends _)
  | .group publicKey => by
      rw [serializeInternal, encode]
      exact
        (serializeHead_appends depth _).bind
          (serializeGroup_appends publicKey)
  | .calledByEntry => by
      rw [serializeInternal, encode]
      exact serializeHead_appends depth _
  | .calledByContract hash => by
      rw [serializeInternal, encode]
      exact
        (serializeHead_appends depth _).bind (writeBytes_appends _)
  | .calledByGroup publicKey => by
      rw [serializeInternal, encode]
      exact
        (serializeHead_appends depth _).bind
          (serializeGroup_appends publicKey)

theorem serializeAll_appends (depth : Nat) :
    (expressions : List WitnessCondition) →
      Appends (serializeAll alloc depth expressions) (encodeAll expressions)
  | [] => by
      rw [serializeAll, encodeAll]
      exact appends_pure
  | expression :: rest => by
      rw [serializeAll, encodeAll]
      exact
        (serializeInternal_appends depth expression).bind
          (serializeAll_appends depth rest)

end

end WitnessCondition

/-- A `neoc_witness_action_t`. -/
inductive WitnessAction where
  | deny
  | allow
deriving DecidableEq, Repr

/-- The value of the enumeration, as the byte it is written as. -/
def WitnessAction.toByte : WitnessAction → UInt8
  | .deny => 0
  | .allow => 1

/-- A `neoc_witness_rule_t`. -/
structure WitnessRule where
  action : WitnessAction
  condition : Option WitnessCondition

/-! ## Signers -/

/-- A witness scope flag. -/
inductive WitnessScope where
  | calledByEntry
  | customContracts
  | customGroups
  | witnessRules
  | global
deriving DecidableEq, Repr

/-- The bit of a scope flag. -/
def WitnessScope.toByte : WitnessScope → UInt8
  | .calledByEntry => 0x01
  | .customContracts => 0x10
  | .customGroups => 0x20
  | .witnessRules => 0x40
  | .global => 0x80

/-- A `neoc_signer_t`. -/
structure Signer where
  account : Hash160
  scopes : UInt8
  allowedContracts : List Hash160
  allowedGroups : List Buffer
  rules : Slice (Option WitnessRule)

namespace Signer

/-- `sizeof(neoc_signer_t)`. -/
def structSize : Nat := 80

/-- `neoc_signer_create`. -/
def create (alloc : Allocator) (account : Hash160) (scopes : UInt8) :
    Outcome Signer :=
  if alloc.grants structSize then
    .ok
      { account, scopes, allowedContracts := [], allowedGroups := [],
        rules := .null 0 }
  else
    .error (.error .outOfMemory "Failed to allocate signer")

/-- `neoc_signer_create_called_by_entry`. -/
def createCalledByEntry (alloc : Allocator) (account : Hash160) :
    Outcome Signer :=
  create alloc account WitnessScope.calledByEntry.toByte

/-- The bit of the scope is set. -/
def hasScope (signer : Signer) (scope : WitnessScope) : Prop :=
  signer.scopes &&& scope.toByte ≠ 0

instance (signer : Signer) (scope : WitnessScope) :
    Decidable (signer.hasScope scope) :=
  inferInstanceAs (Decidable (signer.scopes &&& scope.toByte ≠ 0))

/-- `neoc_signer_get_size`. -/
def getSize (signer : Signer) : Nat :=
  (20 + 1 +
    (if signer.hasScope .customContracts then
      1 + signer.allowedContracts.length * 20 else 0) +
    (if signer.hasScope .customGroups then
      1 + (signer.allowedGroups.map fun group => 1 + group.len).sum
      else 0) +
    (if signer.hasScope .witnessRules then 1 else 0)) % sizeModulus

/-- The loop body for one witness rule. -/
def serializeRule (alloc : Allocator) (rule : Option WitnessRule) :
    Routine BinaryWriter Unit :=
  match rule with
  | none => errorSet .invalidArgument "Witness rule is NULL"
  | some rule => do
      BinaryWriter.writeByte alloc rule.action.toByte
      WitnessCondition.serialize alloc rule.condition

/-- The allowed contracts, if their scope is set. -/
def serializeContracts (alloc : Allocator) (signer : Signer) :
    Routine BinaryWriter Unit :=
  if signer.hasScope .customContracts then do
    BinaryWriter.writeVarInt alloc
      (UInt64.ofNat signer.allowedContracts.length)
    Call.forEach
      (fun contract => BinaryWriter.writeBytes alloc (.items contract.val))
      signer.allowedContracts
  else
    pure ()

/-- The allowed groups, if their scope is set. -/
def serializeGroups (alloc : Allocator) (signer : Signer) :
    Routine BinaryWriter Unit :=
  if signer.hasScope .customGroups then do
    BinaryWriter.writeVarInt alloc (UInt64.ofNat signer.allowedGroups.length)
    Call.forEach (BinaryWriter.writeVarBytes alloc) signer.allowedGroups
  else
    pure ()

/-- The witness rules, if their scope is set. -/
def serializeRules (alloc : Allocator) (signer : Signer) :
    Routine BinaryWriter Unit :=
  if signer.hasScope .witnessRules then do
    BinaryWriter.writeVarInt alloc (UInt64.ofNat signer.rules.len)
    Call.forEach (serializeRule alloc) signer.rules.content
  else
    pure ()

/-- `neoc_signer_serialize`. -/
def serialize (alloc : Allocator) (signer : Signer) :
    Routine BinaryWriter Unit := do
  BinaryWriter.writeBytes alloc (.items signer.account.val)
  BinaryWriter.writeByte alloc signer.scopes
  serializeContracts alloc signer
  serializeGroups alloc signer
  serializeRules alloc signer

/-! ## What is written for a signer -/

/--
The bytes of a witness rule.  A `NULL` rule is never written; the action byte
that it lacks stands for it.
-/
def ruleBytes (rule : Option WitnessRule) : List UInt8 :=
  match rule with
  | none => [0x00]
  | some rule =>
      [rule.action.toByte] ++
        match rule.condition with
        | none => []
        | some condition => condition.encode

/-- The bytes of the allowed contracts. -/
def contractBytes (signer : Signer) : List UInt8 :=
  if signer.hasScope .customContracts then
    BinaryWriter.countBytes signer.allowedContracts.length ++
      signer.allowedContracts.flatMap Subtype.val
  else
    []

/-- The bytes of the allowed groups. -/
def groupBytes (signer : Signer) : List UInt8 :=
  if signer.hasScope .customGroups then
    BinaryWriter.countBytes signer.allowedGroups.length ++
      signer.allowedGroups.flatMap BinaryWriter.bufferBytes
  else
    []

/-- The bytes of the witness rules. -/
def rulesBytes (signer : Signer) : List UInt8 :=
  if signer.hasScope .witnessRules then
    BinaryWriter.countBytes signer.rules.len ++
      signer.rules.content.flatMap ruleBytes
  else
    []

/-- The bytes of a signer. -/
def encode (signer : Signer) : List UInt8 :=
  signer.account.val ++
    ([signer.scopes] ++
      (signer.contractBytes ++ (signer.groupBytes ++ signer.rulesBytes)))

open BinaryWriter

variable {alloc : Allocator}

theorem serializeRule_appends (rule : Option WitnessRule) :
    Appends (serializeRule alloc rule) (ruleBytes rule) := by
  cases rule with
  | none => exact appends_halt _ _
  | some rule =>
      apply Appends.bind (writeByte_emits rule.action.toByte).appends
      cases rule.condition with
      | none => exact appends_halt _ _
      | some condition =>
          exact WitnessCondition.serializeInternal_appends 0 condition

theorem serializeContracts_appends (signer : Signer) :
    Appends (serializeContracts alloc signer) signer.contractBytes := by
  apply appends_ite _ appends_pure
  apply Appends.bind (writeCount_appends _)
  exact appends_forEach fun contract _ => writeBytes_appends _

theorem serializeGroups_appends (signer : Signer) :
    Appends (serializeGroups alloc signer) signer.groupBytes := by
  apply appends_ite _ appends_pure
  apply Appends.bind (writeCount_appends _)
  exact appends_forEach fun group _ => writeVarBytes_appends group

theorem serializeRules_appends (signer : Signer) :
    Appends (serializeRules alloc signer) signer.rulesBytes := by
  apply appends_ite _ appends_pure
  apply Appends.bind (writeCount_appends _)
  exact appends_forEach fun rule _ => serializeRule_appends rule

/-- What is written for a signer is its bytes. -/
theorem serialize_appends (signer : Signer) :
    Appends (serialize alloc signer) signer.encode :=
  (writeBytes_appends (.items signer.account.val)).bind
    ((writeByte_emits signer.scopes).appends.bind
      ((serializeContracts_appends signer).bind
        ((serializeGroups_appends signer).bind
          (serializeRules_appends signer))))

/-! ## When the size is right -/

/-- Sums compared term by term are equal only if all their terms are. -/
theorem sum_map_le_and_eq_iff {α : Type} {lower upper : α → Nat}
    {items : List α} (below : ∀ item ∈ items, lower item ≤ upper item) :
    (items.map lower).sum ≤ (items.map upper).sum ∧
      ((items.map lower).sum = (items.map upper).sum ↔
        ∀ item ∈ items, lower item = upper item) := by
  induction items with
  | nil => simp
  | cons item rest induction =>
      rcases List.forall_mem_cons.mp below with ⟨first, others⟩
      rcases induction others with ⟨restBelow, restEqual⟩
      simp only [List.map_cons, List.sum_cons, List.forall_mem_cons,
        ← restEqual]
      constructor
      · omega
      · constructor
        · intro equal
          omega
        · rintro ⟨equal, equalRest⟩
          omega

/-- One byte is enough for a count exactly up to `0xFC`. -/
theorem one_eq_length_countBytes_iff {count : Nat}
    (small : count < sizeModulus) :
    1 ≤ (countBytes count).length ∧
      ((countBytes count).length = 1 ↔ count < 0xFD) := by
  rw [length_countBytes small, varIntSize]
  split_ifs <;> omega

/-- Every group pointer backs its length, and counts are `size_t` values. -/
structure Backed (signer : Signer) : Prop where
  groups : ∀ group ∈ signer.allowedGroups, group.Backed
  rules : signer.rules.len < sizeModulus

/--
The signers that `neoc_signer_get_size` measures right: every count and every
length that is written fits one byte, and no witness rule is written.
-/
structure Measured (signer : Signer) : Prop where
  contracts :
    signer.hasScope .customContracts →
      signer.allowedContracts.length < 0xFD
  groups :
    signer.hasScope .customGroups →
      signer.allowedGroups.length < 0xFD ∧
        ∀ group ∈ signer.allowedGroups, group.len < 0xFD
  rules :
    signer.hasScope .witnessRules →
      signer.rules.len < 0xFD ∧ signer.rules.content = []

section Size

variable {signer : Signer}

theorem contracts_size
    (bounded : signer.contractBytes.length ≤ ptrdiffMax) :
    (if signer.hasScope .customContracts then
        1 + signer.allowedContracts.length * 20 else 0) ≤
      signer.contractBytes.length ∧
    ((if signer.hasScope .customContracts then
        1 + signer.allowedContracts.length * 20 else 0) =
        signer.contractBytes.length ↔
      (signer.hasScope .customContracts →
        signer.allowedContracts.length < 0xFD)) := by
  unfold contractBytes at bounded ⊢
  split
  · rename_i inScope
    rw [if_pos inScope] at bounded
    have hashes :
        (signer.allowedContracts.flatMap Subtype.val).length =
          signer.allowedContracts.length * 20 := by
      rw [List.length_flatMap,
        List.map_congr_left fun contract _ => contract.property]
      simp
    rw [List.length_append, hashes] at bounded ⊢
    have small : signer.allowedContracts.length < sizeModulus := by
      simp only [ptrdiffMax] at bounded
      simp only [sizeModulus]
      omega
    rcases one_eq_length_countBytes_iff small with ⟨atLeast, exactly⟩
    constructor
    · omega
    · simp only [inScope, true_implies, ← exactly]
      omega
  · rename_i outOfScope
    simp [outOfScope]

/-- A backed group takes its length and the prefix of its length. -/
theorem length_bufferBytes {data : Buffer} (backed : data.Backed) :
    (bufferBytes data).length = (countBytes data.len).length + data.len := by
  rw [bufferBytes, List.length_append, backed.length_content]

theorem groups_size (backed : signer.Backed)
    (bounded : signer.groupBytes.length ≤ ptrdiffMax) :
    (if signer.hasScope .customGroups then
        1 + (signer.allowedGroups.map fun group => 1 + group.len).sum
        else 0) ≤
      signer.groupBytes.length ∧
    ((if signer.hasScope .customGroups then
        1 + (signer.allowedGroups.map fun group => 1 + group.len).sum
        else 0) =
        signer.groupBytes.length ↔
      (signer.hasScope .customGroups →
        signer.allowedGroups.length < 0xFD ∧
          ∀ group ∈ signer.allowedGroups, group.len < 0xFD)) := by
  unfold groupBytes at bounded ⊢
  split
  · rename_i inScope
    rw [if_pos inScope, List.length_append, List.length_flatMap] at bounded
    rw [List.length_append, List.length_flatMap]
    have member (group : Buffer) (inside : group ∈ signer.allowedGroups) :
        (bufferBytes group).length ≤ ptrdiffMax := by
      have part :=
        List.le_sum_of_mem
          (List.mem_map_of_mem
            (f := fun group => (bufferBytes group).length) inside)
      omega
    have cost (group : Buffer) (inside : group ∈ signer.allowedGroups) :
        1 + group.len ≤ (bufferBytes group).length ∧
          (1 + group.len = (bufferBytes group).length ↔
            group.len < 0xFD) := by
      have inMemory := member group inside
      rw [length_bufferBytes (backed.groups group inside)] at inMemory ⊢
      have small : group.len < sizeModulus := by
        simp only [ptrdiffMax] at inMemory
        simp only [sizeModulus]
        omega
      rcases one_eq_length_countBytes_iff small with ⟨atLeast, exactly⟩
      rw [← exactly]
      omega
    rcases sum_map_le_and_eq_iff fun group inside => (cost group inside).1
      with ⟨below, equal⟩
    have atLeastOne :
        signer.allowedGroups.length ≤
          (signer.allowedGroups.map fun group => 1 + group.len).sum := by
      simp
    have small : signer.allowedGroups.length < sizeModulus := by
      simp only [ptrdiffMax] at bounded
      simp only [sizeModulus]
      omega
    rcases one_eq_length_countBytes_iff small with ⟨atLeast, exactly⟩
    have each :
        (∀ group ∈ signer.allowedGroups,
            1 + group.len = (bufferBytes group).length) ↔
          ∀ group ∈ signer.allowedGroups, group.len < 0xFD :=
      forall₂_congr fun group inside => (cost group inside).2
    constructor
    · omega
    · simp only [inScope, true_implies, ← exactly, ← each, ← equal]
      omega
  · rename_i outOfScope
    simp [outOfScope]

theorem rules_size (backed : signer.Backed) :
    (if signer.hasScope .witnessRules then 1 else 0) ≤
      signer.rulesBytes.length ∧
    ((if signer.hasScope .witnessRules then 1 else 0) =
        signer.rulesBytes.length ↔
      (signer.hasScope .witnessRules →
        signer.rules.len < 0xFD ∧ signer.rules.content = [])) := by
  unfold rulesBytes
  split
  · rename_i inScope
    rw [List.length_append]
    rcases one_eq_length_countBytes_iff backed.rules with ⟨atLeast, exactly⟩
    have empty :
        signer.rules.content = [] ↔
          (signer.rules.content.flatMap ruleBytes).length = 0 := by
      rw [List.length_eq_zero_iff]
      cases signer.rules.content with
      | nil => simp
      | cons rule rest =>
          cases rule with
          | none => simp [ruleBytes]
          | some rule => simp [ruleBytes]
    constructor
    · omega
    · simp only [inScope, true_implies, ← exactly, empty]
      omega
  · rename_i outOfScope
    simp [outOfScope]

/--
The size is never too large, and it is the number of bytes written exactly
for the measured signers.
-/
theorem getSize_le_and_eq_iff (backed : signer.Backed)
    (bounded : signer.encode.length ≤ ptrdiffMax) :
    signer.getSize ≤ signer.encode.length ∧
      (signer.getSize = signer.encode.length ↔ signer.Measured) := by
  have parts :
      signer.encode.length =
        20 + 1 + signer.contractBytes.length + signer.groupBytes.length +
          signer.rulesBytes.length := by
    simp only [encode, List.length_append, List.length_singleton,
      signer.account.property]
    omega
  rw [parts] at bounded ⊢
  rcases @contracts_size signer (by omega) with ⟨contractsLe, contractsEq⟩
  rcases groups_size backed (by omega) with ⟨groupsLe, groupsEq⟩
  rcases rules_size backed with ⟨rulesLe, rulesEq⟩
  have fields :
      signer.Measured ↔
        (signer.hasScope .customContracts →
          signer.allowedContracts.length < 0xFD) ∧
        (signer.hasScope .customGroups →
          signer.allowedGroups.length < 0xFD ∧
            ∀ group ∈ signer.allowedGroups, group.len < 0xFD) ∧
        (signer.hasScope .witnessRules →
          signer.rules.len < 0xFD ∧ signer.rules.content = []) := by
    constructor
    · intro measured
      exact ⟨measured.contracts, measured.groups, measured.rules⟩
    · rintro ⟨contracts, groups, rules⟩
      exact ⟨contracts, groups, rules⟩
  rw [fields, ← contractsEq, ← groupsEq, ← rulesEq, getSize,
    Nat.mod_eq_of_lt
      (by simp only [ptrdiffMax] at bounded; simp only [sizeModulus]; omega)]
  constructor
  · omega
  · omega

end Size

end Signer

end NeoC
