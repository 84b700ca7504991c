import NeoC.Crypto.EcKey
import NeoC.Transaction.Signer

/-!
# Deep copies of signers

`neoc_signer_copy` copies a signer with everything it owns.  The key of a
group is copied through its compressed form, so a copy can fail where the
curve rejects the form, and every object on the way can be refused by the
allocator.  A copy that is made is the signer it was made from, if its keys
are points of the curve and its groups are there.
-/

namespace NeoC

open Foundation

/-! ## Outcomes of a copy -/

/-- The outcome is the given value, or an error code. -/
def Copies {α : Type} (outcome : Outcome α) (value : α) : Prop :=
  outcome = .ok value ∨ ∃ code text, outcome = .error (.error code text)

theorem Copies.bind {α β : Type} {first : Outcome α} {value : α}
    {next : α → Outcome β} {result : β}
    (left : Copies first value) (right : Copies (next value) result) :
    Copies (first >>= next) result := by
  rcases left with rfl | ⟨code, text, rfl⟩
  · exact right
  · exact .inr ⟨code, text, rfl⟩

/-- Copying a list copies its elements. -/
theorem Copies.mapM {α β : Type} {copy : α → Outcome β} {value : α → β}
    {items : List α}
    (copies : ∀ item ∈ items, Copies (copy item) (value item)) :
    Copies (items.mapM copy) (items.map value) := by
  induction items with
  | nil => exact .inl rfl
  | cons item rest induction =>
      rw [List.mapM_cons]
      rcases List.forall_mem_cons.mp copies with ⟨first, others⟩
      exact first.bind ((induction others).bind (.inl rfl))

/-! ## Conditions and rules -/

namespace WitnessCondition

/-- `sizeof(neoc_witness_condition_t)`. -/
def structSize : Nat := 32

/-- `neoc_witness_condition_clone_public_key`. -/
def clonePublicKey (curve : Curve) (alloc : Allocator)
    (source : Option (Bytes 33)) : Outcome (Option (Bytes 33)) :=
  match source with
  | none =>
      .error (.error .invalidArgument "Invalid public key arguments")
  | some encoded =>
      if alloc.grants 33 then do
        let dest ← EcPublicKey.fromBytes curve alloc encoded.val
        .ok (some dest.compressed)
      else
        .error (.error .outOfMemory "Failed to allocate memory")

/-- The object that is filled in afterwards. -/
def cloneHead (alloc : Allocator) : Outcome Unit :=
  if alloc.grants structSize then
    .ok ()
  else
    .error (.error .outOfMemory "Failed to allocate witness condition clone")

/-- The array for the operands of a conjunction or disjunction. -/
def cloneList (alloc : Allocator) (count : Nat) : Outcome Unit :=
  if alloc.grants (count * 8) then
    .ok ()
  else
    .error (.error .outOfMemory "Failed to allocate clone list")

mutual

/-- `neoc_witness_condition_clone_internal`. -/
def cloneInternal (curve : Curve) (alloc : Allocator) :
    WitnessCondition → Outcome WitnessCondition
  | .boolean value => do
      cloneHead alloc
      .ok (.boolean value)
  | .not expression => do
      cloneHead alloc
      let expression ← cloneInternal curve alloc expression
      .ok (.not expression)
  | .and expressions => do
      cloneHead alloc
      cloneList alloc expressions.length
      let expressions ← cloneAll curve alloc expressions
      .ok (.and expressions)
  | .or expressions => do
      cloneHead alloc
      cloneList alloc expressions.length
      let expressions ← cloneAll curve alloc expressions
      .ok (.or expressions)
  | .scriptHash hash => do
      cloneHead alloc
      .ok (.scriptHash hash)
  | .group publicKey => do
      cloneHead alloc
      let publicKey ← clonePublicKey curve alloc publicKey
      .ok (.group publicKey)
  | .calledByEntry => do
      cloneHead alloc
      .ok .calledByEntry
  | .calledByContract hash => do
      cloneHead alloc
      .ok (.calledByContract hash)
  | .calledByGroup publicKey => do
      cloneHead alloc
      let publicKey ← clonePublicKey curve alloc publicKey
      .ok (.calledByGroup publicKey)

/-- The loop over the operands. -/
def cloneAll (curve : Curve) (alloc : Allocator) :
    List WitnessCondition → Outcome (List WitnessCondition)
  | [] => .ok []
  | expression :: rest => do
      let expression ← cloneInternal curve alloc expression
      let rest ← cloneAll curve alloc rest
      .ok (expression :: rest)

end

/-- The key of a group is one: it encodes a point of the curve. -/
def IsKey (curve : Curve) (publicKey : Option (Bytes 33)) : Prop :=
  ∀ encoded ∈ publicKey, ∃ point, encoded = curve.compressed point

mutual

/-- Every key in a condition is one. -/
def KeysOn (curve : Curve) : WitnessCondition → Prop
  | .boolean _ => True
  | .not expression => KeysOn curve expression
  | .and expressions => AllKeysOn curve expressions
  | .or expressions => AllKeysOn curve expressions
  | .scriptHash _ => True
  | .group publicKey => IsKey curve publicKey
  | .calledByEntry => True
  | .calledByContract _ => True
  | .calledByGroup publicKey => IsKey curve publicKey

/-- Every key in the operands is one. -/
def AllKeysOn (curve : Curve) : List WitnessCondition → Prop
  | [] => True
  | expression :: rest => KeysOn curve expression ∧ AllKeysOn curve rest

end

variable {curve : Curve} {alloc : Allocator}

theorem cloneHead_copies : Copies (cloneHead alloc) () := by
  rw [cloneHead]
  split
  · exact .inl rfl
  · exact .inr ⟨_, _, rfl⟩

theorem cloneList_copies (count : Nat) :
    Copies (cloneList alloc count) () := by
  rw [cloneList]
  split
  · exact .inl rfl
  · exact .inr ⟨_, _, rfl⟩

/-- A key comes back from its compressed form. -/
theorem clonePublicKey_copies {source : Option (Bytes 33)}
    (key : IsKey curve source) :
    Copies (clonePublicKey curve alloc source) source := by
  cases source with
  | none => exact .inr ⟨_, _, rfl⟩
  | some encoded =>
      rcases key encoded rfl with ⟨point, rfl⟩
      rw [clonePublicKey]
      split
      · by_cases granted : alloc.grants EcPublicKey.structSize = true
        · have decoded :=
            EcPublicKey.fromBytes_compressed granted
              (EcPublicKey.ofPoint point true)
          left
          change
            (EcPublicKey.fromBytes curve alloc
              (EcPublicKey.ofPoint point true).compressed.val >>= _) = _
          rw [decoded]
          rfl
        · have refused := Bool.eq_false_of_not_eq_true granted
          right
          simp [EcPublicKey.fromBytes, refused,
            (curve.compressed point).property, bind, Except.bind]
      · exact .inr ⟨_, _, rfl⟩

mutual

/-- A clone is the condition it was made from. -/
theorem cloneInternal_copies :
    (condition : WitnessCondition) → condition.KeysOn curve →
      Copies (cloneInternal curve alloc condition) condition
  | .boolean value, _ => by
      rw [cloneInternal]
      exact cloneHead_copies.bind (.inl rfl)
  | .not expression, keys => by
      rw [cloneInternal]
      rw [KeysOn] at keys
      exact
        cloneHead_copies.bind
          ((cloneInternal_copies expression keys).bind (.inl rfl))
  | .and expressions, keys => by
      rw [cloneInternal]
      rw [KeysOn] at keys
      exact
        cloneHead_copies.bind
          ((cloneList_copies _).bind
            ((cloneAll_copies expressions keys).bind (.inl rfl)))
  | .or expressions, keys => by
      rw [cloneInternal]
      rw [KeysOn] at keys
      exact
        cloneHead_copies.bind
          ((cloneList_copies _).bind
            ((cloneAll_copies expressions keys).bind (.inl rfl)))
  | .scriptHash hash, _ => by
      rw [cloneInternal]
      exact cloneHead_copies.bind (.inl rfl)
  | .group publicKey, keys => by
      rw [cloneInternal]
      rw [KeysOn] at keys
      exact
        cloneHead_copies.bind ((clonePublicKey_copies keys).bind (.inl rfl))
  | .calledByEntry, _ => by
      rw [cloneInternal]
      exact cloneHead_copies.bind (.inl rfl)
  | .calledByContract hash, _ => by
      rw [cloneInternal]
      exact cloneHead_copies.bind (.inl rfl)
  | .calledByGroup publicKey, keys => by
      rw [cloneInternal]
      rw [KeysOn] at keys
      exact
        cloneHead_copies.bind ((clonePublicKey_copies keys).bind (.inl rfl))

theorem cloneAll_copies :
    (expressions : List WitnessCondition) → AllKeysOn curve expressions →
      Copies (cloneAll curve alloc expressions) expressions
  | [], _ => by
      rw [cloneAll]
      exact .inl rfl
  | expression :: rest, keys => by
      rw [cloneAll]
      rw [AllKeysOn] at keys
      exact
        (cloneInternal_copies expression keys.1).bind
          ((cloneAll_copies rest keys.2).bind (.inl rfl))

end

end WitnessCondition

namespace WitnessRule

/-- `sizeof(neoc_witness_rule_t)`. -/
def structSize : Nat := 16

/-- `neoc_witness_rule_clone`. -/
def clone (curve : Curve) (alloc : Allocator) (src : WitnessRule) :
    Outcome WitnessRule :=
  if alloc.grants structSize = false then
    .error (.error .outOfMemory "Failed to allocate witness rule clone")
  else
    match src.condition with
    | none => .ok src
    | some condition => do
        let condition ← condition.cloneInternal curve alloc
        .ok { src with condition := some condition }

/-- Every key in a rule is one. -/
def KeysOn (curve : Curve) (rule : WitnessRule) : Prop :=
  ∀ condition ∈ rule.condition, condition.KeysOn curve

/-- A clone is the rule it was made from. -/
theorem clone_copies {curve : Curve} {alloc : Allocator} {src : WitnessRule}
    (keys : src.KeysOn curve) :
    Copies (src.clone curve alloc) src := by
  rw [clone]
  split
  · exact .inr ⟨_, _, rfl⟩
  · rcases src with ⟨action, _ | condition⟩
    · exact .inl rfl
    · exact
        (WitnessCondition.cloneInternal_copies condition
          (keys condition rfl)).bind (.inl rfl)

end WitnessRule

/-! ## Signers -/

namespace Signer

/-- The copy of the allowed contracts. -/
def copyContracts (alloc : Allocator) (contracts : List Hash160) :
    Outcome (List Hash160) :=
  if contracts.length = 0 then
    .ok []
  else if alloc.grants (contracts.length * 20) then
    .ok contracts
  else
    .error (.error .outOfMemory "Failed to allocate allowed contracts")

/-- The copy of one group key. -/
def copyGroup (alloc : Allocator) (group : Buffer) : Outcome Buffer :=
  if alloc.grants group.len = false then
    .error (.error .outOfMemory "Failed to allocate group public key")
  else
    match group with
    | .null count =>
        if count = 0 then .ok (.items []) else .error .illegalAccess
    | .items content => .ok (.items content)

/-- The copy of the allowed groups. -/
def copyGroups (alloc : Allocator) (groups : List Buffer) :
    Outcome (List Buffer) :=
  if groups.length = 0 then
    .ok []
  else if alloc.grants (groups.length * 8) then
    groups.mapM (copyGroup alloc)
  else
    .error (.error .outOfMemory "Failed to allocate allowed groups")

/-- The copy of one witness rule; a `NULL` entry stays `NULL`. -/
def copyRule (curve : Curve) (alloc : Allocator)
    (rule : Option WitnessRule) : Outcome (Option WitnessRule) :=
  match rule with
  | none => .ok none
  | some rule => do
      let rule ← rule.clone curve alloc
      .ok (some rule)

/-- The copy of the witness rules. -/
def copyRules (curve : Curve) (alloc : Allocator)
    (rules : Slice (Option WitnessRule)) :
    Outcome (Slice (Option WitnessRule)) :=
  match rules with
  | .null _ => .ok (.null 0)
  | .items content =>
      if content.length = 0 then
        .ok (.null 0)
      else if alloc.grants (content.length * 8) then do
        let content ← content.mapM (copyRule curve alloc)
        .ok (.items content)
      else
        .error (.error .outOfMemory "Failed to allocate witness rules")

/-- `neoc_signer_copy`. -/
def copy (curve : Curve) (alloc : Allocator) (source : Signer) :
    Outcome Signer :=
  if alloc.grants structSize = false then
    .error (.error .outOfMemory "Failed to allocate signer copy")
  else do
    let allowedContracts ← copyContracts alloc source.allowedContracts
    let allowedGroups ← copyGroups alloc source.allowedGroups
    let rules ← copyRules curve alloc source.rules
    .ok
      { account := source.account, scopes := source.scopes,
        allowedContracts, allowedGroups, rules }

/--
A signer as the library makes it: the bytes of a group are there, and the
keys in its rules are points of the curve.
-/
structure WellFormed (curve : Curve) (signer : Signer) : Prop where
  groups : ∀ group ∈ signer.allowedGroups, group.Backed
  rules :
    ∀ entry ∈ signer.rules.content, ∀ rule ∈ entry,
      WitnessRule.KeysOn curve rule

/-- Two signers that read the same, wherever their arrays lie. -/
structure SameAs (left right : Signer) : Prop where
  account : left.account = right.account
  scopes : left.scopes = right.scopes
  allowedContracts : left.allowedContracts = right.allowedContracts
  allowedGroups :
    left.allowedGroups.map Slice.content =
      right.allowedGroups.map Slice.content
  rules : left.rules.content = right.rules.content

variable {curve : Curve} {alloc : Allocator}

theorem copyContracts_copies (contracts : List Hash160) :
    Copies (copyContracts alloc contracts) contracts := by
  rw [copyContracts]
  split
  · rename_i empty
    rw [List.eq_nil_of_length_eq_zero empty]
    exact .inl rfl
  · split
    · exact .inl rfl
    · exact .inr ⟨_, _, rfl⟩

/-- The bytes of a group are copied into a block of their own. -/
theorem copyGroup_copies {group : Buffer} (backed : group.Backed) :
    Copies (copyGroup alloc group) (.items group.content) := by
  unfold copyGroup
  split
  · exact .inr ⟨_, _, rfl⟩
  · cases group with
    | null count =>
        have empty : count = 0 := backed
        exact .inl (if_pos empty)
    | items content => exact .inl rfl

theorem copyGroups_copies {groups : List Buffer}
    (backed : ∀ group ∈ groups, group.Backed) :
    Copies (copyGroups alloc groups)
      (groups.map fun group => .items group.content) := by
  rw [copyGroups]
  split
  · rename_i empty
    rw [List.eq_nil_of_length_eq_zero empty]
    exact .inl rfl
  · split
    · apply Copies.mapM
      intro group member
      exact copyGroup_copies (backed group member)
    · exact .inr ⟨_, _, rfl⟩

theorem copyRule_copies {entry : Option WitnessRule}
    (keys : ∀ rule ∈ entry, WitnessRule.KeysOn curve rule) :
    Copies (copyRule curve alloc entry) entry := by
  cases entry with
  | none => exact .inl rfl
  | some rule =>
      exact (WitnessRule.clone_copies (keys rule rfl)).bind (.inl rfl)

/-- An array without rules is not copied. -/
def keptRules (rules : Slice (Option WitnessRule)) :
    Slice (Option WitnessRule) :=
  if rules.content.length = 0 then .null 0 else .items rules.content

theorem content_keptRules (rules : Slice (Option WitnessRule)) :
    (keptRules rules).content = rules.content := by
  rw [keptRules]
  split
  · rename_i empty
    rw [List.eq_nil_of_length_eq_zero empty]
    rfl
  · rfl

theorem copyRules_copies {rules : Slice (Option WitnessRule)}
    (keys :
      ∀ entry ∈ rules.content, ∀ rule ∈ entry,
        WitnessRule.KeysOn curve rule) :
    Copies (copyRules curve alloc rules) (keptRules rules) := by
  cases rules with
  | null count => exact .inl rfl
  | items content =>
      have kept :
          keptRules (.items content) =
            if content.length = 0 then .null 0 else .items content :=
        rfl
      rw [copyRules, kept]
      split
      · exact .inl rfl
      · split
        · have copied :
              Copies (content.mapM (copyRule curve alloc))
                (content.map id) :=
            Copies.mapM fun entry member =>
              copyRule_copies (keys entry member)
          rw [List.map_id] at copied
          exact copied.bind (.inl rfl)
        · exact .inr ⟨_, _, rfl⟩

/-- A copy that is made reads as the signer it was made from. -/
theorem copy_copies {signer : Signer}
    (wellFormed : signer.WellFormed curve) :
    ∃ copied : Signer,
      Copies (signer.copy curve alloc) copied ∧ copied.SameAs signer := by
  refine
    ⟨{ signer with
        allowedGroups :=
          signer.allowedGroups.map fun group => .items group.content
        rules := keptRules signer.rules }, ?_, ?_⟩
  · rw [copy]
    split
    · exact .inr ⟨_, _, rfl⟩
    · exact
        (copyContracts_copies signer.allowedContracts).bind
          ((copyGroups_copies wellFormed.groups).bind
            ((copyRules_copies wellFormed.rules).bind (.inl rfl)))
  · refine ⟨rfl, rfl, rfl, ?_, content_keptRules signer.rules⟩
    rw [List.map_map]
    rfl

end Signer

end NeoC
