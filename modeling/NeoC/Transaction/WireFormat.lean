import NeoC.Foundation.PrefixCode
import NeoC.Transaction.Size

/-!
# Reading a serialization back

No serialized transaction starts another one.  Each part is written so that
its end can be found: behind a count, with a fixed width, or with a first byte
that decides what follows.  What can go wrong is a stored length without its
bytes, which the writer announces and then does not write.

A part is legible if it has no such length, and if no pointer is missing that
the serializer would refuse.  The serializer itself ensures the second half,
and that every count fits its prefix.
-/

namespace NeoC

open Foundation

/-! ## Counts and buffers -/

namespace BinaryWriter

theorem countBytes_unambiguous :
    Unambiguous
      (fun left right => left < sizeModulus ∧ right < sizeModulus)
      countBytes id := by
  intro left right leftRest rightRest small same
  rw [countBytes, countBytes, Nat.mod_eq_of_lt small.1,
    Nat.mod_eq_of_lt small.2] at same
  exact VarInt.encode_unambiguous left right leftRest rightRest small same

/-- What has a fixed number of bytes can be read back. -/
theorem bytes_readBack {size : Nat} {left right : Bytes size}
    {leftRest rightRest : List UInt8}
    (same : left.val ++ leftRest = right.val ++ rightRest) :
    left = right ∧ leftRest = rightRest := by
  rcases
    List.append_inj same (left.property.trans right.property.symm) with
    ⟨seen, rest⟩
  exact ⟨Subtype.ext seen, rest⟩

/-- A buffer whose bytes are there and whose length fits its prefix. -/
structure Legible (data : Buffer) : Prop where
  backed : data.Backed
  small : data.len < sizeModulus

/-- A buffer behind its length shows its bytes. -/
theorem bufferBytes_unambiguous :
    Unambiguous (fun left right => Legible left ∧ Legible right)
      bufferBytes Slice.content := by
  have head :
      Unambiguous (fun left right => Legible left ∧ Legible right)
        (fun data : Buffer => countBytes data.len) Slice.len :=
    (countBytes_unambiguous.comap Slice.len).mono
      fun _ _ both => ⟨both.1.small, both.2.small⟩
  refine (head.append (Unambiguous.fixed ?_)).map ?_
  · rintro left right ⟨⟨legible, legible'⟩, sameLength⟩
    rw [legible.backed.length_content, legible'.backed.length_content,
      sameLength]
  · intro left right _ seen
    exact congrArg Prod.snd seen

theorem one_le_length_bufferBytes (data : Buffer) :
    1 ≤ (bufferBytes data).length := by
  rw [bufferBytes, List.length_append]
  exact
    (VarInt.one_le_length_encode _).trans (Nat.le_add_right _ _)

theorem writeVarBytes_ensures {alloc : Allocator} {data : Buffer}
    (backed : data.Backed) :
    Ensures (writeVarBytes alloc data) (Legible data) := by
  refine (writeVarBytes_appends data).ensures_length.imp ?_
  intro bounded
  rw [Signer.length_bufferBytes backed] at bounded
  exact ⟨backed, lt_sizeModulus (by omega)⟩

section Counted

variable {alloc : Allocator} {α β : Type} {bytesOf : α → List UInt8}
  {items : List α}

/-- Items that take at least a byte each are never too many to count. -/
theorem Appends.ensures_count {call : Routine BinaryWriter Unit}
    (appends : Appends call (items.flatMap bytesOf))
    (nonempty : ∀ item, 1 ≤ (bytesOf item).length) :
    Ensures call (items.length < sizeModulus) := by
  refine appends.ensures_length.imp ?_
  intro bounded
  exact
    lt_sizeModulus
      ((Transaction.count_le_flatMap nonempty).trans bounded)

/-- A list that was written behind its count. -/
theorem writeCounted_ensures {call : α → Routine BinaryWriter Unit}
    {legible : α → Prop}
    (appends : ∀ item ∈ items, Appends (call item) (bytesOf item))
    (nonempty : ∀ item, 1 ≤ (bytesOf item).length)
    (each : ∀ item ∈ items, Ensures (call item) (legible item)) :
    Ensures
      (writeVarInt alloc (UInt64.ofNat items.length) >>= fun _ =>
        Call.forEach call items)
      (items.length < sizeModulus ∧ ∀ item ∈ items, legible item) :=
  (((appends_forEach appends).ensures_count nonempty).and
    (ensures_forEach appends each)).bind_right (writeCount_appends _)

/-- A list behind its count shows what its items show. -/
theorem counted_unambiguous {legible : α → Prop} {view : α → β}
    (item :
      Unambiguous (fun left right => legible left ∧ legible right)
        bytesOf view) :
    Unambiguous
      (fun left right : List α =>
        (left.length < sizeModulus ∧ ∀ one ∈ left, legible one) ∧
          (right.length < sizeModulus ∧ ∀ other ∈ right, legible other))
      (fun items => countBytes items.length ++ items.flatMap bytesOf)
      (List.map view) := by
  refine (countBytes_unambiguous.counted item).mono ?_
  rintro left right ⟨⟨small, each⟩, ⟨small', each'⟩⟩
  exact
    ⟨⟨small, small'⟩, fun one inside other inside' =>
      ⟨each one inside, each' other inside'⟩⟩

end Counted

end BinaryWriter

open BinaryWriter

variable {alloc : Allocator}

/-! ## Witness conditions -/

namespace WitnessCondition

/-- A condition without `NULL` keys whose operands can be counted. -/
inductive Legible : WitnessCondition → Prop where
  | boolean (value : Bool) : Legible (.boolean value)
  | not {expression : WitnessCondition} (inner : Legible expression) :
      Legible (.not expression)
  | and {expressions : List WitnessCondition}
      (small : expressions.length < sizeModulus)
      (each : ∀ expression ∈ expressions, Legible expression) :
      Legible (.and expressions)
  | or {expressions : List WitnessCondition}
      (small : expressions.length < sizeModulus)
      (each : ∀ expression ∈ expressions, Legible expression) :
      Legible (.or expressions)
  | scriptHash (hash : Hash160) : Legible (.scriptHash hash)
  | group (encoded : Bytes 33) : Legible (.group (some encoded))
  | calledByEntry : Legible .calledByEntry
  | calledByContract (hash : Hash160) : Legible (.calledByContract hash)
  | calledByGroup (encoded : Bytes 33) :
      Legible (.calledByGroup (some encoded))

/-- The bytes behind the type byte. -/
def body : WitnessCondition → List UInt8
  | .boolean value => [if value then 1 else 0]
  | .not expression => encode expression
  | .and expressions =>
      countBytes expressions.length ++ expressions.flatMap encode
  | .or expressions =>
      countBytes expressions.length ++ expressions.flatMap encode
  | .scriptHash hash => hash.val
  | .group publicKey => groupBytes publicKey
  | .calledByEntry => []
  | .calledByContract hash => hash.val
  | .calledByGroup publicKey => groupBytes publicKey

theorem encodeAll_eq_flatMap (expressions : List WitnessCondition) :
    encodeAll expressions = expressions.flatMap encode := by
  induction expressions with
  | nil => rfl
  | cons expression rest induction =>
      rw [encodeAll, induction, List.flatMap_cons]

theorem encode_eq_cons (condition : WitnessCondition) :
    condition.encode = condition.typeToByte :: condition.body := by
  cases condition with
  | and expressions =>
      rw [encode, encodeAll_eq_flatMap]
      rfl
  | or expressions =>
      rw [encode, encodeAll_eq_flatMap]
      rfl
  | _ => rfl

theorem one_le_length_encode (condition : WitnessCondition) :
    1 ≤ condition.encode.length := by
  rw [encode_eq_cons, List.length_cons]
  exact Nat.le_add_left 1 _

/-- Conditions that start the same bytes have one type. -/
theorem encode_split {left right : WitnessCondition}
    {leftRest rightRest : List UInt8}
    (same : left.encode ++ leftRest = right.encode ++ rightRest) :
    left.typeToByte = right.typeToByte ∧
      left.body ++ leftRest = right.body ++ rightRest := by
  rw [encode_eq_cons, encode_eq_cons] at same
  exact List.cons.inj same

/-- The bytes of the condition start those of no other one. -/
def ReadsBack (condition : WitnessCondition) : Prop :=
  ∀ other leftRest rightRest,
    Legible other →
      condition.encode ++ leftRest = other.encode ++ rightRest →
        condition = other ∧ leftRest = rightRest

/-- Operands that can be read back one by one can be read back together. -/
theorem operands_readBack {expressions others : List WitnessCondition}
    {leftRest rightRest : List UInt8}
    (small : expressions.length < sizeModulus)
    (small' : others.length < sizeModulus)
    (each : ∀ expression ∈ expressions, ReadsBack expression)
    (each' : ∀ other ∈ others, Legible other)
    (same :
      (countBytes expressions.length ++ expressions.flatMap encode) ++
          leftRest =
        (countBytes others.length ++ others.flatMap encode) ++ rightRest) :
    expressions = others ∧ leftRest = rightRest := by
  have operand :
      Unambiguous (fun left right => ReadsBack left ∧ Legible right)
        encode id :=
    fun left right leftRest rightRest both same =>
      both.1 right leftRest rightRest both.2 same
  rcases
    countBytes_unambiguous.counted operand expressions others leftRest
      rightRest
      ⟨⟨small, small'⟩, fun one inside other inside' =>
        ⟨each one inside, each' other inside'⟩⟩
      same with
    ⟨seen, rest⟩
  rw [List.map_id, List.map_id] at seen
  exact ⟨seen, rest⟩

/-- Legible conditions can be read back, by induction on their nesting. -/
theorem Legible.readsBack {condition : WitnessCondition}
    (legible : condition.Legible) :
    condition.ReadsBack := by
  induction legible with
  | boolean value =>
      intro other leftRest rightRest legible' same
      rcases encode_split same with ⟨tag, later⟩
      cases legible' with
      | boolean value' =>
          rcases List.cons.inj later with ⟨seen, rest⟩
          refine ⟨congrArg WitnessCondition.boolean ?_, rest⟩
          cases value <;> cases value' <;> first | rfl | cases seen
      | _ => simp [typeToByte] at tag
  | not inner induction =>
      intro other leftRest rightRest legible' same
      rcases encode_split same with ⟨tag, later⟩
      cases legible' with
      | not inner' =>
          rcases induction _ _ _ inner' later with ⟨seen, rest⟩
          exact ⟨congrArg WitnessCondition.not seen, rest⟩
      | _ => simp [typeToByte] at tag
  | and small each induction =>
      intro other leftRest rightRest legible' same
      rcases encode_split same with ⟨tag, later⟩
      cases legible' with
      | and small' each' =>
          rcases operands_readBack small small' induction each' later with
            ⟨seen, rest⟩
          exact ⟨congrArg WitnessCondition.and seen, rest⟩
      | _ => simp [typeToByte] at tag
  | or small each induction =>
      intro other leftRest rightRest legible' same
      rcases encode_split same with ⟨tag, later⟩
      cases legible' with
      | or small' each' =>
          rcases operands_readBack small small' induction each' later with
            ⟨seen, rest⟩
          exact ⟨congrArg WitnessCondition.or seen, rest⟩
      | _ => simp [typeToByte] at tag
  | scriptHash hash =>
      intro other leftRest rightRest legible' same
      rcases encode_split same with ⟨tag, later⟩
      cases legible' with
      | scriptHash hash' =>
          rcases bytes_readBack later with ⟨seen, rest⟩
          exact ⟨congrArg WitnessCondition.scriptHash seen, rest⟩
      | _ => simp [typeToByte] at tag
  | group encoded =>
      intro other leftRest rightRest legible' same
      rcases encode_split same with ⟨tag, later⟩
      cases legible' with
      | group encoded' =>
          rcases bytes_readBack later with ⟨rfl, rest⟩
          exact ⟨rfl, rest⟩
      | _ => simp [typeToByte] at tag
  | calledByEntry =>
      intro other leftRest rightRest legible' same
      rcases encode_split same with ⟨tag, later⟩
      cases legible' with
      | calledByEntry => exact ⟨rfl, later⟩
      | _ => simp [typeToByte] at tag
  | calledByContract hash =>
      intro other leftRest rightRest legible' same
      rcases encode_split same with ⟨tag, later⟩
      cases legible' with
      | calledByContract hash' =>
          rcases bytes_readBack later with ⟨seen, rest⟩
          exact ⟨congrArg WitnessCondition.calledByContract seen, rest⟩
      | _ => simp [typeToByte] at tag
  | calledByGroup encoded =>
      intro other leftRest rightRest legible' same
      rcases encode_split same with ⟨tag, later⟩
      cases legible' with
      | calledByGroup encoded' =>
          rcases bytes_readBack later with ⟨rfl, rest⟩
          exact ⟨rfl, rest⟩
      | _ => simp [typeToByte] at tag

/-- A conjunction or disjunction has written how many operands it has. -/
theorem operands_ensures {depth : Nat}
    {expressions : List WitnessCondition}
    (each :
      Ensures (serializeAll alloc depth expressions)
        (∀ expression ∈ expressions, Legible expression)) :
    Ensures
      (writeVarInt alloc (UInt64.ofNat expressions.length) >>= fun _ =>
        serializeAll alloc depth expressions)
      (expressions.length < sizeModulus ∧
        ∀ expression ∈ expressions, Legible expression) := by
  have appends :
      Appends (serializeAll alloc depth expressions)
        (expressions.flatMap encode) := by
    rw [← encodeAll_eq_flatMap]
    exact serializeAll_appends depth expressions
  have counted := appends.ensures_count one_le_length_encode
  exact (counted.and each).bind_right (writeCount_appends _)

mutual

/-- Only legible conditions are serialized. -/
theorem serializeInternal_ensures (depth : Nat) :
    (condition : WitnessCondition) →
      Ensures (serializeInternal alloc depth condition) condition.Legible
  | .boolean value => Ensures.of_true (.boolean value) _
  | .not expression => by
      rw [serializeInternal]
      exact
        ((serializeInternal_ensures (depth + 1) expression).bind_right
          (serializeHead_appends depth _)).imp Legible.not
  | .and expressions => by
      rw [serializeInternal]
      refine
        ((operands_ensures
          (serializeAll_ensures (depth + 1) expressions)).bind_right
            (serializeHead_appends depth _)).imp ?_
      rintro ⟨small, each⟩
      exact .and small each
  | .or expressions => by
      rw [serializeInternal]
      refine
        ((operands_ensures
          (serializeAll_ensures (depth + 1) expressions)).bind_right
            (serializeHead_appends depth _)).imp ?_
      rintro ⟨small, each⟩
      exact .or small each
  | .scriptHash hash => Ensures.of_true (.scriptHash hash) _
  | .group none => by
      rw [serializeInternal]
      exact
        (ensures_halt _ _).bind_right (serializeHead_appends depth _)
  | .group (some encoded) => Ensures.of_true (.group encoded) _
  | .calledByEntry => Ensures.of_true .calledByEntry _
  | .calledByContract hash => Ensures.of_true (.calledByContract hash) _
  | .calledByGroup none => by
      rw [serializeInternal]
      exact
        (ensures_halt _ _).bind_right (serializeHead_appends depth _)
  | .calledByGroup (some encoded) =>
      Ensures.of_true (.calledByGroup encoded) _

theorem serializeAll_ensures (depth : Nat) :
    (expressions : List WitnessCondition) →
      Ensures (serializeAll alloc depth expressions)
        (∀ expression ∈ expressions, Legible expression)
  | [] => Ensures.of_true (List.forall_mem_nil _) _
  | expression :: rest => by
      rw [serializeAll, List.forall_mem_cons]
      exact
        (Ensures.bind_left (serializeInternal_ensures depth expression)).and
          ((serializeAll_ensures depth rest).bind_right
            (serializeInternal_appends depth expression))

end

end WitnessCondition

/-! ## Witness rules -/

namespace WitnessRule

/-- A rule that is there, with a condition that can be read back. -/
def Legible (entry : Option WitnessRule) : Prop :=
  ∃ action condition,
    entry = some ⟨action, some condition⟩ ∧
      WitnessCondition.Legible condition

theorem ruleBytes_unambiguous :
    Unambiguous (fun left right => Legible left ∧ Legible right)
      Signer.ruleBytes id := by
  rintro left right leftRest rightRest
    ⟨⟨action, condition, rfl, legible⟩, ⟨action', condition', rfl, legible'⟩⟩
    same
  rcases List.cons.inj same with ⟨sameAction, later⟩
  rcases legible.readsBack condition' _ _ legible' later with ⟨rfl, rest⟩
  refine ⟨?_, rest⟩
  cases action <;> cases action' <;> first | rfl | cases sameAction

theorem serializeRule_ensures (entry : Option WitnessRule) :
    Ensures (Signer.serializeRule alloc entry) (Legible entry) := by
  cases entry with
  | none => exact ensures_halt _ _
  | some rule =>
      rcases rule with ⟨action, condition⟩
      refine
        Ensures.bind_right ?_ (writeByte_emits action.toByte).appends
      cases condition with
      | none => exact ensures_halt _ _
      | some condition =>
          refine
            (WitnessCondition.serializeInternal_ensures 0 condition).imp ?_
          intro legible
          exact ⟨action, condition, rfl, legible⟩

theorem one_le_length_ruleBytes (entry : Option WitnessRule) :
    1 ≤ (Signer.ruleBytes entry).length := by
  cases entry with
  | none => exact le_rfl
  | some rule =>
      rw [Signer.ruleBytes, List.length_append, List.length_singleton]
      exact Nat.le_add_right 1 _

end WitnessRule

/-! ## Signers -/

/-- What the bytes of a signer show of it. -/
structure SignerCommitment where
  account : Hash160
  scopes : UInt8
  allowedContracts : List Hash160
  allowedGroups : List (List UInt8)
  rules : List (Option WitnessRule)

namespace Signer

/-- The allowed contracts, if the scope byte selects them. -/
def selectedContracts (signer : Signer) : List Hash160 :=
  if signer.hasScope .customContracts then signer.allowedContracts else []

/-- The allowed groups, if the scope byte selects them. -/
def selectedGroups (signer : Signer) : List (List UInt8) :=
  if signer.hasScope .customGroups then
    signer.allowedGroups.map Slice.content
  else
    []

/-- The witness rules, if the scope byte selects them. -/
def selectedRules (signer : Signer) : List (Option WitnessRule) :=
  if signer.hasScope .witnessRules then signer.rules.content else []

/-- The account, the scope byte and everything that it selects. -/
def commitment (signer : Signer) : SignerCommitment where
  account := signer.account
  scopes := signer.scopes
  allowedContracts := signer.selectedContracts
  allowedGroups := signer.selectedGroups
  rules := signer.selectedRules

/-- A signer of which everything that is written can be read back. -/
structure Legible (signer : Signer) : Prop where
  contracts :
    signer.hasScope .customContracts →
      signer.allowedContracts.length < sizeModulus
  groups :
    signer.hasScope .customGroups →
      signer.allowedGroups.length < sizeModulus ∧
        ∀ group ∈ signer.allowedGroups, BinaryWriter.Legible group
  rules :
    signer.hasScope .witnessRules →
      signer.rules.content.length < sizeModulus ∧
        ∀ entry ∈ signer.rules.content, WitnessRule.Legible entry
  rulesBacked : signer.rules.Backed

/-- Two legible signers whose bytes have agreed up to the scope byte. -/
structure SameScopes (left right : Signer) : Prop where
  legible : left.Legible
  legible' : right.Legible
  scopes : left.scopes = right.scopes

theorem SameScopes.hasScope_iff {left right : Signer}
    (same : SameScopes left right) (scope : WitnessScope) :
    left.hasScope scope ↔ right.hasScope scope := by
  rw [hasScope, hasScope, same.scopes]

/-- A counted list that is written if its scope bit is set. -/
theorem section_unambiguous {α β : Type} {scope : WitnessScope}
    {items : Signer → List α} {bytesOf : α → List UInt8}
    {legible : α → Prop} {view : α → β}
    (item :
      Unambiguous (fun left right => legible left ∧ legible right)
        bytesOf view)
    (fits :
      ∀ signer : Signer,
        signer.Legible → signer.hasScope scope →
          (items signer).length < sizeModulus ∧
            ∀ item ∈ items signer, legible item) :
    Unambiguous SameScopes
      (fun signer =>
        if signer.hasScope scope then
          countBytes (items signer).length ++
            (items signer).flatMap bytesOf
        else
          [])
      (fun signer =>
        if signer.hasScope scope then (items signer).map view else []) := by
  apply Unambiguous.option fun _ _ same => same.hasScope_iff scope
  refine ((counted_unambiguous item).comap items).mono ?_
  rintro left right ⟨same, inScope, inScope'⟩
  exact ⟨fits left same.legible inScope, fits right same.legible' inScope'⟩

theorem contractBytes_unambiguous :
    Unambiguous SameScopes contractBytes selectedContracts := by
  have contract :
      Unambiguous (fun _ _ : Hash160 => True ∧ True) Subtype.val id :=
    fun _ _ _ _ _ same => bytes_readBack same
  have contracts :=
    section_unambiguous contract fun signer legible inScope =>
      ⟨legible.contracts inScope, fun _ _ => trivial⟩
  simp only [List.map_id] at contracts
  exact contracts

theorem groupBytes_unambiguous :
    Unambiguous SameScopes groupBytes selectedGroups :=
  section_unambiguous bufferBytes_unambiguous fun _ legible =>
    legible.groups

theorem rulesBytes_unambiguous :
    Unambiguous SameScopes rulesBytes selectedRules := by
  have rules :=
    section_unambiguous WitnessRule.ruleBytes_unambiguous
      fun _ legible => legible.rules
  simp only [List.map_id] at rules
  refine rules.congr ?_
  intro left right same
  rw [rulesBytes, rulesBytes, same.legible.rulesBacked.length_content,
    same.legible'.rulesBacked.length_content]
  exact ⟨rfl, rfl⟩

/-- The bytes of a signer show its commitment. -/
theorem encode_unambiguous :
    Unambiguous (fun left right => left.Legible ∧ right.Legible)
      encode commitment := by
  have accounts :
      Unambiguous (fun left right : Signer => left.Legible ∧ right.Legible)
        (fun signer => signer.account.val) account :=
    fun _ _ _ _ _ same => bytes_readBack same
  have scope :
      Unambiguous
        (fun left right : Signer =>
          (left.Legible ∧ right.Legible) ∧ left.account = right.account)
        (fun signer => [signer.scopes]) scopes :=
    fun _ _ _ _ _ same => List.cons.inj same
  have sections :=
    contractBytes_unambiguous.seq
      (groupBytes_unambiguous.seq rulesBytes_unambiguous)
  have whole :=
    accounts.append
      (scope.append
        (sections.mono fun _ _ both =>
          ⟨both.1.1.1, both.1.1.2, both.2⟩))
  refine whole.map ?_
  intro left right _ seen
  exact
    congrArg
      (fun shown =>
        SignerCommitment.mk shown.1 shown.2.1 shown.2.2.1 shown.2.2.2.1
          shown.2.2.2.2)
      seen

theorem one_le_length_encode (signer : Signer) :
    1 ≤ signer.encode.length := by
  simp only [encode, List.length_append, signer.account.property]
  omega

/-- Of a signer in order, only what is legible is serialized. -/
theorem serialize_ensures {signer : Signer}
    (backed : ∀ group ∈ signer.allowedGroups, group.Backed)
    (rulesBacked : signer.rules.Backed) :
    Ensures (serialize alloc signer) signer.Legible := by
  have contracts :
      Ensures (serializeContracts alloc signer)
        (signer.hasScope .customContracts →
          signer.allowedContracts.length < sizeModulus ∧
            ∀ contract ∈ signer.allowedContracts, True) :=
    ensures_ite
      (writeCounted_ensures (fun _ _ => writeBytes_appends _)
        (fun contract => by
          rw [Slice.content, contract.property]
          decide)
        fun _ _ => Ensures.of_true trivial _)
  have groups :
      Ensures (serializeGroups alloc signer)
        (signer.hasScope .customGroups →
          signer.allowedGroups.length < sizeModulus ∧
            ∀ group ∈ signer.allowedGroups, BinaryWriter.Legible group) :=
    ensures_ite
      (writeCounted_ensures (fun group _ => writeVarBytes_appends group)
        one_le_length_bufferBytes
        fun group inside => writeVarBytes_ensures (backed group inside))
  have rules :
      Ensures (serializeRules alloc signer)
        (signer.hasScope .witnessRules →
          signer.rules.content.length < sizeModulus ∧
            ∀ entry ∈ signer.rules.content, WitnessRule.Legible entry) := by
    rw [serializeRules, ← rulesBacked.length_content]
    exact
      ensures_ite
        (writeCounted_ensures
          (fun entry _ => serializeRule_appends entry)
          WitnessRule.one_le_length_ruleBytes
          fun entry _ => WitnessRule.serializeRule_ensures entry)
  have sections :=
    (Ensures.bind_left contracts).and
      (((Ensures.bind_left groups).and
        (rules.bind_right (serializeGroups_appends signer))).bind_right
          (serializeContracts_appends signer))
  refine
    ((sections.bind_right
      (writeByte_emits signer.scopes).appends).bind_right
        (writeBytes_appends (.items signer.account.val))).imp ?_
  rintro ⟨contracts, groups, rules⟩
  exact ⟨fun inScope => (contracts inScope).1, groups, rules, rulesBacked⟩

end Signer

end NeoC
