import NeoC.Transaction.History

/-!
# The size of a transaction

`neoc_transaction_get_size` walks over the transaction a second time and adds
up what `neoc_transaction_serialize` writes.  The two agree on everything but
the signers, provided that every stored length is backed by a pointer.  A
script loses its pointer and keeps its length when `neoc_transaction_set_script`
cannot allocate the copy.
-/

namespace NeoC.Transaction

open Foundation BinaryWriter

/-- Every length stored in the transaction is backed by a pointer. -/
structure Backed (transaction : Transaction) : Prop where
  script : transaction.script.Backed
  signers : ∀ signer ∈ transaction.signers, signer.Backed
  attributes : ∀ attr ∈ transaction.attributes, attr.data.Backed
  witnesses : ∀ witness ∈ transaction.witnesses, witness.Backed

/-! ## The two traversals, part by part -/

/-- A backed buffer takes what the size functions add up for it. -/
theorem length_bufferBytes_of_le {data : Buffer} (backed : data.Backed)
    (bounded : (bufferBytes data).length ≤ ptrdiffMax) :
    (bufferBytes data).length = varIntSize data.len + data.len := by
  rw [Signer.length_bufferBytes backed] at bounded ⊢
  rw [length_countBytes (lt_sizeModulus (by omega))]

/-- The bytes of a member of a list are among the bytes of the list. -/
theorem length_le_flatMap {α : Type} {bytesOf : α → List UInt8}
    {items : List α} {item : α} (member : item ∈ items) :
    (bytesOf item).length ≤ (items.flatMap bytesOf).length := by
  rw [List.length_flatMap]
  exact
    List.le_sum_of_mem
      (List.mem_map_of_mem (f := fun item => (bytesOf item).length) member)

/-- A list of nonempty byte strings is not longer than their bytes. -/
theorem count_le_flatMap {α : Type} {bytesOf : α → List UInt8}
    {items : List α} (nonempty : ∀ item, 1 ≤ (bytesOf item).length) :
    items.length ≤ (items.flatMap bytesOf).length := by
  rw [List.length_flatMap]
  have counted :=
    List.length_le_sum_of_one_le
      (items.map fun item => (bytesOf item).length)
      (by
        intro length member
        rcases List.mem_map.mp member with ⟨item, -, rfl⟩
        exact nonempty item)
  simpa using counted

section Parts

variable {transaction : Transaction}

theorem signers_size
    (backed : ∀ signer ∈ transaction.signers, signer.Backed)
    (bounded :
      (transaction.signers.flatMap Signer.encode).length ≤ ptrdiffMax) :
    (transaction.signers.map Signer.getSize).sum ≤
        (transaction.signers.flatMap Signer.encode).length ∧
      ((transaction.signers.map Signer.getSize).sum =
          (transaction.signers.flatMap Signer.encode).length ↔
        ∀ signer ∈ transaction.signers, signer.Measured) := by
  have each (signer : Signer) (member : signer ∈ transaction.signers) :=
    Signer.getSize_le_and_eq_iff (backed signer member)
      ((length_le_flatMap member).trans bounded)
  rcases Signer.sum_map_le_and_eq_iff fun signer member =>
      (each signer member).1
    with ⟨below, equal⟩
  rw [List.length_flatMap]
  refine ⟨below, equal.trans ?_⟩
  exact forall₂_congr fun signer member => (each signer member).2

theorem attributes_size
    (backed : ∀ attr ∈ transaction.attributes, attr.data.Backed)
    (bounded :
      (transaction.attributes.flatMap attributeBytes).length ≤
        ptrdiffMax) :
    (transaction.attributes.map fun attr =>
        1 + (varIntSize attr.data.len + attr.data.len)).sum =
      (transaction.attributes.flatMap attributeBytes).length := by
  rw [List.length_flatMap]
  congr 1
  apply List.map_congr_left
  intro attr member
  have inMemory := (length_le_flatMap member).trans bounded
  rw [attributeBytes, List.length_append, List.length_singleton] at inMemory
  rw [attributeBytes, List.length_append, List.length_singleton,
    length_bufferBytes_of_le (backed attr member) (by omega)]

theorem witnesses_size
    (backed : ∀ witness ∈ transaction.witnesses, witness.Backed)
    (bounded :
      (transaction.witnesses.flatMap Witness.encode).length ≤
        ptrdiffMax) :
    (transaction.witnesses.map Witness.getSize).sum =
      (transaction.witnesses.flatMap Witness.encode).length := by
  rw [List.length_flatMap]
  congr 1
  apply List.map_congr_left
  intro witness member
  have inMemory := (length_le_flatMap member).trans bounded
  rw [Witness.encode, List.length_append] at inMemory
  rcases backed witness member with ⟨invocation, verification⟩
  have length :
      witness.encode.length =
        varIntSize witness.invocationScript.len +
            witness.invocationScript.len +
          (varIntSize witness.verificationScript.len +
            witness.verificationScript.len) := by
    rw [Witness.encode, List.length_append,
      length_bufferBytes_of_le invocation (by omega),
      length_bufferBytes_of_le verification (by omega)]
  rw [Witness.getSize, ← length]
  apply Nat.mod_eq_of_lt
  apply lt_sizeModulus
  rw [Witness.encode, List.length_append]
  exact inMemory

/--
The size of a transaction in memory is the length of its serialization
exactly if all its signers are measured right.
-/
theorem getSize_eq_iff (backed : transaction.Backed)
    (bounded :
      (transaction.unsignedBytes ++ transaction.witnessBytes).length ≤
        ptrdiffMax) :
    transaction.getSize =
        (transaction.unsignedBytes ++ transaction.witnessBytes).length ↔
      ∀ signer ∈ transaction.signers, signer.Measured := by
  have parts :
      (transaction.unsignedBytes ++ transaction.witnessBytes).length =
        1 + 4 + 8 + 8 + 4 +
          ((countBytes transaction.signers.length).length +
            (transaction.signers.flatMap Signer.encode).length) +
          ((countBytes transaction.attributes.length).length +
            (transaction.attributes.flatMap attributeBytes).length) +
          (bufferBytes transaction.script).length +
          ((countBytes transaction.witnesses.length).length +
            (transaction.witnesses.flatMap Witness.encode).length) := by
    simp only [unsignedBytes, witnessBytes, List.length_append,
      List.length_singleton, LittleEndian.length_toBytes]
    omega
  rw [parts] at bounded ⊢
  rcases signers_size backed.signers (by omega) with
    ⟨signersLe, signersEq⟩
  have attributesEq := attributes_size backed.attributes (by omega)
  have witnessesEq := witnesses_size backed.witnesses (by omega)
  have scriptEq := length_bufferBytes_of_le backed.script (by omega)
  have signerCount :
      transaction.signers.length ≤
        (transaction.signers.flatMap Signer.encode).length :=
    count_le_flatMap fun signer => by
      simp only [Signer.encode, List.length_append, signer.account.property]
      omega
  have attributeCount :
      transaction.attributes.length ≤
        (transaction.attributes.flatMap attributeBytes).length :=
    count_le_flatMap fun attr => by
      simp only [attributeBytes, List.length_append, List.length_singleton]
      omega
  have witnessCount :
      transaction.witnesses.length ≤
        (transaction.witnesses.flatMap Witness.encode).length :=
    count_le_flatMap fun witness => by
      simp only [Witness.encode, bufferBytes, countBytes, List.length_append]
      have := VarInt.one_le_length_encode
        (witness.invocationScript.len % sizeModulus)
      omega
  rw [length_countBytes (lt_sizeModulus (by omega)),
    length_countBytes (lt_sizeModulus (by omega)),
    length_countBytes (lt_sizeModulus (by omega)), scriptEq] at bounded ⊢
  rw [← signersEq, getSize, attributesEq, witnessesEq,
    Nat.mod_eq_of_lt (lt_sizeModulus (by omega))]
  omega

end Parts

/-! ## Along a history -/

/-- The size is the number of bytes that serializing reports. -/
def SizeAgrees (transaction : Transaction) : Prop :=
  ∀ (alloc : Allocator) (bufferSize : Nat) (bytes : List UInt8),
    serialize alloc transaction bufferSize = .ok bytes →
      transaction.getSize = bytes.length

variable {curve : Curve}

/-- A call that is turned away and leaves the transaction as it was. -/
def TurnsAway (transaction : Transaction) (step : Step curve) : Prop :=
  match step.operation with
  | .setScript script => script.content = []
  | .addSigner signer =>
      (transaction.signers.any fun other =>
          other.account = signer.account) = true ∨
        step.alloc.neocGrants
            ((transaction.signers.length + 1) * pointerSize) = false
  | .addAttribute _ =>
      step.alloc.neocGrants
          ((transaction.attributes.length + 1) * pointerSize) = false
  | .addWitness _ =>
      step.alloc.neocGrants
          ((transaction.witnesses.length + 1) * pointerSize) = false
  | _ => False

theorem next_of_turnsAway {host : Host} {transaction : Transaction}
    {step : Step curve} (turned : TurnsAway transaction step) :
    next host transaction step = transaction := by
  rcases step with ⟨alloc, initialized, operation⟩
  cases operation with
  | setScript script =>
      cases script with
      | null count => rfl
      | items content =>
          have empty : content = [] := turned
          rw [empty]
          rfl
  | addSigner signer =>
      change (addSigner alloc signer transaction).2 = transaction
      rw [addSigner, Call.bind_of_ok (Call.read_run _ _)]
      split
      · rfl
      · rename_i unlike
        have refused := turned.resolve_left unlike
        rw [if_neg (by rw [refused]; decide)]
        rfl
  | addAttribute attr =>
      have refused :
          alloc.neocGrants
              ((transaction.attributes.length + 1) * pointerSize) = false :=
        turned
      change (addAttribute alloc attr transaction).2 = transaction
      rw [addAttribute, Call.bind_of_ok (Call.read_run _ _),
        if_neg (by rw [refused]; decide)]
      rfl
  | addWitness witness =>
      have refused :
          alloc.neocGrants
              ((transaction.witnesses.length + 1) * pointerSize) = false :=
        turned
      change (addWitness alloc witness transaction).2 = transaction
      rw [addWitness, Call.bind_of_ok (Call.read_run _ _),
        if_neg (by rw [refused]; decide)]
      rfl
  | _ => exact turned.elim

/--
A call that leaves no length without a pointer: a script is replaced only if
its copy is granted or there was none, and what is added is backed itself.
-/
def SuppliesBytes (transaction : Transaction) (step : Step curve) : Prop :=
  match step.operation with
  | .setScript script =>
      step.alloc.neocGrants script.len = true ∨ transaction.script.len = 0
  | .addSigner signer => signer.Backed
  | .addAttribute attr => attr.data.Backed
  | .addWitness witness => witness.Backed
  | _ => True

/-- A step that is turned away or leaves no length without a pointer. -/
def KeepsBacking (transaction : Transaction) (step : Step curve) : Prop :=
  TurnsAway transaction step ∨ SuppliesBytes transaction step

/-- A signer is added only if it is measured right. -/
def AddsMeasured (step : Step curve) : Prop :=
  match step.operation with
  | .addSigner signer => signer.Measured
  | _ => True

/-- A step that, unless it is turned away, is also measured right. -/
def KeepsSize (transaction : Transaction) (step : Step curve) : Prop :=
  TurnsAway transaction step ∨
    SuppliesBytes transaction step ∧ AddsMeasured step

theorem forall_mem_append_singleton {α : Type} {property : α → Prop}
    {items : List α} {item : α}
    (held : ∀ other ∈ items, property other) (holds : property item) :
    ∀ other ∈ items ++ [item], property other := by
  intro other member
  rcases List.mem_append.mp member with old | new
  · exact held other old
  · rw [List.mem_singleton.mp new]
    exact holds

theorem Change.backed {host : Host} {transaction changed : Transaction}
    {step : Step curve} (change : Change host transaction step changed)
    (backed : transaction.Backed)
    (supplies : SuppliesBytes transaction step) :
    changed.Backed := by
  rcases backed with ⟨script, signers, attributes, witnesses⟩
  cases change with
  | same idle => exact ⟨script, signers, attributes, witnesses⟩
  | header idle => exact ⟨script, signers, attributes, witnesses⟩
  | scriptSet isSet => exact ⟨trivial, signers, attributes, witnesses⟩
  | scriptLost isSet refused =>
      rw [SuppliesBytes, isSet] at supplies
      -- The old length survives without its bytes unless it was zero.
      rcases supplies with granted | empty
      · rw [granted] at refused
        cases refused
      · exact ⟨empty, signers, attributes, witnesses⟩
  | signerAdded isAdd =>
      rw [SuppliesBytes, isAdd] at supplies
      exact
        ⟨script, forall_mem_append_singleton signers supplies, attributes,
          witnesses⟩
  | attributeAdded isAdd =>
      rw [SuppliesBytes, isAdd] at supplies
      exact
        ⟨script, signers, forall_mem_append_singleton attributes supplies,
          witnesses⟩
  | witnessAdded isAdd =>
      rw [SuppliesBytes, isAdd] at supplies
      exact
        ⟨script, signers, attributes,
          forall_mem_append_singleton witnesses supplies⟩
  | hashed stores added =>
      exact
        ⟨script, signers, attributes,
          List.forall_mem_append.mpr ⟨witnesses, added⟩⟩

theorem next_backed {host : Host} (transaction : Transaction)
    (step : Step curve) (backed : transaction.Backed)
    (keeps : KeepsBacking transaction step) :
    (next host transaction step).Backed := by
  rcases keeps with turned | supplies
  · rw [next_of_turnsAway turned]
    exact backed
  · exact (next_change transaction step).backed backed supplies

/-- What a history must keep for the size to be right. -/
def Sound (transaction : Transaction) : Prop :=
  transaction.Backed ∧ ∀ signer ∈ transaction.signers, signer.Measured

theorem next_sound {host : Host} (transaction : Transaction)
    (step : Step curve) (sound : transaction.Sound)
    (keeps : KeepsSize transaction step) :
    (next host transaction step).Sound := by
  rcases keeps with turned | ⟨supplies, adds⟩
  · rw [next_of_turnsAway turned]
    exact sound
  rcases sound with ⟨backed, measured⟩
  refine ⟨(next_change transaction step).backed backed supplies, ?_⟩
  rcases (@next_change curve host transaction step).signers_cases with
    same | ⟨signer, isAdd, added⟩
  · rw [same]
    exact measured
  · rw [added]
    rw [AddsMeasured, isAdd] at adds
    exact forall_mem_append_singleton measured adds

theorem create_backed {alloc : Allocator} {time : UInt32}
    {transaction : Transaction}
    (created : create alloc time = .ok transaction) :
    transaction.Backed ∧ transaction.signers = [] := by
  unfold create at created
  split at created
  · cases created
    exact
      ⟨⟨rfl, List.forall_mem_nil _, List.forall_mem_nil _,
        List.forall_mem_nil _⟩, rfl⟩
  · cases created

/-- A serialization is as long as the bytes of the transaction. -/
theorem serialize_eq_ok {alloc : Allocator} {transaction : Transaction}
    {bufferSize : Nat} {bytes : List UInt8}
    (serialized : serialize alloc transaction bufferSize = .ok bytes) :
    bytes = transaction.unsignedBytes ++ transaction.witnessBytes ∧
      bytes.length ≤ ptrdiffMax := by
  rcases Except.bind_eq_ok_iff.mp serialized with ⟨data, built, copied⟩
  split at copied
  · cases copied
  · injection copied with same
    rw [← same]
    exact ⟨buildSerialized_signed built, produce_length_le built⟩

theorem getSize_serialize_iff {alloc : Allocator} {transaction : Transaction}
    {bufferSize : Nat} {bytes : List UInt8} (backed : transaction.Backed)
    (serialized : serialize alloc transaction bufferSize = .ok bytes) :
    transaction.getSize = bytes.length ↔
      ∀ signer ∈ transaction.signers, signer.Measured := by
  rcases serialize_eq_ok serialized with ⟨whole, bounded⟩
  rw [whole] at bounded ⊢
  exact getSize_eq_iff backed bounded

/--
In every history whose steps, unless they are turned away, leave no length
without a pointer and add only signers that are measured right, the size of
the transaction is the number of bytes that serializing reports.  As long as
no length is without a pointer, a single signer that is measured wrong makes
the two differ.
-/
theorem getSize_agrees_along_history
    {host : Host}
    {alloc : Allocator}
    {time : UInt32}
    {transaction : Transaction}
    (created : create alloc time = .ok transaction)
    (steps : List (Step curve)) :
    (Along (next host) KeepsSize transaction steps →
        SizeAgrees (finalState (next host) transaction steps)) ∧
      (Along (next host) KeepsBacking transaction steps →
        ∀ (alloc : Allocator) (bufferSize : Nat) (bytes : List UInt8),
          serialize alloc (finalState (next host) transaction steps)
              bufferSize = .ok bytes →
            ((finalState (next host) transaction steps).getSize =
                bytes.length ↔
              ∀ signer ∈ (finalState (next host) transaction steps).signers,
                signer.Measured)) := by
  rcases create_backed created with ⟨backed, noSigners⟩
  constructor
  · intro keeps alloc bufferSize bytes serialized
    have sound : transaction.Sound :=
      ⟨backed, by rw [noSigners]; exact List.forall_mem_nil _⟩
    rcases finalState_invariant Sound next_sound sound keeps with
      ⟨backed', measured⟩
    exact (getSize_serialize_iff backed' serialized).mpr measured
  · intro keeps alloc bufferSize bytes serialized
    have backed' := finalState_invariant Backed next_backed backed keeps
    exact getSize_serialize_iff backed' serialized

/-- A signer whose witness counts only in the entry script. -/
def entrySigner : Signer where
  account := Bytes.zero 20
  scopes := WitnessScope.calledByEntry.toByte
  allowedContracts := []
  allowedGroups := []
  rules := .null 0

/-- Adding a signer without custom scopes keeps the size right. -/
theorem getSize_agrees_along_history_entrySigner :
    SizeAgrees
      (finalState (next (Host.ofTables [] [])) emptyTransaction
        [(⟨.ample, true, .addSigner entrySigner⟩ :
          Step (Curve.basePoint fun _ => none))]) := by
  apply
    (getSize_agrees_along_history
      (show create .ample 0 = .ok emptyTransaction from rfl) _).1
  have backed : entrySigner.Backed :=
    ⟨List.forall_mem_nil _, by decide⟩
  have measured : entrySigner.Measured := by
    constructor
    · intro inScope
      exact absurd inScope (by decide)
    · intro inScope
      exact absurd inScope (by decide)
    · intro inScope
      exact absurd inScope (by decide)
  exact ⟨.inr ⟨backed, measured⟩, trivial⟩

/-- A signer with one witness rule. -/
def ruledSigner : Signer where
  account := Bytes.zero 20
  scopes := WitnessScope.witnessRules.toByte
  allowedContracts := []
  allowedGroups := []
  rules :=
    .items [some { action := .allow, condition := some (.boolean true) }]

/-- The three bytes of a witness rule are missing from the size. -/
theorem getSize_misses_rules :
    ¬∀ (host : Host) (alloc : Allocator) (time : UInt32)
        (transaction : Transaction)
        (steps : List (Step (Curve.basePoint fun _ => none))),
      create alloc time = .ok transaction →
        SizeAgrees (finalState (next host) transaction steps) := by
  intro always
  have agrees :
      SizeAgrees { emptyTransaction with signers := [ruledSigner] } :=
    always (Host.ofTables [] []) .ample 0 emptyTransaction
      [⟨.ample, true, .addSigner ruledSigner⟩] rfl
  have written :
      (serialize .ample
        { emptyTransaction with signers := [ruledSigner] }
        64).toOption.map List.length = some 54 := by
    decide +kernel
  have size :
      getSize { emptyTransaction with signers := [ruledSigner] } = 51 := by
    decide
  rcases serialized :
      serialize .ample
        { emptyTransaction with signers := [ruledSigner] } 64 with
    reason | bytes
  · rw [serialized] at written
    cases written
  · rw [serialized] at written
    have length : bytes.length = 54 := Option.some.inj written
    have equal := agrees .ample 64 bytes serialized
    rw [size, length] at equal
    omega

end NeoC.Transaction
