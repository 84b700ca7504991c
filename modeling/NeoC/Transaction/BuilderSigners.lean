import NeoC.Transaction.BuilderQueries
import Mathlib.Data.List.Nodup

/-!
# The signer list of a builder

The signers of a builder have different accounts, there are at most sixteen
of them, and the first one pays.  Adding puts a copy behind the others and
`set_first_signer` moves an entry to the front.

Building takes the list away.  If the array of the transaction cannot grow
for one of the signers, those before it are gone and `NULL` stands in their
places, but the builder still counts them.  So the list stays in order as
long as a build moves all signers or none.
-/

namespace NeoC.TxBuilder

open Foundation

variable {curve : Curve}

/-! ## The list and the calls on it -/

/-- The entries are these signers, each with an account of its own. -/
structure Lists (builder : TxBuilder) (signers : List Signer) : Prop where
  entries : builder.signers = signers.map some
  distinct : (signers.map Signer.account).Nodup
  bounded : signers.length ≤ maxSigners

/-- Every entry is a signer, with an account of its own. -/
def Orderly (builder : TxBuilder) : Prop :=
  ∃ signers, Lists builder signers

/--
A signer that reads as the given one was put behind the others, or there was
an error and the list is as it was.
-/
def PutsLast (ran : Outcome Unit × TxBuilder) (before : TxBuilder)
    (given : Signer) : Prop :=
  (ran.1 = .ok () ∧
      ∃ stored : Signer,
        stored.SameAs given ∧
          ran.2.signers = before.signers ++ [some stored]) ∨
    (∃ code text,
      ran.1 = .error (.error code text) ∧ ran.2.signers = before.signers)

/--
The call succeeds if the account is in the list, and then its signer comes
first and the others follow in their order.
-/
structure PutsFirst (ran : Outcome Unit × TxBuilder) (before : TxBuilder)
    (scriptHash : Hash160) : Prop where
  succeeds :
    ran.1 = .ok () ↔
      ∃ signer, some signer ∈ before.signers ∧ signer.account = scriptHash
  moves :
    ran.1 = .ok () →
      ∃ front signer back,
        before.signers = front ++ some signer :: back ∧
          signer.account = scriptHash ∧
          ran.2.signers = some signer :: (front ++ back)
  keeps : ran.1 ≠ .ok () → ran.2.signers = before.signers

/-- The signer that is made for an account. -/
def signerOf (account : Account curve) (scopes : UInt8) : Signer where
  account := account.scriptHash
  scopes := scopes
  allowedContracts := []
  allowedGroups := []
  rules := .null 0

/-- What the step does to the list, if it is a call on the list. -/
def ActsOnSigners (host : Host) (builder : TxBuilder) (step : Step curve) :
    Prop :=
  let ran :=
    perform (step.around.host host) step.around.alloc step.around.time
      step.operation builder
  match step.operation with
  | .addSigner signer => PutsLast ran builder signer
  | .addSignerFromAccount account scopes =>
      PutsLast ran builder (signerOf account scopes)
  | .setFirstSigner account => PutsFirst ran builder account.scriptHash
  | _ => True

/-- The step does what it should, and leaves the list in order. -/
def KeepsOrder (host : Host) (builder : TxBuilder) (step : Step curve) :
    Prop :=
  ActsOnSigners host builder step ∧ Orderly (next host builder step)

/-- A signer that is added is one the library can have made. -/
def Step.WellFormed (step : Step curve) : Prop :=
  ∀ signer, step.operation = .addSigner signer → signer.WellFormed curve

/-- The step builds a transaction. -/
def Builds (builder : TxBuilder) (operation : Operation curve) : Prop :=
  match operation with
  | .buildUnsigned => True
  | .query .calculateFees => True
  | .query .getHash => builder.built = .null
  | _ => False

/-- The array of the transaction can grow for every signer. -/
def GrowsForAll (alloc : Allocator) (builder : TxBuilder) : Prop :=
  ∀ count < builder.signers.length,
    alloc.neocGrants ((count + 1) * Transaction.pointerSize) = true

/-- A build in this step moves all signers or none. -/
def BuildsWhole (builder : TxBuilder) (step : Step curve) : Prop :=
  Builds builder step.operation →
    TakesSigner step.around.alloc builder →
      GrowsForAll step.around.alloc builder

theorem orderly_fresh (nonce : UInt32) : Orderly (fresh nonce) :=
  ⟨[], rfl, List.nodup_nil, Nat.zero_le _⟩

/-! ## Calls that leave alone what is looked at -/

section Preserving

variable {View : Type} {view : TxBuilder → View}

theorem setValidUntilBlock_preserves
    (unseen :
      ∀ builder validUntilBlock,
        view { builder with validUntilBlock } = view builder)
    (blockHeight : UInt32) :
    Call.Preserves view (setValidUntilBlock blockHeight) :=
  .ite (.halt _) (.update fun builder => unseen builder _)

theorem setValidUntilBlockFromRpc_preserves
    (unseen :
      ∀ builder validUntilBlock,
        view { builder with validUntilBlock } = view builder)
    (height : Outcome UInt32) (increment : UInt32) :
    Call.Preserves view (setValidUntilBlockFromRpc height increment) :=
  .bind (.lift height) fun _ =>
    .ite (.halt _) (.update fun builder => unseen builder _)

theorem setScript_preserves
    (unseen : ∀ builder script, view { builder with script } = view builder)
    (alloc : Allocator) (script : Buffer) :
    Call.Preserves view (setScript alloc script) := by
  cases script with
  | null count => exact .halt _
  | items content =>
      refine .ite (.halt _) (.ite (.update ?_) (.bind (.update ?_) ?_))
      · exact fun builder => unseen builder _
      · exact fun builder => unseen builder _
      · exact fun _ => .halt _

variable
  (unseen :
    ∀ builder slots spareSlots blocks,
      view { builder with slots, spareSlots, blocks } = view builder)

include unseen

theorem addAttribute_preserves (alloc : Allocator) (attr : Attribute) :
    Call.Preserves view (addAttribute alloc attr) := by
  intro builder
  rw [addAttribute]
  split
  · rfl
  · split
    · split
      · exact unseen builder _ _ _
      · exact unseen builder _ _ _
    · exact unseen builder _ _ _

theorem freeData_preserves (slot : AttributeSlot) :
    Call.Preserves view (freeData slot) := by
  intro builder
  rw [freeData]
  split
  · rfl
  · split
    · exact unseen builder _ _ _
    · rfl

theorem removeHighPriority_preserves :
    Call.Preserves view removeHighPriority := by
  apply Call.Preserves.bind (.read _)
  intro slots
  split
  · exact .pure ()
  · rename_i index _
    refine .bind ?_ fun _ => .update fun builder => unseen builder _ _ _
    cases slots[index]? with
    | none => exact .pure ()
    | some slot =>
        exact .bind (freeData_preserves unseen slot) fun _ => .pure ()

theorem setHighPriority_preserves (alloc : Allocator)
    (highPriority : Bool) :
    Call.Preserves view (setHighPriority alloc highPriority) :=
  .bind (removeHighPriority_preserves unseen) fun _ =>
    .ite (addAttribute_preserves unseen _ _) (.pure ())

end Preserving

/-! ## Adding a signer -/

section Adding

variable {alloc : Allocator}

/-- A signer is put last, and only if its account is new. -/
theorem addSigner_spec {builder : TxBuilder} {signer : Signer}
    (wellFormed : signer.WellFormed curve) :
    PutsLast (addSigner curve alloc signer builder) builder signer ∧
      ((addSigner curve alloc signer builder).1 = .ok () →
        builder.signers.length < maxSigners ∧
          builder.signers.any (hasAccount signer.account) = false) := by
  rw [addSigner, Call.bind_of_ok (Call.read_run _ _)]
  split
  · exact ⟨.inr ⟨_, _, rfl, rfl⟩, nofun⟩
  · rename_i space
    split
    · exact ⟨.inr ⟨_, _, rfl, rfl⟩, nofun⟩
    · rename_i absent
      rcases Signer.copy_copies wellFormed with ⟨copied, made | failed, same⟩
      · rw [made, Call.lift_ok_bind]
        refine ⟨.inl ⟨rfl, copied, same, rfl⟩, ?_⟩
        intro _
        exact
          ⟨Nat.lt_of_not_le space, Bool.eq_false_of_not_eq_true absent⟩
      · rcases failed with ⟨code, text, failed⟩
        rw [failed, Call.lift_error_bind]
        exact ⟨.inr ⟨code, text, rfl, rfl⟩, nofun⟩

/-- The signer made for an account owns nothing. -/
theorem signerOf_wellFormed (account : Account curve) (scopes : UInt8) :
    (signerOf account scopes).WellFormed curve where
  groups := by simp [signerOf]
  rules := by simp [signerOf, Slice.content]

/-- Adding an account is adding its signer, unless that cannot be made. -/
theorem addSignerFromAccount_spec (account : Account curve)
    (scopes : UInt8) (builder : TxBuilder) :
    PutsLast (addSignerFromAccount alloc account scopes builder) builder
        (signerOf account scopes) ∧
      ((addSignerFromAccount alloc account scopes builder).1 = .ok () →
        builder.signers.length < maxSigners ∧
          builder.signers.any (hasAccount account.scriptHash) = false) := by
  rw [addSignerFromAccount, Signer.create]
  split
  · exact addSigner_spec (signerOf_wellFormed account scopes)
  · exact ⟨.inr ⟨_, _, rfl, rfl⟩, nofun⟩

/-- A list stays in order when an account is added that it does not have. -/
theorem Lists.putsLast {builder : TxBuilder} {signers : List Signer}
    {ran : Outcome Unit × TxBuilder} {signer : Signer}
    (lists : Lists builder signers)
    (puts : PutsLast ran builder signer)
    (new :
      ran.1 = .ok () →
        builder.signers.length < maxSigners ∧
          builder.signers.any (hasAccount signer.account) = false) :
    Orderly ran.2 := by
  rcases puts with ⟨succeeded, stored, same, appended⟩ | ⟨_, _, _, unchanged⟩
  · rcases new succeeded with ⟨space, absent⟩
    refine ⟨signers ++ [stored], ?_, ?_, ?_⟩
    · rw [appended, lists.entries, List.map_append]
      rfl
    · rw [List.map_append, List.map_singleton, List.nodup_append_comm]
      refine List.nodup_cons.mpr ⟨?_, lists.distinct⟩
      intro member
      rcases List.mem_map.mp member with ⟨other, inside, equal⟩
      have present :
          builder.signers.any (hasAccount signer.account) = true := by
        rw [lists.entries]
        apply List.any_eq_true.mpr
        refine ⟨some other, List.mem_map_of_mem inside, ?_⟩
        exact decide_eq_true (equal.trans same.account)
      rw [absent] at present
      cases present
    · rw [lists.entries, List.length_map] at space
      rw [List.length_append]
      exact space
  · exact
      ⟨signers, unchanged.trans lists.entries, lists.distinct,
        lists.bounded⟩

end Adding

/-! ## Choosing the first signer -/

/-- The search succeeds on a list of signers, at the first match. -/
theorem findSigner_spec (scriptHash : Hash160) (signers : List Signer) :
    (findSigner scriptHash (signers.map some) = .ok none ∧
        ∀ signer ∈ signers, signer.account ≠ scriptHash) ∨
      ∃ front signer back,
        signers = front ++ signer :: back ∧
          signer.account = scriptHash ∧
          findSigner scriptHash (signers.map some) =
            .ok (some front.length) := by
  induction signers with
  | nil => exact .inl ⟨rfl, List.forall_mem_nil _⟩
  | cons head rest induction =>
      rw [List.map_cons, findSigner]
      by_cases matched : head.account = scriptHash
      · rw [if_pos matched]
        exact .inr ⟨[], head, rest, rfl, matched, rfl⟩
      · rw [if_neg matched]
        rcases induction with
          ⟨missing, absent⟩ | ⟨front, signer, back, split, equal, found⟩
        · rw [missing]
          exact .inl ⟨rfl, List.forall_mem_cons.mpr ⟨matched, absent⟩⟩
        · rw [found]
          rw [split]
          exact .inr ⟨head :: front, signer, back, rfl, equal, rfl⟩

/-- What moving to the front does to a list that is split at the entry. -/
theorem moveToFront_split (front back : List (Option Signer))
    (entry : Option Signer) :
    moveToFront (front ++ entry :: back) front.length =
      entry :: (front ++ back) := by
  rw [moveToFront, List.getElem?_append_right le_rfl, Nat.sub_self,
    List.eraseIdx_append_of_length_le le_rfl, Nat.sub_self]
  rfl

/-- On a list in order, an account that is there comes first. -/
theorem setFirstSigner_spec {builder : TxBuilder} {signers : List Signer}
    (lists : Lists builder signers) (account : Account curve) :
    PutsFirst (setFirstSigner account builder) builder account.scriptHash ∧
      Orderly (setFirstSigner account builder).2 := by
  rw [setFirstSigner, Call.bind_of_ok (Call.read_run _ _), lists.entries]
  rcases findSigner_spec account.scriptHash signers with
    ⟨missing, absent⟩ | ⟨front, signer, back, split, equal, found⟩
  · rw [missing, Call.lift_ok_bind]
    refine ⟨⟨⟨nofun, ?_⟩, nofun, fun _ => rfl⟩, signers, lists⟩
    rintro ⟨signer, member, equal⟩
    rw [lists.entries] at member
    rcases List.mem_map.mp member with ⟨other, inside, same⟩
    cases same
    exact absurd equal (absent signer inside)
  · rw [found, Call.lift_ok_bind]
    have moved :
        moveToFront (signers.map some) front.length =
          some signer :: (front.map some ++ back.map some) := by
      have placed :=
        moveToFront_split (front.map some) (back.map some) (some signer)
      rw [List.length_map] at placed
      rw [split, List.map_append, List.map_cons]
      exact placed
    have entries :
        builder.signers = front.map some ++ some signer :: back.map some := by
      rw [lists.entries, split, List.map_append, List.map_cons]
    refine ⟨⟨⟨?_, fun _ => rfl⟩, ?_, fun failed => absurd rfl failed⟩, ?_⟩
    · intro _
      refine ⟨signer, ?_, equal⟩
      rw [entries]
      exact List.mem_append_right _ List.mem_cons_self
    · intro _
      exact ⟨front.map some, signer, back.map some, entries, equal, moved⟩
    · have reordered : (signer :: (front ++ back)).Perm signers := by
        rw [split]
        exact List.perm_middle.symm
      refine ⟨signer :: (front ++ back), ?_, ?_, ?_⟩
      · rw [List.map_cons, List.map_append]
        exact moved
      · exact (reordered.map Signer.account).nodup_iff.mpr lists.distinct
      · rw [reordered.length_eq]
        exact lists.bounded

/-! ## Building -/

section Building

variable {alloc : Allocator} {time : UInt32}

/-- Distinct signers are handed over as long as the array can grow. -/
theorem transferSigners_grows {signers : List Signer}
    {transaction : Transaction}
    (distinct :
      ((transaction.signers ++ signers).map Signer.account).Nodup)
    (grows :
      ∀ count < signers.length,
        alloc.neocGrants
          ((transaction.signers.length + count + 1) *
            Transaction.pointerSize) = true) :
    ∃ result left,
      transferSigners alloc (signers.map some) transaction =
        (.ok result, left) := by
  induction signers generalizing transaction with
  | nil => exact ⟨transaction, [], rfl⟩
  | cons signer rest induction =>
      have absent :
          (transaction.signers.any fun other =>
            other.account = signer.account) = false := by
        rw [List.any_eq_false]
        intro other member same
        rw [List.map_append, List.map_cons] at distinct
        exact
          (List.nodup_append.mp distinct).2.2 _
            (List.mem_map_of_mem member) _ List.mem_cons_self
            (of_decide_eq_true same)
      have granted := grows 0 (Nat.succ_pos _)
      have added :
          Transaction.addSigner alloc signer transaction =
            (.ok (),
              { transaction with
                signers := transaction.signers ++ [signer] }) := by
        rw [Transaction.addSigner, Call.bind_of_ok (Call.read_run _ _),
          absent, if_neg Bool.false_ne_true, if_pos granted]
        rfl
      rw [List.map_cons, transferSigners, added]
      have further :=
        @induction
          { transaction with signers := transaction.signers ++ [signer] }
          (by
            rw [List.append_assoc]
            exact distinct)
          (by
            intro count bound
            have later := grows (count + 1) (Nat.succ_lt_succ bound)
            rw [List.length_append, List.length_singleton,
              Nat.add_right_comm _ 1]
            exact later)
      rcases further with ⟨result, left, transferred⟩
      refine ⟨result, none :: left, ?_⟩
      dsimp only
      rw [transferred]

/-- If all signers were handed over, the array could grow for each. -/
theorem grows_of_transferSigners {signers left : List (Option Signer)}
    {transaction result : Transaction}
    (transferred :
      transferSigners alloc signers transaction = (.ok result, left)) :
    ∀ count < signers.length,
      alloc.neocGrants
        ((transaction.signers.length + count + 1) *
          Transaction.pointerSize) = true := by
  induction signers generalizing transaction left with
  | nil => exact fun count bound => absurd bound (Nat.not_lt_zero count)
  | cons entry rest induction =>
      rcases transferSigners_cons_eq_ok transferred with
        ⟨signer, value, rfl, added, left', outcome⟩
      intro count bound
      cases count with
      | zero => exact Transaction.addSigner_granted added
      | succ count =>
          have later :=
            induction outcome count (Nat.lt_of_succ_lt_succ bound)
          rw [List.length_append, List.length_singleton,
            Nat.add_right_comm _ 1] at later
          exact later

/-- A build that gets to the signers leaves what the loop leaves. -/
theorem buildUnsigned_signers {builder : TxBuilder}
    (takes : TakesSigner alloc builder) :
    ∃ transaction : Transaction,
      transaction.signers = [] ∧
        (buildUnsigned alloc time builder).2.signers =
          match transferSigners alloc builder.signers transaction with
          | (.error _, left) => left
          | (.ok _, _) => [] := by
  rcases takes.signer with ⟨signer, rest, entries⟩
  rcases created : Transaction.create alloc time with reason | made
  · rw [Transaction.create, if_pos takes.transaction] at created
    cases created
  · refine
      ⟨(setProperties alloc builder made).2,
        setProperties_signers takes.script created, ?_⟩
    rw [buildUnsigned, if_neg takes.script, if_neg takes.validUntilBlock,
      if_neg (by rw [entries]; exact Nat.succ_ne_zero _), created]
    dsimp only
    rcases
      transferSigners alloc builder.signers
        (setProperties alloc builder made).2 with
      ⟨reason | transaction, left⟩
    · rfl
    · rfl

/-- With a grant for the array, the first entry is `NULL` afterwards. -/
theorem transferSigners_first
    (granted : alloc.neocGrants Transaction.pointerSize = true)
    {transaction : Transaction} (blank : transaction.signers = [])
    (signer : Signer) (rest : List (Option Signer)) :
    ∃ left,
      (transferSigners alloc (some signer :: rest) transaction).2 =
        none :: left := by
  rw [transferSigners, Transaction.addSigner_first blank, if_pos granted]
  exact ⟨_, rfl⟩

/-- A build that gets to the signers and moves all of them. -/
theorem buildUnsigned_whole {builder : TxBuilder} {signers : List Signer}
    (lists : Lists builder signers) (takes : TakesSigner alloc builder)
    (grows : GrowsForAll alloc builder) :
    (buildUnsigned alloc time builder).2.signers = [] := by
  rcases @buildUnsigned_signers alloc time builder takes with
    ⟨transaction, blank, left⟩
  have transferred :
      ∃ result left,
        transferSigners alloc (signers.map some) transaction =
          (.ok result, left) := by
    apply transferSigners_grows
    · rw [blank]
      exact lists.distinct
    · intro count bound
      rw [blank, List.length_nil, Nat.zero_add]
      apply grows
      rw [lists.entries, List.length_map]
      exact bound
  rcases transferred with ⟨result, rest, transferred⟩
  rw [left, lists.entries, transferred]

/-- A build that gets to the signers and leaves a list in order. -/
theorem grows_of_orderly {builder : TxBuilder}
    (takes : TakesSigner alloc builder)
    (orderly : Orderly (buildUnsigned alloc time builder).2) :
    GrowsForAll alloc builder := by
  rcases @buildUnsigned_signers alloc time builder takes with
    ⟨transaction, blank, left⟩
  rcases transferred :
      transferSigners alloc builder.signers transaction with
    ⟨reason | result, rest⟩
  · rcases takes.signer with ⟨signer, others, entries⟩
    rcases transferSigners_first takes.pointer blank signer others with
      ⟨torn, first⟩
    rcases orderly with ⟨remaining, lists⟩
    rw [← entries, transferred] at first
    rw [transferred] at left
    have missing : remaining.map some = none :: torn :=
      lists.entries.symm.trans (left.trans first)
    cases remaining with
    | nil => cases missing
    | cons head tail => cases missing
  · intro count bound
    have granted := grows_of_transferSigners transferred count bound
    rw [blank, List.length_nil, Nat.zero_add] at granted
    exact granted

/-- A build leaves the list in order exactly if it moves all or none. -/
theorem buildUnsigned_orderly_iff {builder : TxBuilder}
    {signers : List Signer} (lists : Lists builder signers) :
    Orderly (buildUnsigned alloc time builder).2 ↔
      (TakesSigner alloc builder → GrowsForAll alloc builder) := by
  constructor
  · intro orderly takes
    exact grows_of_orderly takes orderly
  · intro whole
    by_cases takes : TakesSigner alloc builder
    · exact
        ⟨[], buildUnsigned_whole lists takes (whole takes), List.nodup_nil,
          Nat.zero_le _⟩
    · rcases @buildUnsigned_of_not_takes alloc time builder takes with
        ⟨reason, failed⟩
      rw [failed]
      exact ⟨signers, lists⟩

end Building

/-! ## One step -/

section Steps

variable {host : Host}

/-- The list after a step that builds. -/
theorem next_signers_of_builds {builder : TxBuilder} {step : Step curve}
    (builds : Builds builder step.operation) :
    (next host builder step).signers =
      (buildUnsigned step.around.alloc step.around.time
        builder).2.signers := by
  rcases step with ⟨around, operation⟩
  cases operation with
  | buildUnsigned =>
      exact congrArg signers (Call.discard_state _ builder)
  | query query =>
      cases query with
      | calculateFees =>
          exact
            (congrArg signers (Call.discard_state _ builder)).trans
              (calculateFees_signers _ _ builder)
      | getHash =>
          exact
            (congrArg signers (Call.discard_state _ builder)).trans
              (getHash_signers builds)
  | _ => cases builds

/-- The list after a step that neither builds nor works on it. -/
theorem next_signers_of_other {builder : TxBuilder} {step : Step curve}
    (idle : ¬Builds builder step.operation)
    (notAdding : ∀ signer, step.operation ≠ .addSigner signer)
    (notAddingAccount :
      ∀ account scopes,
        step.operation ≠ .addSignerFromAccount account scopes)
    (notChoosing : ∀ account, step.operation ≠ .setFirstSigner account) :
    (next host builder step).signers = builder.signers := by
  rcases step with ⟨around, operation⟩
  cases operation with
  | setVersion version => rfl
  | setNonce nonce => rfl
  | setValidUntilBlock blockHeight =>
      exact setValidUntilBlock_preserves (fun _ _ => rfl) _ builder
  | setValidUntilBlockFromRpc height increment =>
      exact
        setValidUntilBlockFromRpc_preserves (fun _ _ => rfl) _ _ builder
  | setScript script =>
      exact setScript_preserves (fun _ _ => rfl) _ script builder
  | addSigner signer => exact absurd rfl (notAdding signer)
  | addSignerFromAccount account scopes =>
      exact absurd rfl (notAddingAccount account scopes)
  | setFirstSigner account => exact absurd rfl (notChoosing account)
  | addAttribute attr =>
      exact addAttribute_preserves (fun _ _ _ _ => rfl) _ attr builder
  | setHighPriority highPriority =>
      exact
        setHighPriority_preserves (fun _ _ _ _ => rfl) _ highPriority builder
  | addNetworkFee fee => rfl
  | addSystemFee fee => rfl
  | buildUnsigned => exact absurd trivial idle
  | query query =>
      cases query with
      | calculateFees => exact absurd trivial idle
      | getHash =>
          have hashed :
              (next host builder
                (⟨around, .query .getHash⟩ : Step curve)).signers =
                (getHash (around.host host) around.alloc around.time
                  builder).2.signers :=
            congrArg signers (Call.discard_state _ builder)
          rw [hashed, getHash_of_not_null idle,
            (hashBuilt_alike around.alloc builder).same]

/-- Order is a matter of the list alone. -/
theorem orderly_congr {left right : TxBuilder}
    (same : left.signers = right.signers) :
    Orderly left ↔ Orderly right := by
  constructor
  · rintro ⟨signers, entries, distinct, bounded⟩
    exact ⟨signers, same ▸ entries, distinct, bounded⟩
  · rintro ⟨signers, entries, distinct, bounded⟩
    exact ⟨signers, same ▸ entries, distinct, bounded⟩

/-- A step that builds keeps the list in order if it moves all or none. -/
theorem keepsOrder_of_builds {builder : TxBuilder} {step : Step curve}
    (orderly : Orderly builder) (builds : Builds builder step.operation) :
    KeepsOrder host builder step ↔ BuildsWhole builder step := by
  rcases orderly with ⟨signers, lists⟩
  have idle : ActsOnSigners host builder step := by
    rcases step with ⟨around, operation⟩
    cases operation with
    | buildUnsigned => trivial
    | query query => trivial
    | _ => cases builds
  rw [KeepsOrder, orderly_congr (next_signers_of_builds builds),
    buildUnsigned_orderly_iff lists]
  exact ⟨fun kept _ => kept.2, fun whole => ⟨idle, whole builds⟩⟩

/-- A step that does not build keeps the list in order. -/
theorem keepsOrder_of_not_builds {builder : TxBuilder} {step : Step curve}
    (orderly : Orderly builder) (wellFormed : step.WellFormed)
    (idle : ¬Builds builder step.operation) :
    KeepsOrder host builder step := by
  rcases orderly with ⟨signers, lists⟩
  rcases step with ⟨around, operation⟩
  cases operation with
  | addSigner signer =>
      have added :=
        @addSigner_spec _ around.alloc builder _ (wellFormed signer rfl)
      exact ⟨added.1, lists.putsLast added.1 added.2⟩
  | addSignerFromAccount account scopes =>
      have added :=
        @addSignerFromAccount_spec _ around.alloc account scopes builder
      exact ⟨added.1, lists.putsLast added.1 added.2⟩
  | setFirstSigner account => exact setFirstSigner_spec lists account
  | _ =>
      refine ⟨trivial, ?_⟩
      rw [orderly_congr (next_signers_of_other idle nofun nofun nofun)]
      exact ⟨signers, lists⟩

/-- Whether a step keeps the list in order is a matter of its build. -/
theorem keepsOrder_iff {builder : TxBuilder} {step : Step curve}
    (orderly : Orderly builder) (wellFormed : step.WellFormed) :
    KeepsOrder host builder step ↔ BuildsWhole builder step := by
  by_cases builds : Builds builder step.operation
  · exact keepsOrder_of_builds orderly builds
  · exact
      iff_of_true (keepsOrder_of_not_builds orderly wellFormed builds)
        fun present => absurd present builds

end Steps

/-! ## Whole histories -/

/--
In every history the signer list stays in order, and the calls on it do what
they should, exactly when each build moves all signers or none.
-/
theorem signers_keepOrder_iff
    (host : Host)
    (nonce : UInt32)
    (history : List (Step curve))
    (wellFormed : ∀ step ∈ history, step.WellFormed) :
    Along (next host) (KeepsOrder host) (fresh nonce) history ↔
      Along (next host) BuildsWhole (fresh nonce) history := by
  have exactly :=
    @along_iff_of_invariant _ _ (next host) Orderly
      (fun builder step => step.WellFormed ∧ BuildsWhole builder step)
      (fun builder step => step.WellFormed ∧ KeepsOrder host builder step)
      (fun builder step orderly guarded =>
        ((keepsOrder_iff orderly guarded.1).mpr guarded.2).2)
      (fun builder step orderly =>
        and_congr_right fun formed => keepsOrder_iff orderly formed)
      _ (orderly_fresh nonce) history
  rw [along_and, along_and, along_const] at exactly
  exact (and_congr_right_iff.mp exactly) wellFormed

/-! ## Two signers -/

/-- The account whose script hash repeats one byte. -/
def plainAccount (byte : UInt8) :
    Account (Curve.basePoint fun _ => none) where
  scriptHash := ⟨List.replicate 20 byte, List.length_replicate⟩
  keyPair := none

/-- A script and two signers. -/
def twoSigners : List (Step (Curve.basePoint fun _ => none)) :=
  [⟨calm, .setScript (.items [0x40])⟩,
    ⟨calm, .addSigner (signerOf (plainAccount 1) 1)⟩,
    ⟨calm, .addSignerFromAccount (plainAccount 2) 1⟩]

/-- The second signer is chosen to pay, and the transaction is built. -/
theorem signers_keepOrder_twoSigners :
    Along (next (Host.ofTables [] [])) (KeepsOrder (Host.ofTables [] []))
      (fresh 0)
      (twoSigners ++
        [⟨calm, .setFirstSigner (plainAccount 2)⟩,
          ⟨calm, .buildUnsigned⟩]) := by
  apply (signers_keepOrder_iff (Host.ofTables [] []) 0 _ ?_).mpr
  · refine ⟨nofun, nofun, nofun, nofun, ?_, trivial⟩
    intro _ _
    have all :
        ∀ count < 2,
          Allocator.ample.neocGrants
            ((count + 1) * Transaction.pointerSize) = true := by
      decide
    exact all
  · intro step member signer added
    simp only [twoSigners, List.cons_append, List.nil_append, List.mem_cons,
      List.not_mem_nil, or_false] at member
    rcases member with rfl | rfl | rfl | rfl | rfl
    · cases added
    · cases added
      exact signerOf_wellFormed (plainAccount 1) 1
    · cases added
    · cases added
    · cases added

/-- Memory for one pointer, but not for two. -/
def tight : Surroundings where
  alloc :=
    { grants := fun size => decide (size ≠ 16 ∧ size ≤ ptrdiffMax)
      grants_le := fun _ granted => (of_decide_eq_true granted).2 }
  time := 0
  cryptoInitialized := true

/-- A build that cannot grow the array for the second signer. -/
def tornBuilder : TxBuilder :=
  finalState (next (Host.ofTables [] [])) (fresh 0)
    (twoSigners ++ [⟨tight, .buildUnsigned⟩])

/-- Afterwards a signer that is in the list cannot be put first. -/
theorem setFirstSigner_fails_after_torn_build :
    (∃ signer,
        some signer ∈ tornBuilder.signers ∧
          signer.account = (plainAccount 2).scriptHash) ∧
      (setFirstSigner (plainAccount 2) tornBuilder).1 =
        .error .illegalAccess ∧
      ¬Along (next (Host.ofTables [] [])) (KeepsOrder (Host.ofTables [] []))
        (fresh 0)
        (twoSigners ++
          [⟨tight, .buildUnsigned⟩,
            ⟨calm, .setFirstSigner (plainAccount 2)⟩]) := by
  have torn :
      tornBuilder.signers = [none, some (signerOf (plainAccount 2) 1)] :=
    rfl
  refine ⟨⟨signerOf (plainAccount 2) 1, ?_, rfl⟩, rfl, ?_⟩
  · rw [torn]
    exact List.mem_cons_of_mem _ List.mem_cons_self
  · rintro ⟨-, -, -, -, chosen, -⟩
    have succeeded :
        (setFirstSigner (plainAccount 2) tornBuilder).1 = .ok () := by
      apply chosen.1.succeeds.mpr
      refine ⟨signerOf (plainAccount 2) 1, ?_, rfl⟩
      change _ ∈ tornBuilder.signers
      rw [torn]
      exact List.mem_cons_of_mem _ List.mem_cons_self
    cases succeeded

end NeoC.TxBuilder
