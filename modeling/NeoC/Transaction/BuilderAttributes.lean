import NeoC.Transaction.TransactionBuilder
import NeoC.Foundation.Run
import Mathlib.Data.List.Nodup

/-!
# The attribute list of a builder

`add_attribute` and `set_high_priority` are compared with a plain list.  The
array of the builder differs from it in two ways.  The removal loop stops at
the first high priority attribute.  And an attribute without data is written
into a slot whose data and length are left as they are, while a removal
leaves the last entry behind in the slot that is written next.

So the list is the predicted one as long as no two high priority attributes
meet and every attribute without data gets a slot without data.  What keeps
the other attributes intact is ownership: no two entries point to the same
block, and no entry points to a block that was freed.
-/

namespace NeoC

open Foundation

namespace AttributeSlot

/-- The slot is a high priority attribute. -/
def isHighPriority (slot : AttributeSlot) : Bool :=
  slot.type = .highPriority

/-- Nothing is left in the slot. -/
def Vacant (slot : AttributeSlot) : Prop :=
  slot.data = none ∧ slot.dataLen = 0

end AttributeSlot

namespace TxBuilder

/-! ## Calls and the plain list -/

/-- The calls that work on the attributes. -/
inductive AttributeCall where
  | addAttribute (attr : Attribute)
  | setHighPriority (highPriority : Bool)

/-- A call together with the allocator it finds. -/
structure AttributeStep where
  alloc : Allocator
  call : AttributeCall

/-- Make one call. -/
def AttributeStep.run (step : AttributeStep) : Routine TxBuilder Unit :=
  match step.call with
  | .addAttribute attr => addAttribute step.alloc attr
  | .setHighPriority highPriority => setHighPriority step.alloc highPriority

/-- The builder after a step. -/
def nextAttribute (builder : TxBuilder) (step : AttributeStep) : TxBuilder :=
  (step.run builder).2

/-- An attribute in the list: its type and its data, unless that is gone. -/
abbrev ListedAttribute := AttributeType × Option Buffer

/-- The attribute is a high priority attribute. -/
def isHighPriority (attr : ListedAttribute) : Bool :=
  attr.1 = .highPriority

/-- An attribute as the list has it; a pointer to no bytes is no data. -/
def listed (attr : Attribute) : ListedAttribute :=
  (attr.type,
    some
      (if attr.data.content.length > 0 then .items attr.data.content
        else .null 0))

/-- What a call that succeeds does to a plain list. -/
def AttributeCall.apply (call : AttributeCall)
    (attributes : List ListedAttribute) : List ListedAttribute :=
  match call with
  | .addAttribute attr => attributes ++ [listed attr]
  | .setHighPriority true =>
      attributes.filter (!isHighPriority ·) ++
        [(.highPriority, some (.null 0))]
  | .setHighPriority false => attributes.filter (!isHighPriority ·)

/-- A plain list follows a call: one that returns an error changes nothing. -/
def followCall (builder : TxBuilder) (step : AttributeStep)
    (attributes : List ListedAttribute) : List ListedAttribute :=
  if (step.run builder).1.isOk then step.call.apply attributes
  else attributes

/-- The call touches no memory that it does not own. -/
def Legal (builder : TxBuilder) (step : AttributeStep) : Prop :=
  (step.run builder).1 ≠ .error .illegalAccess

/-- In every state of a run, the attributes are those of the plain list. -/
structure FollowsPlainList (builder : TxBuilder)
    (history : List AttributeStep) : Prop where
  legal : Along nextAttribute Legal builder history
  attributes :
    ∀ reached, reached <+: history →
      (finalState nextAttribute builder reached).attributes =
        predict nextAttribute followCall builder builder.attributes reached

/-! ## The condition -/

/--
The slot whose data and length the call takes over.  After a removal it is
the one that held the last entry.
-/
def reusedSlot (builder : TxBuilder) : AttributeCall → Option AttributeSlot
  | .addAttribute attr =>
      if attr.data.content.length > 0 then none else builder.spareSlots.head?
  | .setHighPriority true =>
      if builder.slots.any AttributeSlot.isHighPriority then
        builder.slots.getLast?
      else
        builder.spareSlots.head?
  | .setHighPriority false => none

/--
The slot that is taken over is vacant, and there is at most one high priority
attribute to be removed.
-/
structure TakesVacantSlot (builder : TxBuilder) (step : AttributeStep) :
    Prop where
  vacant : ∀ slot ∈ reusedSlot builder step.call, slot.Vacant
  single :
    ∀ highPriority, step.call = .setHighPriority highPriority →
      builder.slots.countP AttributeSlot.isHighPriority ≤ 1

/-! ## Ownership -/

/--
Every entry with data owns a block of its own, and the entries and what is
listed behind them fit into the array.
-/
structure Owned (builder : TxBuilder) : Prop where
  live :
    ∀ slot ∈ builder.slots, ∀ address, slot.data = some address →
      ∃ content, builder.blocks[address]? = some (some content)
  distinct : (builder.slots.filterMap AttributeSlot.data).Nodup
  room : builder.slots.length + builder.spareSlots.length ≤ maxAttributes

theorem owned_fresh (nonce : UInt32) : Owned (fresh nonce) where
  live := by simp [fresh]
  distinct := List.nodup_nil
  room := Nat.zero_le _

/-- What is read through a slot depends on its block alone. -/
theorem slotData_congr {before after : TxBuilder} {slot : AttributeSlot}
    (same :
      ∀ address, slot.data = some address →
        after.blocks[address]? = before.blocks[address]?) :
    after.slotData slot = before.slotData slot := by
  rcases pointer : slot.data with _ | address
  · simp only [slotData, pointer]
  · simp only [slotData, pointer, same address pointer]

/-- The attributes after entries were dropped or appended. -/
theorem attributes_congr {before after : TxBuilder}
    {slots : List AttributeSlot}
    (same :
      ∀ slot ∈ slots, ∀ address, slot.data = some address →
        after.blocks[address]? = before.blocks[address]?) :
    (slots.map fun slot => (slot.type, after.slotData slot)) =
      slots.map fun slot => (slot.type, before.slotData slot) := by
  apply List.map_congr_left
  intro slot member
  rw [slotData_congr (same slot member)]

/-- A slot shows no data exactly when nothing is left in it. -/
theorem slotData_eq_null_iff (builder : TxBuilder) (slot : AttributeSlot) :
    builder.slotData slot = some (.null 0) ↔ slot.Vacant := by
  rcases pointer : slot.data with _ | address
  · simp [slotData, AttributeSlot.Vacant, pointer]
  · simp [slotData, AttributeSlot.Vacant, pointer]

/-! ## The removal loop -/

section Removal

variable {α : Type} {matching : α → Bool}

/-- Taking the first match out drops every match if there is only one. -/
theorem eraseP_eq_filter {entries : List α}
    (single : entries.countP matching ≤ 1) :
    entries.eraseP matching = entries.filter (!matching ·) := by
  induction entries with
  | nil => rfl
  | cons entry rest induction =>
      by_cases matched : matching entry = true
      · rw [List.countP_cons_of_pos matched] at single
        have unmatched : rest.countP matching = 0 := by omega
        rw [List.eraseP_cons_of_pos matched,
          List.filter_cons_of_neg (by simp [matched])]
        symm
        apply List.filter_eq_self.mpr
        intro other member
        simpa using List.countP_eq_zero.mp unmatched other member
      · rw [List.countP_cons_of_neg matched] at single
        rw [List.eraseP_cons_of_neg matched,
          List.filter_cons_of_pos (by simp [matched]), induction single]

/-- With two matches or more, some are left. -/
theorem countP_le_one {entries : List α}
    (same :
      (entries.eraseP matching).length =
        (entries.filter (!matching ·)).length) :
    entries.countP matching ≤ 1 := by
  have total :
      entries.length =
        entries.countP matching + (entries.filter (!matching ·)).length := by
    rw [← List.countP_eq_length_filter]
    simpa using List.length_eq_countP_add_countP (l := entries) matching
  have dropped := List.le_length_eraseP (l := entries) (p := matching)
  omega

end Removal

/--
The loop drops the first high priority attribute, and what the other entries
point to is not touched.
-/
structure Removed (before after : TxBuilder) : Prop where
  slots : after.slots = before.slots.eraseP AttributeSlot.isHighPriority
  spareSlots :
    after.spareSlots =
      if before.slots.any AttributeSlot.isHighPriority then
        before.slots.getLast?.toList ++ before.spareSlots
      else
        before.spareSlots
  blocks :
    ∀ slot ∈ after.slots, ∀ address, slot.data = some address →
      after.blocks[address]? = before.blocks[address]?

/-- Freeing the data of one entry leaves what the others own. -/
theorem freeData_run {builder : TxBuilder} {front back : List AttributeSlot}
    {slot : AttributeSlot} (owned : Owned builder)
    (split : builder.slots = front ++ slot :: back) :
    ∃ blocks,
      freeData slot builder = (.ok (), { builder with blocks }) ∧
        ∀ other ∈ front ++ back, ∀ address, other.data = some address →
          blocks[address]? = builder.blocks[address]? := by
  rcases pointer : slot.data with _ | address
  · exact ⟨builder.blocks, by rw [freeData, pointer], fun _ _ _ _ => rfl⟩
  · have member : slot ∈ builder.slots := by
      rw [split]
      exact List.mem_append_right front List.mem_cons_self
    rcases owned.live slot member address pointer with ⟨content, live⟩
    refine ⟨builder.blocks.set address none, ?_, ?_⟩
    · rw [freeData, pointer]
      dsimp only
      rw [live]
    · intro other inside address' pointer'
      apply List.getElem?_set_ne
      rintro rfl
      have distinct := owned.distinct
      rw [split, List.filterMap_append, List.filterMap_cons_some pointer,
        List.nodup_middle, ← List.filterMap_append] at distinct
      exact
        (List.nodup_cons.mp distinct).1
          (List.mem_filterMap.mpr ⟨other, inside, pointer'⟩)

/-- The removal loop does what it says on a builder that owns its data. -/
theorem removeHighPriority_run {builder : TxBuilder}
    (owned : Owned builder) :
    ∃ after,
      removeHighPriority builder = (.ok (), after) ∧
        Removed builder after := by
  have erased :=
    @List.eraseP_eq_eraseIdx _ builder.slots AttributeSlot.isHighPriority
  rcases found :
      builder.slots.findIdx? (·.type = .highPriority) with _ | index
  · have absent :
        builder.slots.any AttributeSlot.isHighPriority = false := by
      rw [List.any_eq_false]
      intro slot member
      exact ne_true_of_eq_false
        (List.findIdx?_eq_none_iff.mp found slot member)
    refine ⟨builder, ?_, ?_, ?_, fun _ _ _ _ => rfl⟩
    · rw [removeHighPriority, Call.bind_of_ok (Call.read_run _ _), found]
      rfl
    · have missing :
          builder.slots.findIdx? AttributeSlot.isHighPriority = none :=
        found
      rw [erased, missing]
    · rw [absent, if_neg Bool.false_ne_true]
  · rcases List.findIdx?_eq_some_iff_getElem.mp found with
      ⟨bound, matched, -⟩
    have present : builder.slots.any AttributeSlot.isHighPriority = true :=
      List.any_eq_true.mpr ⟨_, List.getElem_mem bound, matched⟩
    have split :
        builder.slots =
          builder.slots.take index ++
            builder.slots[index] :: builder.slots.drop (index + 1) := by
      simp
    have left :
        builder.slots.eraseIdx index =
          builder.slots.take index ++ builder.slots.drop (index + 1) :=
      List.eraseIdx_eq_take_drop_succ builder.slots index
    rcases freeData_run owned split with ⟨blocks, freed, same⟩
    refine ⟨shiftSlots index { builder with blocks }, ?_, ?_, ?_, ?_⟩
    · rw [removeHighPriority, Call.bind_of_ok (Call.read_run _ _), found]
      dsimp only
      rw [List.getElem?_eq_getElem bound]
      have looped :
          Call.forEach freeData [builder.slots[index]] builder =
            (.ok (), { builder with blocks }) :=
        Call.bind_of_ok freed
      exact Call.bind_of_ok looped
    · have first :
          builder.slots.findIdx? AttributeSlot.isHighPriority = some index :=
        found
      rw [erased, first]
      rfl
    · rw [present, if_pos rfl]
      rfl
    · change ∀ other ∈ builder.slots.eraseIdx index, _
      rw [left]
      exact same

/-- The attributes that are left, read in the builder as it was. -/
theorem Removed.attributes {before after : TxBuilder}
    (removed : Removed before after) :
    after.attributes =
      (before.slots.eraseP AttributeSlot.isHighPriority).map fun slot =>
        (slot.type, before.slotData slot) := by
  rw [TxBuilder.attributes, attributes_congr removed.blocks, removed.slots]

/-- What is left still owns its data. -/
theorem Removed.owned {before after : TxBuilder}
    (removed : Removed before after) (owned : Owned before) :
    Owned after := by
  have fewer :
      after.slots.Sublist before.slots := by
    rw [removed.slots]
    exact List.eraseP_sublist
  refine ⟨?_, ?_, ?_⟩
  · intro slot member address pointer
    rw [removed.blocks slot member address pointer]
    exact owned.live slot (fewer.subset member) address pointer
  · exact owned.distinct.sublist (fewer.filterMap _)
  · have room := owned.room
    rw [removed.slots, removed.spareSlots, List.length_eraseP]
    split
    · rename_i present
      have nonempty : 0 < before.slots.length :=
        List.length_pos_of_mem (List.any_eq_true.mp present).choose_spec.1
      have last : before.slots.getLast?.toList.length ≤ 1 :=
        Option.length_toList_le
      rw [List.length_append]
      omega
    · exact room

/-! ## Adding an attribute -/

/-- A new entry leaves what the others point to. -/
theorem attributes_append {builder : TxBuilder} (owned : Owned builder)
    (slot : AttributeSlot) (spareSlots : List AttributeSlot)
    (more : List (Option (List UInt8))) :
    attributes
        { builder with
          slots := builder.slots ++ [slot]
          spareSlots
          blocks := builder.blocks ++ more } =
      builder.attributes ++
        [(slot.type,
          slotData { builder with blocks := builder.blocks ++ more }
            slot)] := by
  rw [attributes, List.map_append]
  congr 1
  apply attributes_congr
  intro other member address pointer
  rcases owned.live other member address pointer with ⟨content, live⟩
  have bound : address < builder.blocks.length :=
    (List.getElem?_eq_some_iff.mp live).1
  exact List.getElem?_append_left bound

/-- An attribute without data gets what its slot has. -/
theorem addAttribute_blank {builder : TxBuilder} {alloc : Allocator}
    {attr : Attribute}
    (space : builder.slots.length < maxAttributes)
    (blank : ¬attr.data.content.length > 0) :
    addAttribute alloc attr builder =
      (.ok (),
        { builder with
          slots := builder.slots ++ [builder.nextSlot attr.type]
          spareSlots := builder.spareSlots.tail }) := by
  rw [addAttribute, if_neg (Nat.not_le_of_lt space), if_neg blank]

/-- A full array takes no attribute. -/
theorem addAttribute_full {builder : TxBuilder} {alloc : Allocator}
    {attr : Attribute} (full : builder.slots.length ≥ maxAttributes) :
    addAttribute alloc attr builder =
      (.error (.error .invalidSize "Too many attributes"), builder) := by
  rw [addAttribute, if_pos full]
  rfl

/-- The next slot is vacant if what is left in it is. -/
theorem nextSlot_vacant_iff (builder : TxBuilder) (type : AttributeType) :
    (builder.nextSlot type).Vacant ↔
      ∀ slot ∈ builder.spareSlots.head?, slot.Vacant := by
  rcases spare : builder.spareSlots with _ | ⟨slot, rest⟩
  · simp [nextSlot, spare, AttributeSlot.Vacant]
  · simp [nextSlot, spare, AttributeSlot.Vacant]

theorem nextSlot_type (builder : TxBuilder) (type : AttributeType) :
    (builder.nextSlot type).type = type := by
  rcases spare : builder.spareSlots with _ | ⟨slot, rest⟩
  · simp [nextSlot, spare]
  · simp [nextSlot, spare]

/-- The data of an attribute goes into a block of its own. -/
theorem addAttribute_data {builder : TxBuilder} {alloc : Allocator}
    {attr : Attribute}
    (space : builder.slots.length < maxAttributes)
    (present : attr.data.content.length > 0)
    (granted : alloc.neocGrants attr.data.content.length = true) :
    addAttribute alloc attr builder =
      (.ok (),
        { builder with
          slots :=
            builder.slots ++
              [{ type := attr.type
                 data := some builder.blocks.length
                 dataLen := attr.data.content.length }]
          spareSlots := builder.spareSlots.tail
          blocks := builder.blocks ++ [some attr.data.content] }) := by
  rw [addAttribute, if_neg (Nat.not_le_of_lt space), if_pos present,
    if_pos granted, nextSlot_type]

/-- Data that cannot be allocated leaves a slot without a pointer behind. -/
theorem addAttribute_refused {builder : TxBuilder} {alloc : Allocator}
    {attr : Attribute}
    (space : builder.slots.length < maxAttributes)
    (present : attr.data.content.length > 0)
    (refused : ¬alloc.neocGrants attr.data.content.length = true) :
    addAttribute alloc attr builder =
      (.error (.error .outOfMemory "Failed to allocate attribute data"),
        { builder with
          spareSlots :=
            { builder.nextSlot attr.type with data := none } ::
              builder.spareSlots.tail }) := by
  rw [addAttribute, if_neg (Nat.not_le_of_lt space), if_pos present,
    if_neg refused]
  rfl

/-- An entry without data owns nothing. -/
theorem Owned.append_blank {builder : TxBuilder} {slot : AttributeSlot}
    (owned : Owned builder)
    (space : builder.slots.length < maxAttributes)
    (blank : slot.data = none) :
    Owned
      { builder with
        slots := builder.slots ++ [slot]
        spareSlots := builder.spareSlots.tail } where
  live := by
    intro other member address pointer
    rcases List.mem_append.mp member with before | new
    · exact owned.live other before address pointer
    · rw [List.mem_singleton.mp new, blank] at pointer
      cases pointer
  distinct := by
    rw [List.filterMap_append, List.filterMap_cons_none blank,
      List.filterMap_nil, List.append_nil]
    exact owned.distinct
  room := by
    have room := owned.room
    rw [List.length_append, List.length_singleton, List.length_tail]
    omega

/-- An entry with data owns the block that was allocated for it. -/
theorem Owned.append_data {builder : TxBuilder} {slot : AttributeSlot}
    (owned : Owned builder)
    (space : builder.slots.length < maxAttributes)
    (pointer : slot.data = some builder.blocks.length)
    (content : List UInt8) :
    Owned
      { builder with
        slots := builder.slots ++ [slot]
        spareSlots := builder.spareSlots.tail
        blocks := builder.blocks ++ [some content] } where
  live := by
    intro other member address pointer'
    rcases List.mem_append.mp member with before | new
    · rcases owned.live other before address pointer' with ⟨held, live⟩
      have bound := (List.getElem?_eq_some_iff.mp live).1
      exact ⟨held, (List.getElem?_append_left bound).trans live⟩
    · rw [List.mem_singleton.mp new, pointer] at pointer'
      cases pointer'
      exact ⟨content, List.getElem?_concat_length⟩
  distinct := by
    rw [List.filterMap_append, List.filterMap_cons_some pointer,
      List.filterMap_nil]
    apply List.nodup_append_comm.mp
    apply List.nodup_cons.mpr
    refine ⟨?_, owned.distinct⟩
    intro member
    rcases List.mem_filterMap.mp member with ⟨other, before, pointer'⟩
    rcases owned.live other before _ pointer' with ⟨held, live⟩
    exact lt_irrefl _ (List.getElem?_eq_some_iff.mp live).1
  room := by
    have room := owned.room
    rw [List.length_append, List.length_singleton, List.length_tail]
    omega

/-- A slot whose data could not be allocated is still behind the end. -/
theorem Owned.spare {builder : TxBuilder}
    (owned : Owned builder)
    (space : builder.slots.length < maxAttributes)
    (slot : AttributeSlot) :
    Owned
      { builder with spareSlots := slot :: builder.spareSlots.tail } where
  live := owned.live
  distinct := owned.distinct
  room := by
    have room := owned.room
    change
      builder.slots.length + (slot :: builder.spareSlots.tail).length ≤ _
    rw [List.length_cons, List.length_tail]
    omega

/-! ## One call -/

/-- A call that adds keeps the builder the owner of its data. -/
theorem addAttribute_owned {builder : TxBuilder} {alloc : Allocator}
    {attr : Attribute} (owned : Owned builder)
    (vacant :
      ¬attr.data.content.length > 0 →
        (builder.nextSlot attr.type).Vacant) :
    Owned (addAttribute alloc attr builder).2 := by
  by_cases space : builder.slots.length < maxAttributes
  · by_cases present : attr.data.content.length > 0
    · by_cases granted : alloc.neocGrants attr.data.content.length = true
      · rw [addAttribute_data space present granted]
        exact owned.append_data space rfl _
      · rw [addAttribute_refused space present granted]
        exact owned.spare space _
    · rw [addAttribute_blank space present]
      exact owned.append_blank space (vacant present).1
  · rw [addAttribute_full (Nat.le_of_not_lt space)]
    exact owned

/-- The call is legal, and the list follows it. -/
def Follows (builder : TxBuilder) (step : AttributeStep) : Prop :=
  Legal builder step ∧
    (nextAttribute builder step).attributes =
      followCall builder step builder.attributes

/-- What it is to follow a call whose result is known. -/
theorem follows_of_ok {builder after : TxBuilder} (step : AttributeStep)
    (ran : step.run builder = (.ok (), after)) :
    Follows builder step ↔
      after.attributes = step.call.apply builder.attributes := by
  rw [Follows, Legal, nextAttribute, followCall, ran]
  simp [Except.isOk, Except.toBool]

theorem follows_of_error {builder after : TxBuilder} (step : AttributeStep)
    {code : ErrorCode} {text : String}
    (ran : step.run builder = (.error (.error code text), after)) :
    Follows builder step ↔ after.attributes = builder.attributes := by
  rw [Follows, Legal, nextAttribute, followCall, ran]
  simp [Except.isOk, Except.toBool]

/-- A full array has nothing behind its end. -/
theorem Owned.spare_of_full {builder : TxBuilder} (owned : Owned builder)
    (full : ¬builder.slots.length < maxAttributes) :
    builder.spareSlots = [] := by
  have room := owned.room
  apply List.eq_nil_of_length_eq_zero
  omega

/-- An added attribute is the one given unless it takes over old data. -/
theorem addAttribute_follows_iff {builder : TxBuilder} (owned : Owned builder)
    (alloc : Allocator) (attr : Attribute) :
    Follows builder ⟨alloc, .addAttribute attr⟩ ↔
      ∀ slot ∈ reusedSlot builder (.addAttribute attr), slot.Vacant := by
  by_cases space : builder.slots.length < maxAttributes
  · by_cases present : attr.data.content.length > 0
    · rw [reusedSlot, if_pos present]
      by_cases granted : alloc.neocGrants attr.data.content.length = true
      · rw [follows_of_ok ⟨alloc, .addAttribute attr⟩
          (addAttribute_data space present granted),
          attributes_append owned]
        simp [AttributeCall.apply, listed, slotData, present]
      · rw [follows_of_error ⟨alloc, .addAttribute attr⟩
          (addAttribute_refused space present granted)]
        exact ⟨fun _ _ member => (nomatch member), fun _ => rfl⟩
    · rw [reusedSlot, if_neg present, ← nextSlot_vacant_iff _ attr.type,
        ← slotData_eq_null_iff builder,
        follows_of_ok ⟨alloc, .addAttribute attr⟩
          (addAttribute_blank space present)]
      have appended :=
        attributes_append owned (builder.nextSlot attr.type)
          builder.spareSlots.tail []
      simp only [List.append_nil] at appended
      rw [appended]
      simp [AttributeCall.apply, listed, present, nextSlot_type]
  · rw [follows_of_error ⟨alloc, .addAttribute attr⟩
          (addAttribute_full (Nat.le_of_not_lt space)),
      reusedSlot, owned.spare_of_full space]
    simp

/-- The attributes a plain list keeps are those of the entries it keeps. -/
theorem filter_attributes (builder : TxBuilder) :
    builder.attributes.filter (!isHighPriority ·) =
      (builder.slots.filter (!AttributeSlot.isHighPriority ·)).map
        fun slot => (slot.type, builder.slotData slot) := by
  rw [attributes, List.filter_map]
  rfl

/-- The loop drops what a plain list drops unless there are two to drop. -/
theorem Removed.attributes_eq_filter_iff {before after : TxBuilder}
    (removed : Removed before after) :
    after.attributes = before.attributes.filter (!isHighPriority ·) ↔
      before.slots.countP AttributeSlot.isHighPriority ≤ 1 := by
  rw [removed.attributes, filter_attributes]
  constructor
  · intro same
    have lengths := congrArg List.length same
    rw [List.length_map, List.length_map] at lengths
    exact countP_le_one lengths
  · intro single
    rw [eraseP_eq_filter single]

/-- After the loop the next slot is the one that is taken over. -/
theorem Removed.head_spareSlots {before after : TxBuilder}
    (removed : Removed before after) :
    after.spareSlots.head? = reusedSlot before (.setHighPriority true) := by
  rw [removed.spareSlots, reusedSlot]
  split
  · rename_i present
    rcases List.any_eq_true.mp present with ⟨slot, member, -⟩
    rcases last : before.slots.getLast? with _ | slot
    · rw [List.getLast?_eq_none_iff.mp last] at member
      cases member
    · rfl
  · rfl

/-- If there is no room after the loop, the loop had nothing to do. -/
theorem Removed.countP_of_full {before after : TxBuilder}
    (removed : Removed before after) (owned : Owned before)
    (full : ¬after.slots.length < maxAttributes) :
    before.slots.countP AttributeSlot.isHighPriority = 0 := by
  have room := owned.room
  rw [removed.slots, List.length_eraseP] at full
  split at full
  · rename_i present
    have nonempty : 0 < before.slots.length :=
      List.length_pos_of_mem (List.any_eq_true.mp present).choose_spec.1
    omega
  · rename_i absent
    apply List.countP_eq_zero.mpr
    intro slot member matched
    exact absent (List.any_eq_true.mpr ⟨slot, member, matched⟩)

/-- The high priority call, after its removal loop. -/
theorem setHighPriority_of_removed {before after : TxBuilder}
    {alloc : Allocator} {highPriority : Bool}
    (ran : removeHighPriority before = (.ok (), after)) :
    setHighPriority alloc highPriority before =
      if highPriority then
        addAttribute alloc { type := .highPriority, data := .null 0 } after
      else
        (.ok (), after) := by
  rw [setHighPriority, Call.bind_of_ok ran]
  cases highPriority with
  | false => rfl
  | true => rfl

/-- Clearing the flag follows the plain list if one entry has it. -/
theorem clearHighPriority_follows_iff {builder : TxBuilder}
    (owned : Owned builder) (alloc : Allocator) :
    Follows builder ⟨alloc, .setHighPriority false⟩ ↔
      builder.slots.countP AttributeSlot.isHighPriority ≤ 1 := by
  rcases removeHighPriority_run owned with ⟨after, ran, removed⟩
  have cleared : setHighPriority alloc false builder = (.ok (), after) :=
    setHighPriority_of_removed ran
  rw [follows_of_ok ⟨alloc, .setHighPriority false⟩ cleared]
  exact removed.attributes_eq_filter_iff

/-- Setting the flag also needs a vacant slot for the new attribute. -/
theorem raiseHighPriority_follows_iff {builder : TxBuilder}
    (owned : Owned builder) (alloc : Allocator) :
    Follows builder ⟨alloc, .setHighPriority true⟩ ↔
      (∀ slot ∈ reusedSlot builder (.setHighPriority true), slot.Vacant) ∧
        builder.slots.countP AttributeSlot.isHighPriority ≤ 1 := by
  rcases removeHighPriority_run owned with ⟨after, ran, removed⟩
  have ownedAfter := removed.owned owned
  have raised :
      setHighPriority alloc true builder =
        addAttribute alloc { type := .highPriority, data := .null 0 } after :=
    setHighPriority_of_removed ran
  rw [← removed.head_spareSlots]
  by_cases space : after.slots.length < maxAttributes
  · have blank : ¬(Slice.null 0 : Buffer).content.length > 0 :=
      Nat.lt_irrefl 0
    have appended :=
      attributes_append ownedAfter (after.nextSlot .highPriority)
        after.spareSlots.tail []
    simp only [List.append_nil] at appended
    rw [follows_of_ok ⟨alloc, .setHighPriority true⟩
        (raised.trans (addAttribute_blank space blank)),
      ← nextSlot_vacant_iff _ .highPriority, ← slotData_eq_null_iff after,
      ← removed.attributes_eq_filter_iff, appended, nextSlot_type]
    simp only [AttributeCall.apply]
    rw [List.append_singleton_inj]
    simp [and_comm]
  · have single := removed.countP_of_full owned space
    rw [follows_of_error ⟨alloc, .setHighPriority true⟩
        (raised.trans (addAttribute_full (Nat.le_of_not_lt space))),
      ownedAfter.spare_of_full space, removed.attributes, attributes,
      List.eraseP_of_forall_not (List.countP_eq_zero.mp single), single]
    simp

/-- A call follows the plain list exactly if its slot is vacant. -/
theorem follows_iff {builder : TxBuilder} (owned : Owned builder)
    (step : AttributeStep) :
    Follows builder step ↔ TakesVacantSlot builder step := by
  rcases step with ⟨alloc, attr | highPriority⟩
  · rw [addAttribute_follows_iff owned]
    exact
      ⟨fun vacant => ⟨vacant, fun _ other => (nomatch other)⟩,
        TakesVacantSlot.vacant⟩
  · cases highPriority with
    | false =>
        rw [clearHighPriority_follows_iff owned]
        exact
          ⟨fun single =>
              ⟨fun _ member => (nomatch member), fun _ _ => single⟩,
            fun takes => takes.single false rfl⟩
    | true =>
        rw [raiseHighPriority_follows_iff owned]
        exact
          ⟨fun both => ⟨both.1, fun _ _ => both.2⟩,
            fun takes => ⟨takes.vacant, takes.single true rfl⟩⟩

/-- A call with a vacant slot keeps the builder the owner of its data. -/
theorem nextAttribute_owned {builder : TxBuilder} {step : AttributeStep}
    (owned : Owned builder) (takes : TakesVacantSlot builder step) :
    Owned (nextAttribute builder step) := by
  rcases step with ⟨alloc, attr | highPriority⟩
  · apply addAttribute_owned owned
    intro blank
    rw [nextSlot_vacant_iff]
    have vacant := takes.vacant
    rw [reusedSlot, if_neg blank] at vacant
    exact vacant
  · rcases removeHighPriority_run owned with ⟨after, ran, removed⟩
    have ownedAfter := removed.owned owned
    change Owned (setHighPriority alloc highPriority builder).2
    rw [setHighPriority_of_removed ran]
    cases highPriority with
    | false => exact ownedAfter
    | true =>
        apply addAttribute_owned ownedAfter
        intro _
        rw [nextSlot_vacant_iff, removed.head_spareSlots]
        exact takes.vacant

/-! ## Whole histories -/

/--
From a new builder, every state of a run has the attributes of the plain
list exactly when every call of it takes a vacant slot and finds at most one
high priority attribute to remove.
-/
theorem attributes_followPlainList_iff
    (nonce : UInt32)
    (history : List AttributeStep) :
    FollowsPlainList (fresh nonce) history ↔
      Along nextAttribute TakesVacantSlot (fresh nonce) history := by
  rw [← along_iff_of_invariant Owned
    (fun _ _ => nextAttribute_owned)
    (fun _ step owned => follows_iff owned step)
    (owned_fresh nonce) history]
  unfold Follows
  rw [along_and, ← predict_prefixes_iff ]
  exact
    ⟨fun follows => ⟨follows.legal, follows.attributes⟩,
      fun both => ⟨both.1, both.2⟩⟩

/-- A high priority attribute takes over the data of another attribute. -/
def staleDataHistory : List AttributeStep :=
  [⟨.ample, .addAttribute ⟨.highPriority, .null 0⟩⟩,
    ⟨.ample, .addAttribute ⟨.conflicts, .items [7]⟩⟩,
    ⟨.ample, .setHighPriority true⟩]

/-- One of two high priority attributes is left. -/
def twiceHighHistory : List AttributeStep :=
  [⟨.ample, .addAttribute ⟨.highPriority, .null 0⟩⟩,
    ⟨.ample, .addAttribute ⟨.highPriority, .null 0⟩⟩,
    ⟨.ample, .setHighPriority false⟩]

/-- Both histories end with a list that no plain list has. -/
theorem attributes_leave_plainList :
    ¬FollowsPlainList (fresh 0) staleDataHistory ∧
      ¬FollowsPlainList (fresh 0) twiceHighHistory := by
  constructor
  · intro follows
    have listed :=
      follows.attributes staleDataHistory (List.prefix_refl _)
    revert listed
    decide +kernel
  · intro follows
    have listed :=
      follows.attributes twiceHighHistory (List.prefix_refl _)
    revert listed
    decide +kernel

end TxBuilder

end NeoC
