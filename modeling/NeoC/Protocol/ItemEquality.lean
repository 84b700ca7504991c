import NeoC.Foundation.KeyedList
import NeoC.Protocol.RefCount
import Mathlib.Logic.Relation

/-!
# Equality of stack items

`stack_item_equals` descends through two items at once.  On items that are on
no cycle and lead to none it ends, and its result does not depend on how deep
it may go.  It only looks at what the two items lead to, so that a change
elsewhere does not matter.

Two maps are equal where the entries of the first are found in the second.
The search uses the comparison of keys, which is why the comparison is an
equivalence only together with the maps having different keys.  The induction
is on the number of items that an item leads to.
-/

namespace NeoC.Protocol.StackItem

open Foundation CountedHeap

/-! ## Comparison as a function of the comparison of items -/

section Comparison

variable {same same' : Nat → Nat → Outcome Bool}

theorem sameItems_congr {items others : List Nat}
    (agree : ∀ first ∈ items, ∀ second ∈ others,
      same first second = same' first second) :
    sameItems same items others = sameItems same' items others := by
  induction items generalizing others with
  | nil => rfl
  | cons first rest induction =>
      cases others with
      | nil => rfl
      | cons second others =>
          have later := induction fun item listed other listed' =>
            agree item (List.mem_cons_of_mem _ listed) other
              (List.mem_cons_of_mem _ listed')
          rw [sameItems, sameItems, later,
            agree first List.mem_cons_self second List.mem_cons_self]

theorem findKey_congr {key : Nat} {entries : List (Nat × Nat)}
    (agree : ∀ entry ∈ entries, same entry.1 key = same' entry.1 key) :
    findKey same key entries = findKey same' key entries := by
  induction entries with
  | nil => rfl
  | cons entry rest induction =>
      have later := induction fun other listed =>
        agree other (List.mem_cons_of_mem _ listed)
      rw [findKey, findKey, later, agree entry List.mem_cons_self]

theorem findValue_congr {key : Nat} {entries : List (Nat × Nat)}
    (agree : ∀ entry ∈ entries, same entry.1 key = same' entry.1 key) :
    findValue same key entries = findValue same' key entries := by
  rw [findValue, findValue, findKey_congr agree]

theorem findValue_mem {key value : Nat} {entries : List (Nat × Nat)}
    (found : findValue same key entries = .ok (some value)) :
    ∃ entry ∈ entries, entry.2 = value := by
  rcases Except.bind_eq_ok_iff.mp found with ⟨index, -, chosen⟩
  injection chosen with chosen
  obtain ⟨position, -, stored⟩ := Option.bind_eq_some_iff.mp chosen
  obtain ⟨entry, listed, rfl⟩ := Option.map_eq_some_iff.mp stored
  exact ⟨entry, List.mem_of_getElem? listed, rfl⟩

theorem sameEntries_congr {entries others : List (Nat × Nat)}
    (keys : ∀ entry ∈ entries, ∀ other ∈ others,
      same other.1 entry.1 = same' other.1 entry.1)
    (values : ∀ entry ∈ entries, ∀ other ∈ others,
      same entry.2 other.2 = same' entry.2 other.2) :
    sameEntries same others entries = sameEntries same' others entries := by
  induction entries with
  | nil => rfl
  | cons entry rest induction =>
      have later := induction
        (fun other listed => keys other (List.mem_cons_of_mem _ listed))
        (fun other listed => values other (List.mem_cons_of_mem _ listed))
      rw [sameEntries, sameEntries, later,
        findValue_congr (keys entry List.mem_cons_self)]
      cases found : findValue same' entry.1 others with
      | error reason => rfl
      | ok value =>
          cases value with
          | none => rfl
          | some value =>
              obtain ⟨other, listed, rfl⟩ := findValue_mem found
              change (same entry.2 other.2 >>= _) =
                (same' entry.2 other.2 >>= _)
              rw [values entry List.mem_cons_self other listed]

theorem key_mem_children {entries : List (Nat × Nat)} {capacity : Nat}
    {entry : Nat × Nat} (listed : entry ∈ entries) :
    entry.1 ∈ (Content.map entries capacity).children :=
  List.mem_flatMap.mpr ⟨entry, listed, List.mem_cons_self⟩

theorem value_mem_children {entries : List (Nat × Nat)} {capacity : Nat}
    {entry : Nat × Nat} (listed : entry ∈ entries) :
    entry.2 ∈ (Content.map entries capacity).children :=
  List.mem_flatMap.mpr
    ⟨entry, listed, List.mem_cons_of_mem _ List.mem_cons_self⟩

/-- Only comparisons between items of the two values are made. -/
theorem sameContent_congr {content content' : Content}
    (agree : ∀ first ∈ content.children, ∀ second ∈ content'.children,
      same first second = same' first second ∧
        same second first = same' second first) :
    sameContent same content content' =
      sameContent same' content content' := by
  cases content <;> cases content' <;> try rfl
  case array.array items capacity items' capacity' =>
    have alike : sameItems same items items' = sameItems same' items items' :=
      sameItems_congr fun first listed second listed' =>
        (agree first listed second listed').1
    rw [sameContent, sameContent, alike]
  case struct.struct items capacity items' capacity' =>
    have alike : sameItems same items items' = sameItems same' items items' :=
      sameItems_congr fun first listed second listed' =>
        (agree first listed second listed').1
    rw [sameContent, sameContent, alike]
  case map.map entries capacity entries' capacity' =>
    rw [sameContent, sameContent, sameEntries_congr]
    · intro entry listed other listed'
      exact (agree _ (key_mem_children listed) _
        (key_mem_children listed')).2
    · intro entry listed other listed'
      exact (agree _ (value_mem_children listed) _
        (value_mem_children listed')).1

end Comparison

/-! ## Comparison by a relation -/

section Alike

variable (same : Nat → Nat → Bool)

/-- The items of two arrays are equal one by one. -/
def alikeItems : List Nat → List Nat → Bool
  | [], [] => true
  | first :: items, second :: others =>
      same first second && alikeItems items others
  | _, _ => false

/-- Two values are equal where their items are compared by a relation. -/
def alike : Content → Content → Bool
  | .any, .any => true
  | .boolean first, .boolean second => first == second
  | .integer bytes isNegative, .integer bytes' isNegative' =>
      bytes == bytes' && isNegative == isNegative'
  | .byteString data, .byteString data' => data == data'
  | .buffer data, .buffer data' => data == data'
  | .array items _, .array items' _ => alikeItems same items items'
  | .struct items _, .struct items' _ => alikeItems same items items'
  | .map entries _, .map entries' _ =>
      entries.length == entries'.length &&
        KeyedList.within same same entries entries'
  | .pointer ptr position, .pointer ptr' position' =>
      ptr == ptr' && position == position'
  | .interopInterface interface, .interopInterface interface' =>
      interface == interface'
  | _, _ => false

theorem sameItems_ok {items others : List Nat}
    (lengths : items.length = others.length) :
    sameItems (fun first second => .ok (same first second)) items others =
      .ok (alikeItems same items others) := by
  induction items generalizing others with
  | nil =>
      cases others with
      | nil => rfl
      | cons second others => cases lengths
  | cons first items induction =>
      cases others with
      | nil => cases lengths
      | cons second others =>
          have later := induction (Nat.succ.inj lengths)
          rw [sameItems, alikeItems, later]
          cases same first second <;> rfl

theorem alikeItems_length {items others : List Nat}
    (equal : alikeItems same items others = true) :
    items.length = others.length := by
  induction items generalizing others with
  | nil =>
      cases others with
      | nil => rfl
      | cons second others => cases equal
  | cons first items induction =>
      cases others with
      | nil => cases equal
      | cons second others =>
          rw [alikeItems, Bool.and_eq_true] at equal
          rw [List.length_cons, List.length_cons, induction equal.2]

theorem findKey_ok (key : Nat) (entries : List (Nat × Nat)) :
    findKey (fun first second => .ok (same first second)) key entries =
      .ok (entries.findIdx? fun entry => same entry.1 key) := by
  induction entries with
  | nil => rfl
  | cons entry rest induction =>
      rw [findKey, induction, List.findIdx?_cons]
      cases same entry.1 key <;> rfl

theorem findValue_ok (key : Nat) (entries : List (Nat × Nat)) :
    findValue (fun first second => .ok (same first second)) key entries =
      .ok (KeyedList.lookup same entries key) := by
  induction entries with
  | nil => rfl
  | cons entry rest induction =>
      rw [KeyedList.lookup_cons]
      rw [findValue, findKey_ok] at induction ⊢
      rw [List.findIdx?_cons]
      cases same entry.1 key with
      | true => rfl
      | false =>
          injection induction with induction
          rw [if_neg (by decide), ← induction]
          cases List.findIdx? (fun entry => same entry.1 key) rest <;> rfl

theorem sameEntries_ok (others entries : List (Nat × Nat)) :
    sameEntries (fun first second => .ok (same first second)) others
        entries =
      .ok (KeyedList.within same same entries others) := by
  induction entries with
  | nil => rfl
  | cons entry rest induction =>
      rw [sameEntries, findValue_ok, KeyedList.within, List.all_cons,
        induction]
      cases KeyedList.lookup same others entry.1 with
      | none => rfl
      | some value =>
          change (if same entry.2 value = true then _ else _) =
            Except.ok (same entry.2 value && _)
          cases same entry.2 value <;> rfl

/-- A check of the lengths before two lists are compared changes nothing. -/
theorem length_checked {ε : Type} {first second : List α} {equal : Bool}
    (lengths : equal = true → first.length = second.length) :
    (if first.length ≠ second.length then (.ok false : Except ε Bool)
      else .ok equal) = .ok equal := by
  split
  · rename_i different
    cases equal with
    | false => rfl
    | true => exact absurd (lengths rfl) different
  · rfl

theorem sameArrays_ok (items others : List Nat) :
    (if items.length ≠ others.length then .ok false
      else sameItems (fun first second => .ok (same first second)) items
        others) =
      (.ok (alikeItems same items others) : Outcome Bool) := by
  rw [← length_checked (alikeItems_length same)]
  split
  · rfl
  · rename_i lengths
    exact sameItems_ok same (not_not.mp lengths)

theorem sameContent_ok (content content' : Content) :
    sameContent (fun first second => .ok (same first second)) content
        content' =
      .ok (alike same content content') := by
  cases content <;> cases content' <;> try rfl
  case integer.integer bytes isNegative bytes' isNegative' =>
    rw [sameContent, alike]
    split
    · rename_i lengths
      have different : (bytes == bytes') = false := by
        rw [beq_eq_false_iff_ne]
        rintro rfl
        exact lengths rfl
      rw [different]
      rfl
    · split
      · rename_i signs
        rw [beq_false_of_ne signs, Bool.and_false]
      · rename_i signs
        rw [not_not.mp signs, beq_self_eq_true, Bool.and_true]
  case byteString.byteString data data' =>
    exact length_checked fun equal => congrArg _ (eq_of_beq equal)
  case buffer.buffer data data' =>
    exact length_checked fun equal => congrArg _ (eq_of_beq equal)
  case array.array items capacity items' capacity' =>
    exact sameArrays_ok same items items'
  case struct.struct items capacity items' capacity' =>
    exact sameArrays_ok same items items'
  case map.map entries capacity entries' capacity' =>
    rw [sameContent, alike, sameEntries_ok]
    split
    · rename_i lengths
      rw [beq_false_of_ne lengths, Bool.false_and]
    · rename_i lengths
      rw [not_not.mp lengths, beq_self_eq_true, Bool.true_and]

/-- The items of a value are compared by an equivalence, and keys differ. -/
def Tame (members : Set Nat) : Content → Prop
  | .map entries _ =>
      KeyedList.Inside members members entries ∧
        KeyedList.Distinct same entries
  | content => ∀ child ∈ content.children, child ∈ members

variable {same} {members : Set Nat}
  (equivalent : KeyedList.EquivalentOn same members)

include equivalent

theorem alikeItems_symm {items others : List Nat}
    (inside : ∀ item ∈ items, item ∈ members)
    (inside' : ∀ item ∈ others, item ∈ members)
    (equal : alikeItems same items others = true) :
    alikeItems same others items = true := by
  induction items generalizing others with
  | nil =>
      cases others with
      | nil => rfl
      | cons second others => cases equal
  | cons first items induction =>
      cases others with
      | nil => cases equal
      | cons second others =>
          obtain ⟨firstInside, restInside⟩ := List.forall_mem_cons.mp inside
          obtain ⟨firstInside', restInside'⟩ :=
            List.forall_mem_cons.mp inside'
          rw [alikeItems, Bool.and_eq_true] at equal ⊢
          exact ⟨equivalent.symm _ firstInside _ firstInside' equal.1,
            induction restInside restInside' equal.2⟩

theorem alikeItems_trans {items others further : List Nat}
    (inside : ∀ item ∈ items, item ∈ members)
    (inside' : ∀ item ∈ others, item ∈ members)
    (inside'' : ∀ item ∈ further, item ∈ members)
    (equal : alikeItems same items others = true)
    (equal' : alikeItems same others further = true) :
    alikeItems same items further = true := by
  induction items generalizing others further with
  | nil =>
      cases others with
      | nil => exact equal'
      | cons second others => cases equal
  | cons first items induction =>
      cases others with
      | nil => cases equal
      | cons second others =>
          cases further with
          | nil => cases equal'
          | cons third further =>
              obtain ⟨firstInside, restInside⟩ :=
                List.forall_mem_cons.mp inside
              obtain ⟨firstInside', restInside'⟩ :=
                List.forall_mem_cons.mp inside'
              obtain ⟨firstInside'', restInside''⟩ :=
                List.forall_mem_cons.mp inside''
              rw [alikeItems, Bool.and_eq_true] at equal equal' ⊢
              exact
                ⟨equivalent.trans _ firstInside _ firstInside' _
                    firstInside'' equal.1 equal'.1,
                  induction restInside restInside' restInside'' equal.2
                    equal'.2⟩

theorem alike_symm {content content' : Content}
    (tame : Tame same members content)
    (tame' : Tame same members content')
    (equal : alike same content content' = true) :
    alike same content' content = true := by
  cases content <;> cases content' <;> try cases equal
  case any.any.refl => rfl
  case boolean.boolean first second => exact BEq.symm equal
  case byteString.byteString data data' => exact BEq.symm equal
  case buffer.buffer data data' => exact BEq.symm equal
  case interopInterface.interopInterface interface interface' =>
    exact BEq.symm equal
  case integer.integer bytes isNegative bytes' isNegative' =>
    rw [alike, Bool.and_eq_true] at equal ⊢
    exact ⟨BEq.symm equal.1, BEq.symm equal.2⟩
  case pointer.pointer ptr position ptr' position' =>
    rw [alike, Bool.and_eq_true] at equal ⊢
    exact ⟨BEq.symm equal.1, BEq.symm equal.2⟩
  case array.array items capacity items' capacity' =>
    exact alikeItems_symm equivalent tame tame' equal
  case struct.struct items capacity items' capacity' =>
    exact alikeItems_symm equivalent tame tame' equal
  case map.map entries capacity entries' capacity' =>
    rw [alike, Bool.and_eq_true] at equal ⊢
    exact ⟨BEq.symm equal.1,
      KeyedList.within_symm equivalent equivalent tame.1 tame'.1 tame.2
        tame'.2 (eq_of_beq equal.1) equal.2⟩

theorem alike_trans {content content' content'' : Content}
    (tame : Tame same members content)
    (tame' : Tame same members content')
    (tame'' : Tame same members content'')
    (equal : alike same content content' = true)
    (equal' : alike same content' content'' = true) :
    alike same content content'' = true := by
  cases content <;> cases content' <;> try cases equal
  all_goals cases content'' <;> try cases equal'
  case any.any.refl.any.refl => rfl
  case boolean.boolean.boolean first second third =>
    exact BEq.trans equal equal'
  case byteString.byteString.byteString data data' data'' =>
    exact BEq.trans equal equal'
  case buffer.buffer.buffer data data' data'' =>
    exact BEq.trans equal equal'
  case interopInterface.interopInterface.interopInterface =>
    exact BEq.trans equal equal'
  case integer.integer.integer =>
    rw [alike, Bool.and_eq_true] at equal equal' ⊢
    exact ⟨BEq.trans equal.1 equal'.1, BEq.trans equal.2 equal'.2⟩
  case pointer.pointer.pointer =>
    rw [alike, Bool.and_eq_true] at equal equal' ⊢
    exact ⟨BEq.trans equal.1 equal'.1, BEq.trans equal.2 equal'.2⟩
  case array.array.array =>
    exact alikeItems_trans equivalent tame tame' tame'' equal equal'
  case struct.struct.struct =>
    exact alikeItems_trans equivalent tame tame' tame'' equal equal'
  case map.map.map =>
    rw [alike, Bool.and_eq_true] at equal equal' ⊢
    exact ⟨BEq.trans equal.1 equal'.1,
      KeyedList.within_trans equivalent equivalent tame.1 tame'.1 tame''.1
        tame'.2 tame''.2 equal.2 equal'.2⟩

end Alike

/-! ## Items without cycles -/

/-- An item has another one in a slot. -/
def Holds (heap : Heap) (holder item : Nat) : Prop :=
  item ∈ slots heap holder

/-- An item leads to another one through slots. -/
def Reaches (heap : Heap) : Nat → Nat → Prop :=
  Relation.ReflTransGen (Holds heap)

/-- An item leads to no cycle. -/
def Acyclic (heap : Heap) (item : Nat) : Prop :=
  ∀ inner, Reaches heap item inner →
    ∀ child ∈ slots heap inner, ¬ Reaches heap child inner

/-- A live item without a cycle. -/
def Proper (heap : Heap) (item : Nat) : Prop :=
  item ∈ heap.live ∧ Acyclic heap item

/-- The slots of live items hold live items. -/
def SlotsLive (heap : Heap) : Prop :=
  ∀ holder ∈ heap.live, ∀ item ∈ slots heap holder, item ∈ heap.live

section Graph

variable {heap : Heap} {item child : Nat}

theorem Proper.of_held (slotsLive : SlotsLive heap) (proper : Proper heap item)
    (held : child ∈ slots heap item) :
    Proper heap child := by
  refine ⟨slotsLive item proper.1 child held, ?_⟩
  intro inner reached
  exact proper.2 inner (Relation.ReflTransGen.head held reached)

open Classical in
/-- The items that an item leads to through at least one slot. -/
noncomputable def below (heap : Heap) (item : Nat) : Finset Nat :=
  heap.live.filter fun inner => ∃ child ∈ slots heap item,
    Reaches heap child inner

/-- The number of items below an item. -/
noncomputable def rank (heap : Heap) (item : Nat) : Nat :=
  (below heap item).card

open Classical in
theorem mem_below {inner : Nat} :
    inner ∈ below heap item ↔
      inner ∈ heap.live ∧ ∃ child ∈ slots heap item,
        Reaches heap child inner := by
  rw [below, Finset.mem_filter]

theorem rank_lt_of_held (slotsLive : SlotsLive heap)
    (proper : Proper heap item) (held : child ∈ slots heap item) :
    rank heap child < rank heap item := by
  apply Finset.card_lt_card
  rw [Finset.ssubset_iff_of_subset]
  · refine ⟨child, mem_below.mpr
      ⟨slotsLive item proper.1 child held, child, held,
        Relation.ReflTransGen.refl⟩, ?_⟩
    intro inside
    obtain ⟨-, grandchild, held', back⟩ := mem_below.mp inside
    exact proper.2 child (Relation.ReflTransGen.single held) grandchild held'
      back
  · intro inner inside
    obtain ⟨live, grandchild, held', reached⟩ := mem_below.mp inside
    exact mem_below.mpr
      ⟨live, child, held, Relation.ReflTransGen.head held' reached⟩

theorem rank_lt_depthBound (heap : Heap) (item : Nat) :
    rank heap item < depthBound heap := by
  have below_le : rank heap item ≤ heap.live.card :=
    Finset.card_le_card fun inner inside => (mem_below.mp inside).1
  have live_le := heap.card_live_le
  have square : heap.next ≤ heap.next * heap.next := Nat.le_mul_self _
  rw [depthBound]
  omega

end Graph

/-! ## Comparison of items without cycles -/

section Equality

variable {heap : Heap}

/-- The result of `stack_item_equals`. -/
def same (heap : Heap) (first second : Nat) : Bool :=
  equals heap (some first) (some second) = .ok true

theorem equalsWithin_succ {depth first second : Nat}
    {object object' : Counted Content}
    (different : first ≠ second)
    (there : heap.cell first = some object)
    (there' : heap.cell second = some object') :
    equalsWithin heap (depth + 1) first second =
      sameContent (equalsWithin heap depth) object.content
        object'.content := by
  rw [equalsWithin, if_neg different, there, there']

variable (slotsLive : SlotsLive heap)

include slotsLive

/-- Contents are compared through items of smaller rank only. -/
theorem sameContent_congr_smaller {relate relate' : Nat → Nat → Outcome Bool}
    {first second : Nat} {object object' : Counted Content}
    (proper : Proper heap first) (proper' : Proper heap second)
    (there : heap.cell first = some object)
    (there' : heap.cell second = some object')
    (agree :
      ∀ {child child'}, Proper heap child → Proper heap child' →
        rank heap child < max (rank heap first) (rank heap second) →
          rank heap child' < max (rank heap first) (rank heap second) →
            relate child child' = relate' child child') :
    sameContent relate object.content object'.content =
      sameContent relate' object.content object'.content := by
  apply sameContent_congr
  intro child held child' held'
  rw [← slots_of_cell there] at held
  rw [← slots_of_cell there'] at held'
  have smaller := rank_lt_of_held slotsLive proper held
  have smaller' := rank_lt_of_held slotsLive proper' held'
  have below := proper.of_held slotsLive held
  have below' := proper'.of_held slotsLive held'
  constructor
  · exact agree below below' (by omega) (by omega)
  · exact agree below' below (by omega) (by omega)

/-- A comparison that may go deep enough does not depend on how deep. -/
theorem equalsWithin_stable {depth depth' first second : Nat}
    (proper : Proper heap first) (proper' : Proper heap second)
    (enough : rank heap first < depth ∧ rank heap second < depth)
    (enough' : rank heap first < depth' ∧ rank heap second < depth') :
    equalsWithin heap depth first second =
      equalsWithin heap depth' first second := by
  induction depth generalizing depth' first second with
  | zero => exact absurd enough.1 (Nat.not_lt_zero _)
  | succ depth induction =>
      obtain ⟨rest, rfl⟩ : ∃ rest, depth' = rest + 1 :=
        ⟨depth' - 1, by omega⟩
      by_cases equal : first = second
      · rw [equalsWithin, equalsWithin, if_pos equal, if_pos equal]
      · obtain ⟨object, there⟩ := mem_live.mp proper.1
        obtain ⟨object', there'⟩ := mem_live.mp proper'.1
        rw [equalsWithin_succ equal there there',
          equalsWithin_succ equal there there']
        refine sameContent_congr_smaller slotsLive proper proper' there
          there' fun below below' smaller smaller' => ?_
        exact induction below below' (by omega) (by omega)

/-- A comparison ends. -/
theorem equalsWithin_total {depth first second : Nat}
    (proper : Proper heap first) (proper' : Proper heap second)
    (enough : rank heap first < depth ∧ rank heap second < depth) :
    equalsWithin heap depth first second = .ok (same heap first second) := by
  have total : ∃ equal, equalsWithin heap depth first second = .ok equal := by
    induction depth generalizing first second with
    | zero => exact absurd enough.1 (Nat.not_lt_zero _)
    | succ depth induction =>
        by_cases equal : first = second
        · exact ⟨true, by rw [equalsWithin, if_pos equal]⟩
        · obtain ⟨object, there⟩ := mem_live.mp proper.1
          obtain ⟨object', there'⟩ := mem_live.mp proper'.1
          rw [equalsWithin_succ equal there there']
          refine ⟨alike (fun child child' =>
            equalsWithin heap depth child child' = .ok true) object.content
              object'.content, ?_⟩
          rw [← sameContent_ok]
          have settled {child child' : Nat}
              (known : ∃ equal,
                equalsWithin heap depth child child' = .ok equal) :
              equalsWithin heap depth child child' =
                .ok (decide
                  (equalsWithin heap depth child child' = .ok true)) := by
            obtain ⟨equal, known⟩ := known
            rw [known]
            cases equal <;> rfl
          refine sameContent_congr_smaller slotsLive proper proper' there
            there' fun below below' smaller smaller' => ?_
          exact settled (induction below below' (by omega))
  obtain ⟨equal, ran⟩ := total
  have stable := equalsWithin_stable slotsLive proper proper' enough
    ⟨rank_lt_depthBound heap first, rank_lt_depthBound heap second⟩
  rw [same, equals, ← stable, ran]
  cases equal <;> rfl

omit slotsLive in
theorem same_self (heap : Heap) (item : Nat) :
    same heap item item = true := by
  rw [same, equals, depthBound, equalsWithin, if_pos rfl]
  rfl

/-- Items are compared by their values. -/
theorem same_eq_alike {first second : Nat}
    {object object' : Counted Content}
    (proper : Proper heap first) (proper' : Proper heap second)
    (different : first ≠ second)
    (there : heap.cell first = some object)
    (there' : heap.cell second = some object') :
    same heap first second =
      alike (same heap) object.content object'.content := by
  have ran := equalsWithin_total slotsLive proper proper'
    ⟨rank_lt_depthBound heap first, rank_lt_depthBound heap second⟩
  have bound := rank_lt_depthBound heap first
  have bound' := rank_lt_depthBound heap second
  rw [depthBound] at ran bound bound'
  rw [equalsWithin_succ different there there'] at ran
  have settled : sameContent (equalsWithin heap (heap.next * heap.next))
      object.content object'.content =
        sameContent (fun child child' => .ok (same heap child child'))
          object.content object'.content := by
    refine sameContent_congr_smaller slotsLive proper proper' there there'
      fun below below' smaller smaller' => ?_
    exact equalsWithin_total slotsLive below below' (by omega)
  rw [settled, sameContent_ok] at ran
  injection ran with ran
  exact ran.symm

/-- No map has two keys that are found equal. -/
def KeysDistinct (heap : Heap) : Prop :=
  ∀ map count entries capacity,
    heap.cell map = some ⟨count, .map entries capacity⟩ →
      KeyedList.Distinct (same heap) entries

theorem tame_of_proper (distinct : KeysDistinct heap) {item bound : Nat}
    {object : Counted Content} (proper : Proper heap item)
    (small : rank heap item < bound + 1)
    (there : heap.cell item = some object) :
    Tame (same heap)
      {child | Proper heap child ∧ rank heap child < bound}
      object.content := by
  have inside : ∀ child ∈ object.content.children,
      Proper heap child ∧ rank heap child < bound := by
    intro child held
    rw [← slots_of_cell there] at held
    have smaller := rank_lt_of_held slotsLive proper held
    exact ⟨proper.of_held slotsLive held, by omega⟩
  obtain ⟨count, content⟩ := object
  cases content
  case map entries capacity =>
    refine ⟨⟨?_, ?_⟩, distinct item count entries capacity there⟩
    · intro entry listed
      exact inside _ (key_mem_children listed)
    · intro entry listed
      exact inside _ (value_mem_children listed)
  all_goals exact inside

/-- The comparison is an equivalence on items without cycles. -/
theorem same_equivalent (distinct : KeysDistinct heap) :
    KeyedList.EquivalentOn (same heap) {item | Proper heap item} := by
  have bounded (bound : Nat) :
      KeyedList.EquivalentOn (same heap)
        {item | Proper heap item ∧ rank heap item < bound} := by
    induction bound with
    | zero =>
        refine ⟨?_, ?_, ?_⟩
        · rintro first ⟨-, small⟩
          exact absurd small (Nat.not_lt_zero _)
        · rintro first ⟨-, small⟩
          exact absurd small (Nat.not_lt_zero _)
        · rintro first ⟨-, small⟩
          exact absurd small (Nat.not_lt_zero _)
    | succ bound induction =>
        refine ⟨?_, ?_, ?_⟩
        · intro first _
          exact same_self heap first
        · rintro first ⟨proper, small⟩ second ⟨proper', small'⟩ equal
          by_cases coincide : first = second
          · rw [coincide]
            exact same_self heap second
          · obtain ⟨object, there⟩ := mem_live.mp proper.1
            obtain ⟨object', there'⟩ := mem_live.mp proper'.1
            rw [same_eq_alike slotsLive proper proper' coincide there
              there'] at equal
            rw [same_eq_alike slotsLive proper' proper (Ne.symm coincide)
              there' there]
            exact alike_symm induction
              (tame_of_proper slotsLive distinct proper small there)
              (tame_of_proper slotsLive distinct proper' small' there')
              equal
        · rintro first ⟨proper, small⟩ second ⟨proper', small'⟩ third
            ⟨proper'', small''⟩ equal equal'
          by_cases coincide : first = second
          · rw [coincide]
            exact equal'
          by_cases coincide' : second = third
          · rw [← coincide']
            exact equal
          by_cases coincide'' : first = third
          · rw [coincide'']
            exact same_self heap third
          obtain ⟨object, there⟩ := mem_live.mp proper.1
          obtain ⟨object', there'⟩ := mem_live.mp proper'.1
          obtain ⟨object'', there''⟩ := mem_live.mp proper''.1
          rw [same_eq_alike slotsLive proper proper' coincide there
            there'] at equal
          rw [same_eq_alike slotsLive proper' proper'' coincide' there'
            there''] at equal'
          rw [same_eq_alike slotsLive proper proper'' coincide'' there
            there'']
          exact alike_trans induction
            (tame_of_proper slotsLive distinct proper small there)
            (tame_of_proper slotsLive distinct proper' small' there')
            (tame_of_proper slotsLive distinct proper'' small'' there'')
            equal equal'
  have inside {item : Nat} (proper : Proper heap item) :
      item ∈ {item | Proper heap item ∧
        rank heap item < depthBound heap} :=
    ⟨proper, rank_lt_depthBound heap item⟩
  have all := bounded (depthBound heap)
  refine ⟨?_, ?_, ?_⟩
  · intro first proper
    exact all.refl first (inside proper)
  · intro first proper second proper'
    exact all.symm first (inside proper) second (inside proper')
  · intro first proper second proper' third proper''
    exact all.trans first (inside proper) second (inside proper') third
      (inside proper'')

end Equality

/-! ## Changes elsewhere -/

/-- The value of an item. -/
def contentAt (heap : Heap) (item : Nat) : Option Content :=
  (heap.cell item).map Counted.content

/-- Some items lead to each other only, and keep their values. -/
structure Agrees (heap after : Heap) (items : Set Nat) : Prop where
  content : ∀ item ∈ items, contentAt after item = contentAt heap item
  closed : ∀ item ∈ items, ∀ child ∈ slots heap item, child ∈ items

section Frame

variable {heap after : Heap} {items : Set Nat} {item : Nat}

theorem slots_eq_contentAt (heap : Heap) (item : Nat) :
    slots heap item =
      ((contentAt heap item).map Content.children).getD [] := by
  rw [slots, contentAt, Option.map_map]
  rfl

theorem mem_live_iff_contentAt :
    item ∈ heap.live ↔ ∃ content, contentAt heap item = some content := by
  rw [mem_live, contentAt]
  constructor
  · rintro ⟨object, there⟩
    exact ⟨object.content, by rw [there, Option.map_some]⟩
  · rintro ⟨content, there⟩
    obtain ⟨object, stored, -⟩ := Option.map_eq_some_iff.mp there
    exact ⟨object, stored⟩

/-- Only the values of items are compared. -/
theorem equalsWithin_contentAt {depth first second : Nat}
    (different : first ≠ second) :
    equalsWithin heap (depth + 1) first second =
      match contentAt heap first, contentAt heap second with
      | some content, some content' =>
          sameContent (equalsWithin heap depth) content content'
      | _, _ => .error .illegalAccess := by
  rw [equalsWithin, if_neg different, contentAt, contentAt]
  cases heap.cell first <;> cases heap.cell second <;> rfl

variable (agrees : Agrees heap after items)

include agrees

theorem Agrees.slots_eq (member : item ∈ items) :
    slots after item = slots heap item := by
  rw [slots_eq_contentAt, slots_eq_contentAt, agrees.content item member]

theorem Agrees.mem_of_reaches {inner : Nat} (member : item ∈ items)
    (reached : Reaches heap item inner) :
    inner ∈ items := by
  induction reached with
  | refl => exact member
  | tail _ held induction => exact agrees.closed _ induction _ held

theorem Agrees.reaches_iff {inner : Nat} (member : item ∈ items) :
    Reaches after item inner ↔ Reaches heap item inner := by
  constructor
  · intro reached
    induction reached with
    | refl => exact Relation.ReflTransGen.refl
    | tail _ held induction =>
        refine induction.tail ?_
        rwa [Holds, ← agrees.slots_eq (agrees.mem_of_reaches member induction)]
  · intro reached
    induction reached with
    | refl => exact Relation.ReflTransGen.refl
    | tail before held induction =>
        refine induction.tail ?_
        rwa [Holds, agrees.slots_eq (agrees.mem_of_reaches member before)]

theorem Agrees.proper_iff (member : item ∈ items) :
    Proper after item ↔ Proper heap item := by
  have live : item ∈ after.live ↔ item ∈ heap.live := by
    rw [mem_live_iff_contentAt, mem_live_iff_contentAt,
      agrees.content item member]
  refine and_congr live (forall_congr' fun inner => ?_)
  rw [agrees.reaches_iff member]
  refine forall_congr' fun reached => ?_
  have inside := agrees.mem_of_reaches member reached
  rw [agrees.slots_eq inside]
  refine forall₂_congr fun child held => ?_
  rw [agrees.reaches_iff (agrees.closed inner inside child held)]

theorem Agrees.equalsWithin_eq {depth first second : Nat}
    (member : first ∈ items) (member' : second ∈ items) :
    equalsWithin after depth first second =
      equalsWithin heap depth first second := by
  induction depth generalizing first second with
  | zero => rfl
  | succ depth induction =>
      by_cases equal : first = second
      · rw [equalsWithin, equalsWithin, if_pos equal, if_pos equal]
      · rw [equalsWithin_contentAt equal, equalsWithin_contentAt equal,
          agrees.content first member, agrees.content second member']
        cases there : contentAt heap first with
        | none => rfl
        | some content =>
            cases there' : contentAt heap second with
            | none => rfl
            | some content' =>
                apply sameContent_congr
                intro child held child' held'
                have inside : child ∈ items := by
                  apply agrees.closed first member
                  rw [slots_eq_contentAt, there]
                  exact held
                have inside' : child' ∈ items := by
                  apply agrees.closed second member'
                  rw [slots_eq_contentAt, there']
                  exact held'
                exact ⟨induction inside inside', induction inside' inside⟩

/-- A comparison of items that lead to no change has the same result. -/
theorem Agrees.same_eq (slotsLive : SlotsLive heap)
    (slotsLive' : SlotsLive after) {first second : Nat}
    (member : first ∈ items) (member' : second ∈ items)
    (proper : Proper heap first) (proper' : Proper heap second) :
    same after first second = same heap first second := by
  let depth := max (depthBound heap) (depthBound after)
  have deep (item : Nat) : rank heap item < depth :=
    (rank_lt_depthBound heap item).trans_le (le_max_left _ _)
  have deep' (item : Nat) : rank after item < depth :=
    (rank_lt_depthBound after item).trans_le (le_max_right _ _)
  have ran := equalsWithin_total slotsLive proper proper'
    ⟨deep first, deep second⟩
  have ran' := equalsWithin_total slotsLive'
    ((agrees.proper_iff member).mpr proper)
    ((agrees.proper_iff member').mpr proper')
    ⟨deep' first, deep' second⟩
  rw [agrees.equalsWithin_eq member member', ran] at ran'
  injection ran' with ran'
  exact ran'.symm

end Frame

end NeoC.Protocol.StackItem
