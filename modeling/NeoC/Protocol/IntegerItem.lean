import NeoC.Protocol.StackItem

/-!
# Integers as stack items

An integer item holds the bytes of a magnitude and a sign.  The items of
`stack_item_create_integer` have no leading zero byte and no negative zero,
whereas `stack_item_create_big_integer` takes every form as it is.  Items are
compared by their form, so that an integer which comes in two forms is not
equal to itself.

`stack_item_to_integer` collects the bytes of a magnitude in an `int64_t`: it
rejects by length and not by value, and a magnitude of `2 ^ 63` or more leaves
the range of that type on the way.
-/

namespace NeoC.Protocol.StackItem

open Foundation

/-! ## Leading zero bytes -/

theorem ofBytes_append_zeros (bytes : List UInt8) (count : Nat) :
    LittleEndian.ofBytes (bytes ++ List.replicate count 0) =
      LittleEndian.ofBytes bytes := by
  induction bytes with
  | nil =>
      induction count with
      | zero => rfl
      | succ count induction =>
          rw [List.nil_append] at induction ⊢
          rw [List.replicate_succ, LittleEndian.ofBytes.eq_2, induction]
          rfl
  | cons byte rest induction =>
      rw [List.cons_append, LittleEndian.ofBytes, LittleEndian.ofBytes,
        induction]

/-- The longer of two forms of one magnitude is the shorter one with zeros. -/
theorem eq_append_zeros {bytes others : List UInt8}
    (same : LittleEndian.ofBytes bytes = LittleEndian.ofBytes others)
    (shorter : bytes.length ≤ others.length) :
    others =
      bytes ++ List.replicate (others.length - bytes.length) 0 := by
  have length_eq :
      (bytes ++ List.replicate (others.length - bytes.length) 0).length =
        others.length := by
    rw [List.length_append, List.length_replicate]
    omega
  have stored := LittleEndian.toBytes_ofBytes
    (bytes ++ List.replicate (others.length - bytes.length) 0)
  rw [length_eq, ofBytes_append_zeros, same,
    LittleEndian.toBytes_ofBytes] at stored
  exact stored

theorem rdropWhile_append_zeros (bytes : List UInt8) (count : Nat) :
    (bytes ++ List.replicate count 0).rdropWhile (· = 0) =
      bytes.rdropWhile (· = 0) := by
  induction count with
  | zero => rw [List.replicate_zero, List.append_nil]
  | succ count induction =>
      rw [List.replicate_succ', ← List.append_assoc,
        List.rdropWhile_concat_pos _ _ _ (by decide), induction]

theorem trimZeros_append_zeros {bytes : List UInt8} (nonempty : bytes ≠ [])
    (count : Nat) :
    trimZeros (bytes ++ List.replicate count 0) = trimZeros bytes := by
  have first :
      (bytes ++ List.replicate count 0).take 1 = bytes.take 1 := by
    rcases bytes with _ | ⟨byte, rest⟩
    · exact absurd rfl nonempty
    · rfl
  rw [trimZeros, trimZeros, rdropWhile_append_zeros, first]

theorem length_trimZeros_le (bytes : List UInt8) :
    (trimZeros bytes).length ≤ bytes.length := by
  rw [trimZeros]
  split
  · exact List.length_take_le' 1 bytes
  · exact (List.rdropWhile_prefix _ bytes).length_le

/-- Trimming keeps the magnitude. -/
theorem ofBytes_trimZeros (bytes : List UInt8) :
    LittleEndian.ofBytes (trimZeros bytes) = LittleEndian.ofBytes bytes := by
  have split_eq : bytes.rdropWhile (· = 0) ++
      List.replicate (bytes.rtakeWhile (· = 0)).length 0 = bytes := by
    have zeros : bytes.rtakeWhile (· = 0) =
        List.replicate (bytes.rtakeWhile (· = 0)).length 0 := by
      apply List.eq_replicate_of_mem
      intro byte member
      have zero := List.mem_rtakeWhile_imp member
      exact of_decide_eq_true zero
    rw [← zeros, List.rdropWhile_append_rtakeWhile]
  have magnitude :
      LittleEndian.ofBytes (bytes.rdropWhile (· = 0)) =
        LittleEndian.ofBytes bytes := by
    rw [← ofBytes_append_zeros _ (bytes.rtakeWhile (· = 0)).length, split_eq]
  rw [trimZeros]
  split
  case isFalse => exact magnitude
  case isTrue none =>
    rw [none, LittleEndian.ofBytes] at magnitude
    rcases bytes with _ | ⟨byte, rest⟩
    · rfl
    · rw [LittleEndian.ofBytes] at magnitude
      rw [List.take_succ_cons, List.take_zero, LittleEndian.ofBytes,
        LittleEndian.ofBytes, LittleEndian.ofBytes]
      omega

/-- The magnitude determines the form without leading zeros. -/
theorem trimZeros_eq_of_ofBytes_eq {bytes others : List UInt8}
    (nonempty : bytes ≠ []) (nonempty' : others ≠ [])
    (same : LittleEndian.ofBytes bytes = LittleEndian.ofBytes others) :
    trimZeros bytes = trimZeros others := by
  rcases Nat.le_total bytes.length others.length with shorter | shorter
  · rw [eq_append_zeros same shorter, trimZeros_append_zeros nonempty]
  · rw [eq_append_zeros same.symm shorter, trimZeros_append_zeros nonempty']

/-- The number of leading zero bytes of a magnitude. -/
def leadingZeros (bytes : List UInt8) : Nat :=
  bytes.length - (trimZeros bytes).length

theorem eq_iff_leadingZeros {bytes others : List UInt8}
    (nonempty : bytes ≠ []) (nonempty' : others ≠ []) :
    bytes = others ↔
      LittleEndian.ofBytes bytes = LittleEndian.ofBytes others ∧
        leadingZeros bytes = leadingZeros others := by
  constructor
  · rintro rfl
    exact ⟨rfl, rfl⟩
  · rintro ⟨same, zeros⟩
    have trimmed := trimZeros_eq_of_ofBytes_eq nonempty nonempty' same
    have shorter := length_trimZeros_le bytes
    have shorter' := length_trimZeros_le others
    rw [leadingZeros, leadingZeros, trimmed] at zeros
    rw [trimmed] at shorter
    have lengths : bytes.length = others.length := by omega
    rw [← LittleEndian.toBytes_ofBytes bytes, lengths, same,
      LittleEndian.toBytes_ofBytes]

/-! ## Integers -/

/--
How an integer item is built.  There is no item without bytes, and the bytes
are an object of the caller.
-/
inductive IntegerSource where
  | integer (value : Int64)
  | bigInteger (bytes : List UInt8) (isNegative : Bool)
      (nonempty : bytes ≠ []) (fits : bytes.length ≤ ptrdiffMax)

/-- The constructor call. -/
def IntegerSource.create (alloc : Allocator) :
    IntegerSource → Routine Heap (Option Nat)
  | .integer value => createInteger alloc value
  | .bigInteger bytes isNegative _ _ =>
      createBigInteger alloc (.items bytes) isNegative

/-- The integer of a sign and a magnitude. -/
def signed (isNegative : Bool) (magnitude : Nat) : Int :=
  if isNegative then -magnitude else magnitude

/-- The integer that is meant. -/
def IntegerSource.value : IntegerSource → Int
  | .integer value => value.toInt
  | .bigInteger bytes isNegative _ _ =>
      signed isNegative (LittleEndian.ofBytes bytes)

/-- The bytes of the magnitude in the item. -/
def IntegerSource.bytes : IntegerSource → List UInt8
  | .integer value =>
      trimZeros (LittleEndian.toBytes 8 value.toInt.natAbs)
  | .bigInteger bytes _ _ _ => bytes

/-- The sign in the item. -/
def IntegerSource.isNegative : IntegerSource → Bool
  | .integer value => decide (value < 0)
  | .bigInteger _ isNegative _ _ => isNegative

/-- The item exists: the constructor does not compute `-INT64_MIN`. -/
def IntegerSource.Defined : IntegerSource → Prop
  | .integer value => value ≠ Int64.minValue
  | .bigInteger _ _ _ _ => True

/-- The values of `int64_t`. -/
def InRange (value : Int) : Prop :=
  -0x8000000000000000 ≤ value ∧ value < 0x8000000000000000

theorem inRange_int64 (value : Int64) : InRange value.toInt := by
  exact ⟨value.le_toInt, value.toInt_lt⟩

theorem trimZeros_ne_nil {bytes : List UInt8} (nonempty : bytes ≠ []) :
    trimZeros bytes ≠ [] := by
  rw [trimZeros]
  split
  case isFalse trimmed => exact trimmed
  case isTrue =>
    rcases bytes with _ | ⟨byte, rest⟩
    · exact absurd rfl nonempty
    · exact List.cons_ne_nil _ _

theorem IntegerSource.bytes_ne_nil (source : IntegerSource) :
    source.bytes ≠ [] := by
  cases source with
  | integer value =>
      exact trimZeros_ne_nil (List.cons_ne_nil _ _)
  | bigInteger bytes isNegative nonempty fits => exact nonempty

/-- The item of either constructor means the integer that it was given. -/
theorem IntegerSource.value_eq (source : IntegerSource) :
    source.value =
      signed source.isNegative (LittleEndian.ofBytes source.bytes) := by
  cases source with
  | bigInteger bytes isNegative nonempty fits => rfl
  | integer value =>
      obtain ⟨low, high⟩ := inRange_int64 value
      have fits : value.toInt.natAbs < 256 ^ 8 := by
        norm_num
        omega
      rw [IntegerSource.value, IntegerSource.bytes, ofBytes_trimZeros,
        LittleEndian.ofBytes_toBytes_of_lt fits, IntegerSource.isNegative,
        signed]
      have sign : value < 0 ↔ value.toInt < 0 := Int64.lt_iff_toInt_lt
      by_cases negative : value < 0
      · rw [if_pos (decide_eq_true negative)]
        have := sign.mp negative
        omega
      · rw [if_neg (by simpa using negative)]
        have := mt sign.mpr negative
        omega

/-! ## Building -/

/-- The constructor returns an item or a null pointer in every heap. -/
def IntegerSource.Constructs (source : IntegerSource) : Prop :=
  ∀ (alloc : Allocator) (heap : Heap),
    ∃ item, (source.create alloc heap).1 = .ok item

/-- The value of an item that the constructor returned. -/
def IntegerSource.Builds (source : IntegerSource) (content : Content) :
    Prop :=
  ∃ (alloc : Allocator) (heap after : Heap) (address : Nat)
    (object : Counted Content),
    source.create alloc heap = (.ok (some address), after) ∧
      after.cell address = some object ∧ object.content = content

theorem IntegerSource.create_of_defined {source : IntegerSource}
    (defined : source.Defined) (alloc : Allocator) (heap : Heap) :
    source.create alloc heap = (.ok none, heap) ∨
      source.create alloc heap =
        (.ok (some heap.next),
          heap.push (.integer source.bytes source.isNegative)) := by
  cases source with
  | integer value =>
      rw [IntegerSource.create, createInteger]
      split_ifs with missing short least
      · exact Or.inl rfl
      · exact Or.inl rfl
      · exact absurd least defined
      · rw [stackItemAlloc, if_pos (by simpa using missing)]
        exact Or.inr rfl
  | bigInteger bytes isNegative nonempty fits =>
      rw [IntegerSource.create, createBigInteger,
        if_neg (mt List.length_eq_zero_iff.mp nonempty), stackItemAllocWith]
      split_ifs
      · rw [stackItemAlloc]
        split_ifs
        · exact Or.inr rfl
        · exact Or.inl rfl
      · exact Or.inl rfl

theorem IntegerSource.create_ample {source : IntegerSource}
    (defined : source.Defined) (heap : Heap) :
    source.create .ample heap =
      (.ok (some heap.next),
        heap.push (.integer source.bytes source.isNegative)) := by
  cases source with
  | integer value =>
      rw [IntegerSource.create, createInteger, if_neg (by decide),
        if_neg (by decide), if_neg defined, stackItemAlloc,
        if_pos (by decide)]
      rfl
  | bigInteger bytes isNegative nonempty fits =>
      rw [IntegerSource.create, createBigInteger,
        if_neg (mt List.length_eq_zero_iff.mp nonempty), stackItemAllocWith,
        if_pos (Allocator.ample_serves fits _ le_rfl), stackItemAlloc,
        if_pos (by decide)]
      rfl

theorem IntegerSource.constructs_iff (source : IntegerSource) :
    source.Constructs ↔ source.Defined := by
  constructor
  · intro constructs
    cases source with
    | bigInteger bytes isNegative nonempty fits => exact trivial
    | integer value =>
        intro least
        obtain ⟨item, returned⟩ := constructs .ample CountedHeap.empty
        rw [IntegerSource.create, createInteger, if_neg (by decide),
          if_neg (by decide), if_pos least] at returned
        cases returned
  · intro defined alloc heap
    rcases IntegerSource.create_of_defined defined alloc heap with
      created | created
    · exact ⟨none, by rw [created]⟩
    · exact ⟨some heap.next, by rw [created]⟩

theorem IntegerSource.builds_iff {source : IntegerSource}
    (defined : source.Defined) (content : Content) :
    source.Builds content ↔
      content = .integer source.bytes source.isNegative := by
  constructor
  · rintro ⟨alloc, heap, after, address, object, created, stored, rfl⟩
    rcases IntegerSource.create_of_defined defined alloc heap with
      missing | built
    · rw [missing] at created
      cases created
    · rw [built] at created
      cases created
      rw [CountedHeap.cell_push, if_pos rfl] at stored
      cases stored
      rfl
  · rintro rfl
    refine ⟨.ample, CountedHeap.empty, _, _,
      ⟨1, .integer source.bytes source.isNegative⟩,
      IntegerSource.create_ample defined _, ?_, rfl⟩
    rw [CountedHeap.cell_push, if_pos rfl]

/-! ## Conversion -/

/-- A result is right: the integer, or an error code where it is too large. -/
def Returns (value : Int) (outcome : Outcome Int64) : Prop :=
  (InRange value → ∃ result, outcome = .ok result ∧ result.toInt = value) ∧
    (¬ InRange value → ∃ code text, outcome = .error (.error code text))

/-- The item is built, and its conversion is right. -/
def IntegerSource.Converts (source : IntegerSource) : Prop :=
  source.Constructs ∧
    ∀ content, source.Builds content →
      Returns source.value (toInteger content)

/-- Short magnitudes leave the sign bit alone, and long ones are too large. -/
def IntegerSource.Convertible : IntegerSource → Prop
  | .integer value => value ≠ Int64.minValue
  | .bigInteger bytes isNegative _ _ =>
      if bytes.length ≤ 8 then
        LittleEndian.ofBytes bytes < 0x8000000000000000
      else
        ¬ InRange (signed isNegative (LittleEndian.ofBytes bytes))

theorem toInt_signed {isNegative : Bool} {magnitude : Nat}
    (small : magnitude < 0x8000000000000000) :
    (if isNegative then Int64.ofInt (-magnitude)
      else Int64.ofNat magnitude).toInt = signed isNegative magnitude := by
  cases isNegative with
  | false => exact Int64.toInt_ofNat_of_lt small
  | true => exact Int64.toInt_ofInt_of_le (by omega) (by omega)

theorem inRange_signed {isNegative : Bool} {magnitude : Nat}
    (small : magnitude < 0x8000000000000000) :
    InRange (signed isNegative magnitude) := by
  cases isNegative with
  | false => exact ⟨by simp only [signed]; omega, by simp [signed]; omega⟩
  | true => exact ⟨by simp [signed]; omega, by simp [signed]; omega⟩

/-- The conversion of every sign and magnitude. -/
theorem returns_toInteger_iff (bytes : List UInt8) (isNegative : Bool) :
    Returns (signed isNegative (LittleEndian.ofBytes bytes))
        (toInteger (.integer bytes isNegative)) ↔
      if bytes.length ≤ 8 then
        LittleEndian.ofBytes bytes < 0x8000000000000000
      else
        ¬ InRange (signed isNegative (LittleEndian.ofBytes bytes)) := by
  by_cases short : bytes.length ≤ 8
  case neg =>
    rw [toInteger, if_pos (by omega), if_neg short]
    constructor
    · rintro ⟨inside, -⟩ range
      obtain ⟨result, returned, -⟩ := inside range
      cases returned
    · intro outside
      exact ⟨fun inside => absurd inside outside, fun _ => ⟨_, _, rfl⟩⟩
  case pos =>
    rw [toInteger, if_neg (by omega), if_pos short]
    by_cases small : LittleEndian.ofBytes bytes < 0x8000000000000000
    · have converted : (if isNegative then
          (.ok (Int64.ofInt (-LittleEndian.ofBytes bytes)) : Outcome Int64)
          else .ok (Int64.ofNat (LittleEndian.ofBytes bytes))) =
          .ok (if isNegative then Int64.ofInt (-LittleEndian.ofBytes bytes)
            else Int64.ofNat (LittleEndian.ofBytes bytes)) := by
        cases isNegative <;> rfl
      simp only [if_neg (Nat.not_le.mpr small), converted, small, iff_true]
      exact ⟨fun _ => ⟨_, rfl, toInt_signed small⟩,
        fun outside => absurd (inRange_signed small) outside⟩
    · simp only [if_pos (Nat.not_lt.mp small), small, iff_false]
      rintro ⟨inside, outside⟩
      by_cases range :
          InRange (signed isNegative (LittleEndian.ofBytes bytes))
      · obtain ⟨result, returned, -⟩ := inside range
        cases returned
      · obtain ⟨code, text, returned⟩ := outside range
        cases returned

theorem natAbs_lt_of_ne_minValue {value : Int64}
    (defined : value ≠ Int64.minValue) :
    value.toInt.natAbs < 0x8000000000000000 := by
  obtain ⟨low, high⟩ := inRange_int64 value
  have least : value.toInt ≠ -0x8000000000000000 := by
    intro same
    exact defined (Int64.toInt_inj.mp same)
  omega

theorem IntegerSource.converts_iff (source : IntegerSource) :
    source.Converts ↔ source.Convertible := by
  have converts_of_defined (defined : source.Defined) :
      source.Converts ↔
        Returns (signed source.isNegative
            (LittleEndian.ofBytes source.bytes))
          (toInteger (.integer source.bytes source.isNegative)) := by
    rw [IntegerSource.Converts, IntegerSource.constructs_iff,
      IntegerSource.value_eq]
    simp only [IntegerSource.builds_iff defined, forall_eq, defined,
      true_and]
  cases source with
  | bigInteger bytes isNegative nonempty fits =>
      rw [converts_of_defined trivial, returns_toInteger_iff]
      rfl
  | integer value =>
      constructor
      · intro converts
        exact (IntegerSource.constructs_iff _).mp converts.1
      · intro defined
        have short : (trimZeros (LittleEndian.toBytes 8
            value.toInt.natAbs)).length ≤ 8 := by
          refine (length_trimZeros_le _).trans ?_
          rw [LittleEndian.length_toBytes]
        have small := natAbs_lt_of_ne_minValue defined
        rw [converts_of_defined defined, returns_toInteger_iff,
          IntegerSource.bytes, if_pos short, ofBytes_trimZeros,
          LittleEndian.ofBytes_toBytes_of_lt (by norm_num; omega)]
        exact small

/-! ## Comparison -/

/-- Both items are built, and they are equal where their integers are. -/
def IntegerSource.Compares (source other : IntegerSource) : Prop :=
  source.Constructs ∧ other.Constructs ∧
    ∀ (heap : Heap) (first second : Nat) (object object' : Counted Content),
      heap.cell first = some object → heap.cell second = some object' →
      source.Builds object.content → other.Builds object'.content →
        ∃ result, equals heap (some first) (some second) = .ok result ∧
          (result = true ↔ source.value = other.value)

/-- One integer is given in one form. -/
def IntegerSource.Comparable (source other : IntegerSource) : Prop :=
  source.Defined ∧ other.Defined ∧
    (source.value = other.value →
      leadingZeros source.bytes = leadingZeros other.bytes ∧
        (source.value = 0 → source.isNegative = other.isNegative))

theorem equals_integer {heap : Heap} {first second : Nat}
    {object object' : Counted Content} {bytes bytes' : List UInt8}
    {isNegative isNegative' : Bool}
    (stored : heap.cell first = some object)
    (stored' : heap.cell second = some object')
    (content : object.content = .integer bytes isNegative)
    (content' : object'.content = .integer bytes' isNegative') :
    equals heap (some first) (some second) =
      .ok (decide (bytes = bytes' ∧ isNegative = isNegative')) := by
  rw [equals, depthBound, equalsWithin]
  split_ifs with same
  · rw [← same, stored] at stored'
    cases stored'
    rw [content] at content'
    cases content'
    simp
  · simp only [stored, stored', content, content', sameContent]
    split_ifs with length sign
    · have different : bytes ≠ bytes' := by
        rintro rfl
        exact length rfl
      simp [different]
    · simp [sign]
    · rw [not_not.mp sign, beq_eq_decide]
      simp

/-- Two signs and magnitudes mean one integer. -/
theorem signed_eq_iff {isNegative isNegative' : Bool}
    {magnitude magnitude' : Nat} :
    signed isNegative magnitude = signed isNegative' magnitude' ↔
      magnitude = magnitude' ∧
        (magnitude = 0 ∨ isNegative = isNegative') := by
  cases isNegative <;> cases isNegative' <;> simp [signed] <;> omega

theorem signed_eq_zero_iff {isNegative : Bool} {magnitude : Nat} :
    signed isNegative magnitude = 0 ↔ magnitude = 0 := by
  cases isNegative <;> simp [signed]

/-- The forms agree exactly where the integers do. -/
theorem IntegerSource.form_iff_value (source other : IntegerSource) :
    ((source.bytes = other.bytes ∧ source.isNegative = other.isNegative) ↔
        source.value = other.value) ↔
      (source.value = other.value →
        leadingZeros source.bytes = leadingZeros other.bytes ∧
          (source.value = 0 → source.isNegative = other.isNegative)) := by
  have bytes_iff := eq_iff_leadingZeros source.bytes_ne_nil
    other.bytes_ne_nil
  rw [source.value_eq, other.value_eq, signed_eq_iff, signed_eq_zero_iff,
    bytes_iff]
  constructor
  · intro agree same
    obtain ⟨⟨-, zeros⟩, signs⟩ := agree.mpr same
    exact ⟨zeros, fun _ => signs⟩
  · intro oneForm
    constructor
    · rintro ⟨⟨magnitudes, -⟩, signs⟩
      exact ⟨magnitudes, Or.inr signs⟩
    · intro same
      obtain ⟨zeros, signs⟩ := oneForm same
      exact ⟨⟨same.1, zeros⟩, same.2.elim signs id⟩

theorem IntegerSource.compares_iff (source other : IntegerSource) :
    source.Compares other ↔ source.Comparable other := by
  rw [IntegerSource.Compares, IntegerSource.Comparable,
    IntegerSource.constructs_iff, IntegerSource.constructs_iff]
  apply and_congr_right
  intro defined
  apply and_congr_right
  intro defined'
  rw [← IntegerSource.form_iff_value]
  simp only [IntegerSource.builds_iff defined,
    IntegerSource.builds_iff defined']
  constructor
  · intro compares
    -- The two items are the only ones of a heap.
    let heap : Heap :=
      (CountedHeap.empty.push (.integer source.bytes source.isNegative)).push
        (.integer other.bytes other.isNegative)
    have stored : heap.cell 0 =
        some ⟨1, .integer source.bytes source.isNegative⟩ := rfl
    have stored' : heap.cell 1 =
        some ⟨1, .integer other.bytes other.isNegative⟩ := rfl
    obtain ⟨result, compared, right⟩ :=
      compares heap 0 1 _ _ stored stored' rfl rfl
    rw [equals_integer stored stored' rfl rfl] at compared
    cases compared
    rw [← right, decide_eq_true_iff]
  · intro agree heap first second object object' stored stored' content
      content'
    refine ⟨_, equals_integer stored stored' content content', ?_⟩
    rw [decide_eq_true_iff, agree]

/-- Where integer items mean integers. -/
theorem integerItems_mean_iff (source other : IntegerSource) :
    (source.Converts ↔ source.Convertible) ∧
      (source.Compares other ↔ source.Comparable other) :=
  ⟨source.converts_iff, source.compares_iff other⟩

/-- One with and without a leading zero byte, and the largest `uint64_t`. -/
theorem integerItems_not_mean :
    ¬ (IntegerSource.bigInteger [1] false (by decide) (by decide)).Compares
        (.bigInteger [1, 0] false (by decide) (by decide)) ∧
      ¬ (IntegerSource.bigInteger (List.replicate 8 0xFF) false (by decide)
        (by decide)).Converts := by
  constructor
  · rw [IntegerSource.compares_iff]
    rintro ⟨-, -, oneForm⟩
    exact absurd (oneForm (by decide)).1 (by decide)
  · rw [IntegerSource.converts_iff, IntegerSource.Convertible,
      if_pos (by decide)]
    decide

end NeoC.Protocol.StackItem
