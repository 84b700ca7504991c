import NeoC.Foundation.InPlace
import NeoC.Runtime.Cells
import NeoC.Runtime.Hex

/-!
# Reversed and compared hexadecimal texts

`neoc_hex_decode_reverse` takes the number of bytes from the whole string, and
the decoder takes it from the digits behind the mark.  Behind a mark the two
differ by one, and the byte that was never written comes first when the bytes
are reversed.  `neoc_hex_compare` looks at the characters only where both
numbers of digits are even; otherwise it returns the difference of the
lengths, as a 32-bit number.
-/

namespace NeoC

open Foundation

namespace Hex

/-! ## The functions -/

/-- `neoc_hex_decode_reverse`; `*data_len` is the number of the cells. -/
def decodeReverse (alloc : Allocator) (hex : CString) :
    Outcome (Cells UInt8) :=
  if hex.strlen % 2 ≠ 0 then
    .error (.error .invalidFormat "Hex string must have even length")
  else
    let dataLen := hex.strlen / 2
    if alloc.neocGrants dataLen = false then
      .error (.error .outOfMemory "Failed to allocate data")
    else do
      let bytes ← decode hex.characters dataLen
      let data ← (Cells.fresh dataLen).store 0 (Cells.written bytes)
      match InPlace.exchange (dataLen / 2) 0 (dataLen - 1) data with
      | none => .error .illegalAccess
      | some reversed => .ok reversed

/-- `tolower` in the locale of the language. -/
def toLower (c : UInt8) : UInt8 :=
  if 0x41 ≤ c ∧ c ≤ 0x5A then c + 0x20 else c

/-- The loop of `neoc_hex_compare` over the shorter length. -/
def compareLoop : (a b : List UInt8) → Option Int32
  | ca :: a, cb :: b =>
      if toLower ca ≠ toLower cb then
        some (Int32.ofInt ((toLower ca).toNat - (toLower cb).toNat))
      else
        compareLoop a b
  | _, _ => none

/--
`neoc_hex_compare`.  `samePointer` is the answer of `hex1 == hex2`, which only
one string gives.
-/
def compare (samePointer : Bool) (hex1 hex2 : CString) : Int32 :=
  if samePointer then
    0
  else
    let a := skipMark hex1.characters
    let b := skipMark hex2.characters
    if a.length % 2 ≠ 0 ∨ b.length % 2 ≠ 0 then
      -- a difference of `size_t` values keeps its low 32 bits
      Int32.ofInt (a.length - b.length)
    else
      match compareLoop a b with
      | some difference => difference
      | none =>
          if a.length = b.length then 0
          else if a.length < b.length then -1
          else 1

/-- `neoc_hex_equal`. -/
def equal (samePointer : Bool) (hex1 hex2 : CString) : Bool :=
  compare samePointer hex1 hex2 == 0

/-! ## What is asked of them -/

/--
Whatever room the decoder has beyond what it asks for, the reversed bytes are
returned exactly where it succeeds.
-/
def ReverseAgrees (alloc : Allocator) (hex : CString) : Prop :=
  ∀ bufferSize data,
    decodeBufferSize hex.characters ≤ bufferSize →
      (decodeReverse alloc hex = .ok data ↔
        ∃ bytes,
          decode hex.characters bufferSize = .ok bytes ∧
            data = Cells.written bytes.reverse)

/-- The same characters behind the marks, up to their case. -/
def SameDigits (hex1 hex2 : CString) : Prop :=
  (skipMark hex1.characters).map toLower =
    (skipMark hex2.characters).map toLower

instance (hex1 hex2 : CString) : Decidable (SameDigits hex1 hex2) :=
  inferInstanceAs (Decidable (_ = _))

/-- Strings that compare equal have the same digits. -/
def EqualSound (hex1 hex2 : CString) : Prop :=
  ∀ samePointer : Bool,
    (samePointer = true → hex1 = hex2) →
      equal samePointer hex1 hex2 = true → SameDigits hex1 hex2

/-! ## The reversal -/

/-- A text that cannot be decoded, however large the buffer is. -/
def Undecodable (hex : CString) : Prop :=
  (skipMark hex.characters).length % 2 ≠ 0 ∨
    ∃ c ∈ skipMark hex.characters, isValidChar c = false

instance (hex : CString) : Decidable (Undecodable hex) :=
  inferInstanceAs (Decidable (_ ∨ _))

theorem isSome_charToValue (c : UInt8) :
    (charToValue c).isSome = isValidChar c := by
  rw [charToValue, isValidChar]
  split
  · rename_i digit
    rw [decide_eq_true digit]
    rfl
  rename_i other
  rw [decide_eq_false other]
  split
  · rename_i lower
    rw [decide_eq_true lower]
    rfl
  rename_i others
  rw [decide_eq_false others]
  split
  · rename_i upper
    rw [decide_eq_true upper]
    rfl
  · rename_i none
    rw [decide_eq_false none]
    rfl

theorem exists_charToValue {c : UInt8} (valid : isValidChar c = true) :
    ∃ value, charToValue c = some value :=
  Option.isSome_iff_exists.mp ((isSome_charToValue c).trans valid)

/-- Pairs of digits are decoded, and nothing else is. -/
theorem exists_decodeDigits {hex : List UInt8} (even : hex.length % 2 = 0) :
    (∃ bytes, decodeDigits hex = some bytes) ↔
      ∀ c ∈ hex, isValidChar c = true := by
  induction hex using decodeDigits.induct with
  | case1 high low rest highVal lowVal lowFound highFound induction =>
      have tail : rest.length % 2 = 0 := by
        rw [List.length_cons, List.length_cons] at even
        omega
      have first : isValidChar high = true := by
        rw [← isSome_charToValue, highFound]
        rfl
      have second : isValidChar low = true := by
        rw [← isSome_charToValue, lowFound]
        rfl
      rw [decodeDigits, highFound, lowFound, List.forall_mem_cons,
        List.forall_mem_cons, ← induction tail]
      simp [first, second, Option.map_eq_some_iff]
  | case2 high low rest unread =>
      constructor
      · rintro ⟨bytes, decoded⟩
        rw [decodeDigits] at decoded
        split at decoded
        · rename_i highFound lowFound
          exact absurd lowFound (unread _ _ highFound)
        · cases decoded
      · intro valid
        rcases List.forall_mem_cons.mp valid with ⟨first, others⟩
        rcases exists_charToValue first with ⟨highVal, highFound⟩
        rcases exists_charToValue (List.forall_mem_cons.mp others).1 with
          ⟨lowVal, lowFound⟩
        exact absurd lowFound (unread _ _ highFound)
  | case3 short none =>
      rcases short with _ | ⟨first, _ | ⟨second, rest⟩⟩
      · exact iff_of_true ⟨[], rfl⟩ (List.forall_mem_nil _)
      · exact absurd even (by simp)
      · exact absurd rfl (none first second rest)

/-- A text is decodable or not, whatever the room is. -/
theorem decodable_cases (hex : CString) :
    (Undecodable hex ∧
      ∀ bufferSize bytes, decode hex.characters bufferSize ≠ .ok bytes) ∨
    (¬ Undecodable hex ∧
      (skipMark hex.characters).length % 2 = 0 ∧
      ∃ bytes,
        bytes.length = decodeBufferSize hex.characters ∧
          ∀ bufferSize,
            decodeBufferSize hex.characters ≤ bufferSize →
              decode hex.characters bufferSize = .ok bytes) := by
  by_cases undecodable : Undecodable hex
  · refine .inl ⟨undecodable, ?_⟩
    intro bufferSize bytes decoded
    rcases decode_eq_ok_iff.mp decoded with ⟨even, -, found⟩
    rcases undecodable with odd | ⟨c, member, invalid⟩
    · exact odd even
    · have valid := (exists_decodeDigits even).mp ⟨bytes, found⟩ c member
      rw [invalid] at valid
      cases valid
  · have all := undecodable
    rw [Undecodable, not_or, Decidable.not_not] at all
    have valid : ∀ c ∈ skipMark hex.characters, isValidChar c = true := by
      intro c member
      by_contra invalid
      exact all.2 ⟨c, member, Bool.eq_false_of_not_eq_true invalid⟩
    rcases (exists_decodeDigits all.1).mpr valid with ⟨bytes, found⟩
    refine .inr ⟨undecodable, all.1, bytes, ?_, ?_⟩
    · exact length_of_decodeDigits found
    · intro bufferSize room
      exact decode_eq_ok_iff.mpr ⟨all.1, room, found⟩

/--
What is returned was decoded, and the number of bytes is that of the whole
string, mark and all.
-/
theorem decodeReverse_eq_ok {alloc : Allocator} {hex : CString}
    {data : Cells UInt8} (reversed : decodeReverse alloc hex = .ok data) :
    data.length = hex.strlen / 2 ∧
      alloc.neocGrants (hex.strlen / 2) = true ∧
      ∃ bytes, decode hex.characters (hex.strlen / 2) = .ok bytes := by
  rw [decodeReverse] at reversed
  split at reversed
  · cases reversed
  dsimp only at reversed
  split at reversed
  · cases reversed
  rename_i granted
  rw [Bool.not_eq_false] at granted
  rcases Except.bind_eq_ok_iff.mp reversed with ⟨bytes, decoded, stored⟩
  rcases Except.bind_eq_ok_iff.mp stored with ⟨cells, filled, exchanged⟩
  split at exchanged
  · cases exchanged
  · rename_i found
    injection exchanged with same
    refine ⟨?_, granted, bytes, decoded⟩
    rw [← same, InPlace.length_of_exchange found,
      Cells.length_of_store filled, Cells.length_fresh]

/-- Where the decoder fills the array, its bytes are reversed. -/
theorem decodeReverse_eq {alloc : Allocator} {hex : CString}
    {bytes : List UInt8} (even : hex.strlen % 2 = 0)
    (granted : alloc.neocGrants (hex.strlen / 2) = true)
    (decoded : decode hex.characters (hex.strlen / 2) = .ok bytes)
    (full : bytes.length = hex.strlen / 2) :
    decodeReverse alloc hex = .ok (Cells.written bytes.reverse) := by
  have stored :
      Cells.store (Cells.fresh (hex.strlen / 2)) 0 (Cells.written bytes) =
        .ok (Cells.written bytes) :=
    Cells.store_whole (by simp [full])
  have exchanged :=
    @InPlace.exchange_eq _ [] (Cells.written bytes) [] (hex.strlen / 2 / 2)
      (by simp [full])
  rw [List.length_nil, Nat.zero_add, Cells.length_written, full,
    List.nil_append, List.nil_append, List.append_nil, List.append_nil]
    at exchanged
  rw [decodeReverse, if_neg (Decidable.not_not.mpr even)]
  dsimp only
  rw [granted, if_neg (by decide)]
  refine (Except.bind_of_ok decoded _).trans ?_
  refine (Except.bind_of_ok stored _).trans ?_
  rw [exchanged]
  dsimp only
  rw [Cells.written, Cells.written, List.map_reverse]

/--
The reversal agrees with the decoder exactly where nothing can be decoded, or
where there is no mark and half the length of the string is granted.
-/
theorem reverseAgrees_iff (alloc : Allocator) (hex : CString) :
    ReverseAgrees alloc hex ↔
      Undecodable hex ∨
        skipMark hex.characters = hex.characters ∧
          alloc.neocGrants (hex.strlen / 2) = true := by
  rcases decodable_cases hex with
    ⟨undecodable, never⟩ | ⟨decodable, even, bytes, length, decodes⟩
  · refine iff_of_true ?_ (.inl undecodable)
    intro bufferSize data _
    constructor
    · intro reversed
      rcases (decodeReverse_eq_ok reversed).2.2 with ⟨bytes, decoded⟩
      exact absurd decoded (never _ bytes)
    · rintro ⟨bytes, decoded, -⟩
      exact absurd decoded (never _ bytes)
  constructor
  · intro agrees
    have reversed :=
      (agrees _ _ le_rfl).mpr ⟨bytes, decodes _ le_rfl, rfl⟩
    rcases decodeReverse_eq_ok reversed with ⟨whole, granted, -⟩
    rw [Cells.length_written, List.length_reverse, length] at whole
    refine .inr ⟨?_, granted⟩
    -- behind a mark the string counts one byte more than the decoder
    rw [decodeBufferSize, CString.strlen] at whole
    rw [skipMark] at whole ⊢
    split
    · rename_i mark
      rw [if_pos mark, List.length_drop] at whole
      omega
    · rfl
  · rintro (undecodable | ⟨unmarked, granted⟩)
    · exact absurd undecodable decodable
    have size : decodeBufferSize hex.characters = hex.strlen / 2 := by
      rw [decodeBufferSize, unmarked, CString.strlen]
    have reversed :=
      decodeReverse_eq (by rwa [CString.strlen, ← unmarked]) granted
        (decodes _ size.le) (length.trans size)
    intro bufferSize data room
    rw [reversed, Except.ok.injEq, decodes _ room]
    constructor
    · intro same
      exact ⟨bytes, rfl, same.symm⟩
    · rintro ⟨bytes', same, rfl⟩
      injection same with equal
      rw [equal]

/-! ## The comparison -/

theorem ofInt_sub_eq_zero_iff {left right : Nat} :
    Int32.ofInt (left - right) = 0 ↔ left % 2 ^ 32 = right % 2 ^ 32 := by
  have residue :
      ((2 ^ 32 : Nat) : Int) ∣ (left - right : Int) ↔
        left % 2 ^ 32 = right % 2 ^ 32 := by
    omega
  rw [Int32.ofInt_eq_iff_bmod_eq_toInt, ← residue, Int.dvd_iff_bmod_eq_zero]
  rfl

/-- A difference that is found is not zero. -/
theorem compareLoop_ne_zero {a b : List UInt8} {difference : Int32}
    (found : compareLoop a b = some difference) : difference ≠ 0 := by
  induction a, b using compareLoop.induct with
  | case1 ca a cb b differ =>
      rw [compareLoop, if_pos differ, Option.some.injEq] at found
      rw [← found, ne_eq, ofInt_sub_eq_zero_iff]
      have left := (toLower ca).toNat_lt
      have right := (toLower cb).toNat_lt
      rw [Nat.mod_eq_of_lt (by omega), Nat.mod_eq_of_lt (by omega)]
      exact fun same => differ (UInt8.toNat_inj.mp same)
  | case2 ca a cb b same induction =>
      rw [compareLoop, if_neg same] at found
      exact induction found
  | case3 a b short =>
      rw [compareLoop] at found
      · cases found
      · exact short

/-- Over one length the loop finds every difference. -/
theorem map_toLower_of_compareLoop {a b : List UInt8}
    (length : a.length = b.length) (none : compareLoop a b = none) :
    a.map toLower = b.map toLower := by
  induction a, b using compareLoop.induct with
  | case1 ca a cb b differ =>
      rw [compareLoop, if_pos differ] at none
      cases none
  | case2 ca a cb b same induction =>
      rw [compareLoop, if_neg same] at none
      rw [List.map_cons, List.map_cons, Decidable.not_not.mp same,
        induction (Nat.succ.inj length) none]
  | case3 a b short =>
      rcases a with _ | ⟨ca, a⟩
      · rw [List.length_eq_zero_iff.mp length.symm]
      · rcases b with _ | ⟨cb, b⟩
        · cases length
        · exact absurd rfl (short ca a cb b rfl)

/--
Equality is sound exactly where both numbers of digits are even, or the
lengths differ by no multiple of `2 ^ 32`, or the digits are the same.
-/
theorem equalSound_iff (hex1 hex2 : CString) :
    EqualSound hex1 hex2 ↔
      ((skipMark hex1.characters).length % 2 = 0 ∧
        (skipMark hex2.characters).length % 2 = 0) ∨
      (skipMark hex1.characters).length % 2 ^ 32 ≠
        (skipMark hex2.characters).length % 2 ^ 32 ∨
      SameDigits hex1 hex2 := by
  constructor
  · intro sound
    by_contra none
    rw [not_or, not_or, not_not] at none
    rcases none with ⟨odd, lengths, different⟩
    have some :
        (skipMark hex1.characters).length % 2 ≠ 0 ∨
          (skipMark hex2.characters).length % 2 ≠ 0 := by
      omega
    refine different (sound false (fun same => by cases same) ?_)
    rw [equal, compare, if_neg (by decide)]
    dsimp only
    rw [if_pos some, ofInt_sub_eq_zero_iff.mpr lengths]
    rfl
  · rintro condition (_ | _) aliased accepted
    · by_contra different
      have zero := beq_iff_eq.mp accepted
      rw [compare, if_neg (by decide)] at zero
      dsimp only at zero
      split at zero
      · rename_i odd
        have lengths := ofInt_sub_eq_zero_iff.mp zero
        rcases condition with even | unequal | same
        · omega
        · exact unequal lengths
        · exact different same
      · split at zero
        · rename_i found
          exact compareLoop_ne_zero found zero
        · rename_i none
          split at zero
          · rename_i length
            exact different (map_toLower_of_compareLoop length none)
          · split at zero
            · exact absurd zero (by decide)
            · exact absurd zero (by decide)
    · rw [aliased rfl]
      rfl

/-- When the derived operations agree with the decoder. -/
theorem derived_agree_iff (alloc : Allocator) (hex hex1 hex2 : CString) :
    (ReverseAgrees alloc hex ↔
        Undecodable hex ∨
          skipMark hex.characters = hex.characters ∧
            alloc.neocGrants (hex.strlen / 2) = true) ∧
      (EqualSound hex1 hex2 ↔
        ((skipMark hex1.characters).length % 2 = 0 ∧
            (skipMark hex2.characters).length % 2 = 0) ∨
          (skipMark hex1.characters).length % 2 ^ 32 ≠
            (skipMark hex2.characters).length % 2 ^ 32 ∨
          SameDigits hex1 hex2) :=
  ⟨reverseAgrees_iff alloc hex, equalSound_iff hex1 hex2⟩

/-- A mark costs a byte, and of one digit each all texts are equal. -/
theorem derived_disagree :
    ¬ ReverseAgrees .ample (CString.ofString "0x01") ∧
      ¬ EqualSound (CString.ofString "1") (CString.ofString "2") := by
  refine ⟨?_, ?_⟩
  · intro agrees
    have reversed :=
      (agrees 1 (Cells.written [1]) (by decide +kernel)).mpr
        ⟨[1], by decide +kernel, rfl⟩
    have whole := (decodeReverse_eq_ok reversed).1
    exact absurd whole (by decide +kernel)
  · intro sound
    have same :=
      sound false (fun same => by cases same) (by decide +kernel)
    exact absurd same (by decide +kernel)

end Hex

end NeoC
