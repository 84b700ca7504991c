import NeoC.Foundation.LittleEndian

/-!
# Formats that can be read back

An encoding is unambiguous if two encodings that start the same sequence come
from values that look the same, and end at the same place.  What a value looks
like is given by a view, and the values that are compared may be restricted
to those that are alike in some way.

The restriction is what makes the rule for sequences work on formats in which
an earlier part decides how a later one is written: in the later part only
values are compared whose earlier parts look the same.
-/

namespace NeoC.Foundation

variable {α β γ ι σ : Type}

/-- Encodings of alike values that start a common sequence look the same. -/
def Unambiguous (alike : α → α → Prop) (encode : α → List σ)
    (view : α → β) : Prop :=
  ∀ left right leftRest rightRest,
    alike left right →
      encode left ++ leftRest = encode right ++ rightRest →
        view left = view right ∧ leftRest = rightRest

namespace Unambiguous

variable {alike : α → α → Prop} {encode first second : α → List σ}
  {view : α → β}

/-- Whole encodings that are equal look the same. -/
theorem view_eq (readable : Unambiguous alike encode view)
    {left right : α} (both : alike left right)
    (same : encode left = encode right) :
    view left = view right :=
  (readable left right [] [] both (by rw [same])).1

/-- Fewer values are to be compared. -/
theorem mono {alike' : α → α → Prop}
    (readable : Unambiguous alike encode view)
    (weaker : ∀ left right, alike' left right → alike left right) :
    Unambiguous alike' encode view :=
  fun left right leftRest rightRest both same =>
    readable left right leftRest rightRest (weaker left right both) same

/-- Less is to be seen. -/
theorem map {view' : α → γ} (readable : Unambiguous alike encode view)
    (determined :
      ∀ left right,
        alike left right → view left = view right →
          view' left = view' right) :
    Unambiguous alike encode view' := by
  intro left right leftRest rightRest both same
  rcases readable left right leftRest rightRest both same with ⟨seen, rest⟩
  exact ⟨determined left right both seen, rest⟩

/-- The encoding is written in another way. -/
theorem congr {encode' : α → List σ}
    (readable : Unambiguous alike encode view)
    (agrees :
      ∀ left right,
        alike left right →
          encode' left = encode left ∧ encode' right = encode right) :
    Unambiguous alike encode' view := by
  intro left right leftRest rightRest both same
  rcases agrees left right both with ⟨written, written'⟩
  rw [written, written'] at same
  exact readable left right leftRest rightRest both same

/-- A part of a value is encoded. -/
theorem comap (readable : Unambiguous alike encode view)
    (part : ι → α) :
    Unambiguous (fun left right => alike (part left) (part right))
      (fun value => encode (part value)) (fun value => view (part value)) :=
  fun left right => readable (part left) (part right)

/-- Encodings of one length show all their symbols. -/
theorem fixed
    (sized :
      ∀ left right,
        alike left right → (encode left).length = (encode right).length) :
    Unambiguous alike encode encode :=
  fun left right _ _ both same =>
    List.append_inj same (sized left right both)

/-- One part after the other; what the first one shows is then known. -/
theorem append {view' : α → γ} (head : Unambiguous alike first view)
    (tail :
      Unambiguous
        (fun left right => alike left right ∧ view left = view right)
        second view') :
    Unambiguous alike (fun value => first value ++ second value)
      (fun value => (view value, view' value)) := by
  intro left right leftRest rightRest both same
  rw [List.append_assoc, List.append_assoc] at same
  rcases head left right _ _ both same with ⟨seen, later⟩
  rcases tail left right _ _ ⟨both, seen⟩ later with ⟨seenLater, rest⟩
  exact ⟨Prod.ext seen seenLater, rest⟩

/-- One part after the other, neither of which decides on the other. -/
theorem seq {view' : α → γ} (head : Unambiguous alike first view)
    (tail : Unambiguous alike second view') :
    Unambiguous alike (fun value => first value ++ second value)
      (fun value => (view value, view' value)) :=
  head.append (tail.mono fun _ _ both => both.1)

/-- A part that is there or not, as the rest of the value decides. -/
theorem option {present : α → Prop} [DecidablePred present]
    {missing : β}
    (decided :
      ∀ left right, alike left right → (present left ↔ present right))
    (readable :
      Unambiguous
        (fun left right =>
          alike left right ∧ present left ∧ present right)
        encode view) :
    Unambiguous alike
      (fun value => if present value then encode value else [])
      (fun value => if present value then view value else missing) := by
  intro left right leftRest rightRest both same
  dsimp only at same ⊢
  by_cases there : present left
  · have also := (decided left right both).mp there
    rw [if_pos there, if_pos also] at same
    rw [if_pos there, if_pos also]
    exact readable left right _ _ ⟨both, there, also⟩ same
  · have neither := fun also => there ((decided left right both).mpr also)
    rw [if_neg there, if_neg neither] at same
    rw [if_neg there, if_neg neither]
    exact ⟨rfl, same⟩

/-- Lists of one length, item by item. -/
theorem flatMap (readable : Unambiguous alike encode view) :
    Unambiguous
      (fun left right : List α =>
        left.length = right.length ∧
          ∀ one ∈ left, ∀ other ∈ right, alike one other)
      (List.flatMap encode) (List.map view) := by
  intro left
  induction left with
  | nil =>
      rintro right leftRest rightRest ⟨lengths, -⟩ same
      cases right with
      | nil => exact ⟨rfl, same⟩
      | cons item rest => cases lengths
  | cons one ones induction =>
      rintro right leftRest rightRest ⟨lengths, each⟩ same
      cases right with
      | nil => cases lengths
      | cons other others =>
          rw [List.flatMap_cons, List.flatMap_cons, List.append_assoc,
            List.append_assoc] at same
          have heads : alike one other :=
            each one List.mem_cons_self other List.mem_cons_self
          have tails : ∀ item ∈ ones, ∀ item' ∈ others, alike item item' :=
            fun item inside item' inside' =>
              each item (List.mem_cons_of_mem _ inside) item'
                (List.mem_cons_of_mem _ inside')
          rcases readable one other _ _ heads same with ⟨seen, later⟩
          rcases
            induction others leftRest rightRest
              ⟨Nat.succ.inj lengths, tails⟩ later with
            ⟨seenLater, rest⟩
          exact ⟨congrArg₂ List.cons seen seenLater, rest⟩

/-- A list behind a count that shows its length. -/
theorem counted {count : Nat → List σ} {small : Nat → Prop}
    (counts :
      Unambiguous (fun left right => small left ∧ small right) count id)
    (readable : Unambiguous alike encode view) :
    Unambiguous
      (fun left right : List α =>
        (small left.length ∧ small right.length) ∧
          ∀ one ∈ left, ∀ other ∈ right, alike one other)
      (fun items => count items.length ++ items.flatMap encode)
      (List.map view) := by
  have head :
      Unambiguous
        (fun left right : List α =>
          (small left.length ∧ small right.length) ∧
            ∀ one ∈ left, ∀ other ∈ right, alike one other)
        (fun items : List α => count items.length) List.length :=
    (counts.comap List.length).mono fun _ _ both => both.1
  refine (head.append ?_).map fun _ _ _ seen => congrArg Prod.snd seen
  exact
    readable.flatMap.mono fun _ _ both => ⟨both.2, both.1.2⟩

end Unambiguous

/-! ## Words and variable-length integers -/

/-- A word shows the number that it holds. -/
theorem LittleEndian.toBytes_unambiguous {alike : α → α → Prop}
    {width : Nat} {part : α → Nat}
    (fits : ∀ value, part value < 256 ^ width) :
    Unambiguous alike (fun value => toBytes width (part value)) part := by
  have word :
      Unambiguous alike (fun value => toBytes width (part value))
        (fun value => toBytes width (part value)) := by
    apply Unambiguous.fixed
    intro left right _
    rw [length_toBytes, length_toBytes]
  refine word.map ?_
  intro left right _ seen
  rw [← ofBytes_toBytes_of_lt (fits left), seen,
    ofBytes_toBytes_of_lt (fits right)]

/-- So does a word that is written for a machine integer. -/
theorem LittleEndian.word_unambiguous {ω : Type} {alike : α → α → Prop}
    {width : Nat} {toNat : ω → Nat} (injective : toNat.Injective)
    (fits : ∀ word, toNat word < 256 ^ width) (part : α → ω) :
    Unambiguous alike (fun value => toBytes width (toNat (part value)))
      part :=
  (toBytes_unambiguous fun value => fits (part value)).map
    fun _ _ _ seen => injective seen

namespace VarInt

/-- The first byte of the variable-length form. -/
def marker (value : Nat) : UInt8 :=
  if value < 0xFD then UInt8.ofNat value
  else if value ≤ 0xFFFF then 0xFD
  else if value ≤ 0xFFFFFFFF then 0xFE
  else 0xFF

/-- The number of bytes that follow the first one. -/
def payloadWidth (first : UInt8) : Nat :=
  if first = 0xFD then 2
  else if first = 0xFE then 4
  else if first = 0xFF then 8
  else 0

/-- The bytes that follow the first one. -/
def payload (value : Nat) : List UInt8 :=
  LittleEndian.toBytes (payloadWidth (marker value)) value

/-- A byte below the three markers stands alone. -/
theorem payloadWidth_of_lt {value : Nat} (small : value < 0xFD) :
    payloadWidth (UInt8.ofNat value) = 0 := by
  have noMarker (other : UInt8) (large : 0xFD ≤ other.toNat) :
      UInt8.ofNat value ≠ other := by
    rintro rfl
    rw [UInt8.toNat_ofNat', Nat.mod_eq_of_lt (by omega)] at large
    omega
  rw [payloadWidth, if_neg (noMarker 0xFD (by decide)),
    if_neg (noMarker 0xFE (by decide)), if_neg (noMarker 0xFF (by decide))]

theorem encode_eq_marker_append (value : Nat) :
    encode value = [marker value] ++ payload value := by
  unfold encode payload marker
  split_ifs with one two four
  · have byte : LittleEndian.toBytes 1 value = [UInt8.ofNat value] := by
      rw [LittleEndian.toBytes, Nat.mod_eq_of_lt (by omega),
        LittleEndian.toBytes]
    rw [payloadWidth_of_lt one, byte, LittleEndian.toBytes]
    rfl
  · rfl
  · rfl
  · rfl

/-- The value can be read off its first byte and the payload. -/
theorem eq_marker_or_payload {value : Nat}
    (fits : value < 0x10000000000000000) :
    value =
      if payloadWidth (marker value) = 0 then (marker value).toNat
      else LittleEndian.ofBytes (payload value) := by
  have read (width : Nat) (small : value < 256 ^ width)
      (follows : payloadWidth (marker value) = width)
      (positive : width ≠ 0) :
      value =
        if payloadWidth (marker value) = 0 then (marker value).toNat
        else LittleEndian.ofBytes (payload value) := by
    rw [payload, follows, if_neg positive,
      LittleEndian.ofBytes_toBytes_of_lt small]
  by_cases one : value < 0xFD
  · have alone : marker value = UInt8.ofNat value := if_pos one
    rw [alone, if_pos (payloadWidth_of_lt one), UInt8.toNat_ofNat',
      Nat.mod_eq_of_lt (by omega)]
  · by_cases two : value ≤ 0xFFFF
    · exact
        read 2 (by omega) (by rw [marker, if_neg one, if_pos two]; rfl)
          (by decide)
    · by_cases four : value ≤ 0xFFFFFFFF
      · exact
          read 4 (by omega)
            (by rw [marker, if_neg one, if_neg two, if_pos four]; rfl)
            (by decide)
      · exact
          read 8 (by omega)
            (by rw [marker, if_neg one, if_neg two, if_neg four]; rfl)
            (by decide)

/-- No variable-length form starts another one. -/
theorem encode_unambiguous :
    Unambiguous
      (fun left right =>
        left < 0x10000000000000000 ∧ right < 0x10000000000000000)
      encode id := by
  have split : encode = fun value => [marker value] ++ payload value :=
    funext encode_eq_marker_append
  rw [split]
  refine
    ((Unambiguous.fixed fun _ _ _ => rfl).append
      (Unambiguous.fixed ?_)).map ?_
  · rintro left right ⟨-, sameFirst⟩
    rw [payload, payload, LittleEndian.length_toBytes,
      LittleEndian.length_toBytes, List.head_eq_of_cons_eq sameFirst]
  · rintro left right ⟨fitsLeft, fitsRight⟩ seen
    rcases Prod.mk.inj seen with ⟨sameFirst, samePayload⟩
    rw [id, id, eq_marker_or_payload fitsLeft,
      eq_marker_or_payload fitsRight, List.head_eq_of_cons_eq sameFirst,
      samePayload]

end VarInt

end NeoC.Foundation
