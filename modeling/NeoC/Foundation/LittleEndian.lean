import Mathlib.Data.List.Basic
import Mathlib.Tactic.NormNum
import Mathlib.Tactic.Ring
import Mathlib.Tactic.SplitIfs

/-!
# Little-endian words and variable-length integers

`LittleEndian.toBytes width value` lists the low `width` bytes of a number,
least significant first, and `ofBytes` reads such a list back.  The two are
inverse on numbers that fit the width, and on every list of bytes.

`VarInt.encode` is the usual variable-length form on top of it: one byte below
`0xFD`, and otherwise a marker byte followed by two, four or eight bytes.
-/

namespace NeoC.Foundation.LittleEndian

/-- The low `width` bytes of `value`, least significant byte first. -/
def toBytes : (width : Nat) → (value : Nat) → List UInt8
  | 0, _ => []
  | width + 1, value =>
      UInt8.ofNat (value % 256) :: toBytes width (value / 256)

/-- The number a list of bytes denotes, least significant byte first. -/
def ofBytes : List UInt8 → Nat
  | [] => 0
  | byte :: rest => byte.toNat + 256 * ofBytes rest

@[simp]
theorem length_toBytes (width value : Nat) :
    (toBytes width value).length = width := by
  induction width generalizing value with
  | zero => rfl
  | succ width induction => simp [toBytes, induction]

theorem toNat_ofNat_mod (value : Nat) :
    (UInt8.ofNat (value % 256)).toNat = value % 256 := by
  simp [UInt8.toNat_ofNat']

/-- Reading back a written word truncates it to its width. -/
theorem ofBytes_toBytes (width value : Nat) :
    ofBytes (toBytes width value) = value % 256 ^ width := by
  induction width generalizing value with
  | zero => simp [toBytes, ofBytes, Nat.mod_one]
  | succ width induction =>
      rw [toBytes, ofBytes, induction, toNat_ofNat_mod,
        Nat.pow_succ, Nat.mul_comm (256 ^ width) 256,
        Nat.mod_mul]

theorem ofBytes_toBytes_of_lt {width value : Nat}
    (fits : value < 256 ^ width) :
    ofBytes (toBytes width value) = value := by
  rw [ofBytes_toBytes, Nat.mod_eq_of_lt fits]

theorem ofBytes_lt (bytes : List UInt8) :
    ofBytes bytes < 256 ^ bytes.length := by
  induction bytes with
  | nil => simp [ofBytes]
  | cons byte rest induction =>
      have small : byte.toNat < 256 := byte.toNat_lt
      rw [ofBytes, List.length_cons, Nat.pow_succ]
      omega

/-- What stands behind counts for the higher digits. -/
theorem ofBytes_append (front back : List UInt8) :
    ofBytes (front ++ back) =
      ofBytes front + 256 ^ front.length * ofBytes back := by
  induction front with
  | nil => simp [ofBytes]
  | cons byte rest induction =>
      rw [List.cons_append, ofBytes, ofBytes, induction, List.length_cons,
        Nat.pow_succ, Nat.mul_add, ← Nat.add_assoc, ← Nat.mul_assoc,
        Nat.mul_comm 256 (256 ^ rest.length)]

theorem toBytes_ofBytes (bytes : List UInt8) :
    toBytes bytes.length (ofBytes bytes) = bytes := by
  induction bytes with
  | nil => rfl
  | cons byte rest induction =>
      have small : byte.toNat < 256 := byte.toNat_lt
      have low : (byte.toNat + 256 * ofBytes rest) % 256 = byte.toNat := by
        omega
      have high :
          (byte.toNat + 256 * ofBytes rest) / 256 = ofBytes rest := by
        omega
      rw [List.length_cons, ofBytes, toBytes, low, high, induction,
        UInt8.ofNat_toNat]

/-- Every byte is what a shift brings to the low end. -/
theorem toBytes_eq_map (width value : Nat) :
    toBytes width value =
      (List.range width).map fun index =>
        UInt8.ofNat (value / 256 ^ index % 256) := by
  induction width generalizing value with
  | zero => rfl
  | succ width induction =>
      rw [toBytes, induction, List.range_succ_eq_map, List.map_cons,
        List.map_map, Nat.pow_zero, Nat.div_one]
      congr 1
      apply List.map_congr_left
      intro index _
      rw [Function.comp_apply, Nat.pow_succ', Nat.div_div_eq_div_mul]

/-! ## Two's complement -/

/-- The `width` bytes of a signed number. -/
def toBytesSigned (width : Nat) (value : Int) : List UInt8 :=
  toBytes width (value % (256 ^ width : Nat)).toNat

/-- The signed number a list of bytes denotes. -/
def ofBytesSigned (bytes : List UInt8) : Int :=
  if 2 * ofBytes bytes < 256 ^ bytes.length then
    ofBytes bytes
  else
    ofBytes bytes - (256 ^ bytes.length : Nat)

@[simp]
theorem length_toBytesSigned (width : Nat) (value : Int) :
    (toBytesSigned width value).length = width :=
  length_toBytes width _

theorem ofBytesSigned_toBytesSigned {width : Nat} {value : Int}
    (low : -(256 ^ width : Nat) ≤ 2 * value)
    (high : 2 * value < (256 ^ width : Nat)) :
    ofBytesSigned (toBytesSigned width value) = value := by
  have positive : 0 < 256 ^ width := Nat.pow_pos (by decide)
  have bounded : (value % (256 ^ width : Nat)).toNat < 256 ^ width := by
    have below := Int.emod_lt_of_pos value (Int.natCast_pos.mpr positive)
    omega
  rw [ofBytesSigned, length_toBytesSigned, toBytesSigned,
    ofBytes_toBytes_of_lt bounded]
  generalize 256 ^ width = modulus at *
  rcases Int.lt_or_le value 0 with negative | nonnegative
  · have wrapped : value % (modulus : Int) = value + modulus := by
      rw [← Int.add_emod_right, Int.emod_eq_of_lt] <;> omega
    rw [wrapped, if_neg (by omega)]
    omega
  · have small : value % (modulus : Int) = value :=
      Int.emod_eq_of_lt nonnegative (by omega)
    rw [small, if_pos (by omega)]
    omega

/-- A machine word is the residue of the signed number it holds. -/
theorem toNat_word {width : Nat} (word : BitVec width) :
    word.toNat = (word.toInt % (2 ^ width : Nat)).toNat := by
  have bounded := word.isLt
  rw [BitVec.toInt_eq_toNat_cond]
  split
  · rw [Int.emod_eq_of_lt] <;> omega
  · rw [Int.sub_emod_right, Int.emod_eq_of_lt] <;> omega

/-- The bytes of a machine word are those of the signed number it holds. -/
theorem toBytes_word (width : Nat) (word : BitVec (8 * width)) :
    toBytes width word.toNat = toBytesSigned width word.toInt := by
  have modulus : 256 ^ width = 2 ^ (8 * width) := by
    rw [pow_mul]
    norm_num
  rw [toBytesSigned, modulus, toNat_word]

/-- Only the residue of a number is stored. -/
theorem toBytes_mod (width value : Nat) :
    toBytes width (value % 256 ^ width) = toBytes width value := by
  have stored := toBytes_ofBytes (toBytes width value)
  rwa [length_toBytes, ofBytes_toBytes] at stored

end NeoC.Foundation.LittleEndian

namespace NeoC.Foundation.VarInt

/-- The shortest variable-length form of a number below `2 ^ 64`. -/
def encode (value : Nat) : List UInt8 :=
  if value < 0xFD then
    LittleEndian.toBytes 1 value
  else if value ≤ 0xFFFF then
    0xFD :: LittleEndian.toBytes 2 value
  else if value ≤ 0xFFFFFFFF then
    0xFE :: LittleEndian.toBytes 4 value
  else
    0xFF :: LittleEndian.toBytes 8 value

theorem length_encode (value : Nat) :
    (encode value).length =
      if value < 0xFD then 1
      else if value ≤ 0xFFFF then 3
      else if value ≤ 0xFFFFFFFF then 5
      else 9 := by
  unfold encode
  split_ifs <;> rfl

theorem one_le_length_encode (value : Nat) :
    1 ≤ (encode value).length := by
  rw [length_encode]
  split_ifs <;> decide

end NeoC.Foundation.VarInt
