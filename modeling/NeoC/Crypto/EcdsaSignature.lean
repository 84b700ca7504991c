import NeoC.Crypto.Bip32
import NeoC.Crypto.CurveOrder
import NeoC.Crypto.EcKey

/-!
# Canonical signatures

Of the two numbers `s` and `n - s` that make a signature valid, the canonical
one is the smaller.  `ecdsasignature.c` and `neo_constants.c` each have a
constant for half the order, and both are larger than it: the functions that
judge and make canonical signatures agree with each other on what one of them
has made, and on nothing between half the order and the larger constant.
-/

namespace NeoC

open Foundation
open Bip32 (bin2bn bn2binpad)

/-- `memcmp` on two ranges of the same length. -/
def memcmp : List UInt8 → List UInt8 → Ordering
  | byte :: rest, other :: others =>
      (compare byte.toNat other.toNat).then (memcmp rest others)
  | _, _ => .eq

/-- A `neoc_ecdsa_signature_t`. -/
structure EcdsaSignature where
  r : Bytes 32
  s : Bytes 32
deriving DecidableEq

/-- `neoc_get_secp256r1_half_curve_order`. -/
def secp256r1HalfCurveOrder : Bytes 32 :=
  ⟨[0x7F, 0xFF, 0xFF, 0xFF, 0x80, 0x00, 0x00, 0x00,
    0x80, 0x00, 0x00, 0x00, 0x00, 0x00, 0x00, 0x00,
    0xBC, 0xE6, 0xFA, 0xAD, 0xA7, 0x17, 0x9E, 0x84,
    0xF3, 0xB9, 0xCA, 0xC2, 0xFC, 0x63, 0x25, 0x51], rfl⟩

namespace EcdsaSignature

/-- `SECP256R1_HALF_CURVE_ORDER` of `ecdsasignature.c`. -/
def halfCurveOrder : Bytes 32 :=
  ⟨[0x7F, 0xFF, 0xFF, 0xFF, 0xFF, 0xFF, 0xFF, 0xFF,
    0xFF, 0xFF, 0xFF, 0xFF, 0xFF, 0xFF, 0xFF, 0xFF,
    0x80, 0x00, 0x00, 0x00, 0x00, 0x00, 0x00, 0x00,
    0x00, 0x00, 0x00, 0x00, 0x00, 0x00, 0x00, 0x00], rfl⟩

/-- `neoc_ecdsa_signature_is_canonical`. -/
def isCanonical (signature : EcdsaSignature) : Bool :=
  (memcmp signature.s.val halfCurveOrder.val).isLE

/--
`neoc_signature_make_canonical`, given the order of the group.  `BN_sub` keeps
the sign apart, and `BN_bn2binpad` writes the magnitude.
-/
def makeCanonical (order : Nat) (signature : EcdsaSignature) :
    Outcome EcdsaSignature :=
  if (memcmp signature.s.val secp256r1HalfCurveOrder.val).isLE then
    .ok signature
  else
    let s := ((order : Int) - bin2bn signature.s.val).natAbs
    if 256 ^ 32 ≤ s then
      .error (.error .crypto "Failed to normalize canonical signature")
    else
      .ok { signature with s := bn2binpad s }

end EcdsaSignature

/-! ## Comparing bytes is comparing numbers -/

/-- The first byte counts most. -/
theorem bin2bn_cons (byte : UInt8) (rest : List UInt8) :
    bin2bn (byte :: rest) =
      bin2bn rest + 256 ^ rest.length * byte.toNat := by
  rw [bin2bn, bin2bn, List.reverse_cons, LittleEndian.ofBytes_append,
    List.length_reverse]
  rfl

theorem bin2bn_lt (bytes : List UInt8) :
    bin2bn bytes < 256 ^ bytes.length := by
  have bounded := LittleEndian.ofBytes_lt bytes.reverse
  rwa [List.length_reverse] at bounded

/-- On ranges of the same length, `memcmp` compares the numbers. -/
theorem memcmp_isLE {first second : List UInt8}
    (same : first.length = second.length) :
    (memcmp first second).isLE = true ↔ bin2bn first ≤ bin2bn second := by
  induction first generalizing second with
  | nil =>
      rw [List.eq_nil_of_length_eq_zero same.symm]
      exact iff_of_true rfl le_rfl
  | cons byte rest induction =>
      rcases second with _ | ⟨other, others⟩
      · cases same
      have lengths : rest.length = others.length := Nat.succ.inj same
      have low := bin2bn_lt rest
      have low' := bin2bn_lt others
      rw [memcmp, bin2bn_cons, bin2bn_cons, lengths]
      rw [lengths] at low
      rcases lt_trichotomy byte.toNat other.toNat with less | equal | greater
      · rw [compare_lt_iff_lt.mpr less]
        have step : byte.toNat + 1 ≤ other.toNat := less
        have scaled :=
          Nat.mul_le_mul_left (256 ^ others.length) step
        rw [Nat.mul_succ] at scaled
        exact iff_of_true rfl (by omega)
      · rw [equal, compare_eq_iff_eq.mpr rfl, Ordering.eq_then,
          induction lengths]
        omega
      · rw [compare_gt_iff_gt.mpr greater]
        have step : other.toNat + 1 ≤ byte.toNat := greater
        have scaled :=
          Nat.mul_le_mul_left (256 ^ others.length) step
        rw [Nat.mul_succ] at scaled
        exact iff_of_false Bool.false_ne_true (by omega)

/-- What is written into 32 bytes is read back. -/
theorem bin2bn_bn2binpad_of_lt {value : Nat} (fits : value < 256 ^ 32) :
    bin2bn (bn2binpad value).val = value := by
  rw [bin2bn, bn2binpad, Bytes.ofNat, List.reverse_reverse]
  exact LittleEndian.ofBytes_toBytes_of_lt fits

namespace EcdsaSignature

/-! ## The two constants -/

/-- The number of a signature that can be replaced. -/
def sValue (signature : EcdsaSignature) : Nat :=
  bin2bn signature.s.val

/-- Half the order, and the constants that stand for it. -/
def halfOrder : Nat :=
  secp256r1Order / 2

/-- The constant of `neo_constants.c` as a number. -/
def normalBound : Nat :=
  bin2bn secp256r1HalfCurveOrder.val

/-- The constant of `ecdsasignature.c` as a number. -/
def canonicalBound : Nat :=
  bin2bn halfCurveOrder.val

example : normalBound - halfOrder = 0xDE73_7D56D38BCF42_79DCE5617E3192A9 := by
  decide

/-- Both constants are larger than half the order. -/
theorem bounds_ordered :
    halfOrder < normalBound ∧ normalBound < canonicalBound ∧
      canonicalBound < secp256r1Order := by
  decide

theorem isCanonical_iff {signature : EcdsaSignature} :
    signature.isCanonical = true ↔ signature.sValue ≤ canonicalBound :=
  memcmp_isLE (signature.s.property.trans halfCurveOrder.property.symm)

/-- A small number is left as it is. -/
theorem makeCanonical_of_le {signature : EcdsaSignature} {order : Nat}
    (small : signature.sValue ≤ normalBound) :
    makeCanonical order signature = .ok signature := by
  have compared :=
    memcmp_isLE
      (signature.s.property.trans secp256r1HalfCurveOrder.property.symm)
  rw [makeCanonical, if_pos (compared.mpr small)]

/-- A large number is taken from the order. -/
theorem makeCanonical_of_lt {signature : EcdsaSignature}
    (large : normalBound < signature.sValue)
    (below : signature.sValue < secp256r1Order) :
    ∃ canonical,
      makeCanonical secp256r1Order signature = .ok canonical ∧
        canonical.r = signature.r ∧
        canonical.sValue = secp256r1Order - signature.sValue := by
  have compared :=
    memcmp_isLE
      (signature.s.property.trans secp256r1HalfCurveOrder.property.symm)
  have magnitude :
      ((secp256r1Order : Int) - signature.sValue).natAbs =
        secp256r1Order - signature.sValue := by
    omega
  have order : secp256r1Order < 256 ^ 32 := by
    decide
  rw [makeCanonical,
    if_neg (fun small => Nat.not_le_of_lt large (compared.mp small))]
  dsimp only
  rw [← sValue, magnitude, if_neg (by omega)]
  exact ⟨_, rfl, rfl, bin2bn_bn2binpad_of_lt (by omega)⟩

/-! ## Where they are judged alike -/

/--
A signature is canonical exactly when `s` is at most half the order, and
making it canonical takes the smaller of `s` and `n - s`, once and for all.
-/
def JudgedAlike (signature : EcdsaSignature) : Prop :=
  (signature.isCanonical = true ↔ signature.sValue ≤ halfOrder) ∧
    ∃ canonical,
      makeCanonical secp256r1Order signature = .ok canonical ∧
        canonical.r = signature.r ∧
        canonical.sValue =
          min signature.sValue (secp256r1Order - signature.sValue) ∧
        makeCanonical secp256r1Order canonical = .ok canonical ∧
        canonical.isCanonical = true

/-- Made canonical, a signature stays so and is judged canonical. -/
theorem makeCanonical_settles {signature : EcdsaSignature}
    (below : signature.sValue < secp256r1Order) :
    ∃ canonical,
      makeCanonical secp256r1Order signature = .ok canonical ∧
        canonical.r = signature.r ∧
        canonical.sValue =
          (if signature.sValue ≤ normalBound then signature.sValue
            else secp256r1Order - signature.sValue) ∧
        makeCanonical secp256r1Order canonical = .ok canonical ∧
        canonical.isCanonical = true := by
  rcases bounds_ordered with ⟨first, second, -⟩
  have twice : secp256r1Order = 2 * halfOrder + 1 := by
    decide
  rcases Nat.lt_or_ge normalBound signature.sValue with large | small
  · rcases makeCanonical_of_lt large below with
      ⟨canonical, made, sameR, value⟩
    have bounded : canonical.sValue ≤ normalBound := by
      omega
    refine ⟨canonical, made, sameR, ?_, makeCanonical_of_le bounded, ?_⟩
    · rw [if_neg (Nat.not_le_of_lt large), value]
    · exact isCanonical_iff.mpr (by omega)
  · have made := @makeCanonical_of_le signature secp256r1Order small
    refine ⟨signature, made, rfl, ?_, made, ?_⟩
    · rw [if_pos small]
    · exact isCanonical_iff.mpr (by omega)

/--
Signatures are judged alike exactly when `s` is at most half the order or
larger than the constant of `ecdsasignature.c`; in any case a signature that
was made canonical stays as it is and is judged canonical.
-/
theorem judgedAlike_iff
    {signature : EcdsaSignature}
    (below : signature.sValue < secp256r1Order) :
    (signature.JudgedAlike ↔
      signature.sValue ≤ halfOrder ∨
        canonicalBound < signature.sValue) ∧
      ∃ canonical,
        makeCanonical secp256r1Order signature = .ok canonical ∧
          makeCanonical secp256r1Order canonical = .ok canonical ∧
          canonical.isCanonical = true := by
  rcases bounds_ordered with ⟨first, second, -⟩
  have twice : secp256r1Order = 2 * halfOrder + 1 := by
    decide
  rcases makeCanonical_settles below with
    ⟨canonical, made, sameR, value, again, accepted⟩
  refine ⟨?_, canonical, made, again, accepted⟩
  constructor
  · rintro ⟨judged, -⟩
    rw [isCanonical_iff] at judged
    rcases Nat.lt_or_ge canonicalBound signature.sValue with large | small
    · exact .inr large
    · exact .inl (judged.mp small)
  · intro outside
    refine ⟨?_, canonical, made, sameR, ?_, again, accepted⟩
    · rw [isCanonical_iff]
      omega
    · rw [value]
      split
      · omega
      · omega

/-- The signature that is judged alike nowhere: `s` is just above half. -/
def aboveHalf : EcdsaSignature where
  r := bn2binpad 1
  s := bn2binpad (halfOrder + 1)

/-- It is judged canonical and not replaced, although `n - s` is smaller. -/
theorem aboveHalf_accepted :
    aboveHalf.sValue = halfOrder + 1 ∧
      aboveHalf.isCanonical = true ∧
      makeCanonical secp256r1Order aboveHalf = .ok aboveHalf ∧
      secp256r1Order - aboveHalf.sValue < aboveHalf.sValue ∧
      ¬aboveHalf.JudgedAlike := by
  have value : aboveHalf.sValue = halfOrder + 1 :=
    bin2bn_bn2binpad_of_lt (by decide)
  rcases bounds_ordered with ⟨first, second, -⟩
  have twice : secp256r1Order = 2 * halfOrder + 1 := by
    decide
  have accepted : aboveHalf.isCanonical = true :=
    isCanonical_iff.mpr (by omega)
  refine
    ⟨value, accepted, makeCanonical_of_le (by omega), by omega, ?_⟩
  rintro ⟨judged, -⟩
  have small := judged.mp accepted
  omega

/-- A signature with the largest `s` is judged alike. -/
theorem judgedAlike_iff_largest :
    (EcdsaSignature.mk (bn2binpad 1)
      (bn2binpad (secp256r1Order - 1))).JudgedAlike := by
  have value :
      (EcdsaSignature.mk (bn2binpad 1)
        (bn2binpad (secp256r1Order - 1))).sValue = secp256r1Order - 1 :=
    bin2bn_bn2binpad_of_lt (by decide)
  have below :
      (EcdsaSignature.mk (bn2binpad 1)
        (bn2binpad (secp256r1Order - 1))).sValue < secp256r1Order := by
    rw [value]
    decide
  exact
    (judgedAlike_iff below).1.mpr (.inr (by rw [value]; decide))

end EcdsaSignature

end NeoC
