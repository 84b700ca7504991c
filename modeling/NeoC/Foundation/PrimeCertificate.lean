import Mathlib.Data.List.Prime
import Mathlib.NumberTheory.LucasPrimality

/-!
# Certificates of primality

A number is prime if some residue has the order of the whole group of units.
Lucas's test checks this with one power for the number itself and one for
every prime of a factorization of its predecessor.  The powers are taken by
squaring, so that the kernel can take them of large numbers.
-/

namespace NeoC.Foundation.PrimeCertificate

/-- `base ^ exponent % modulus`, for an exponent of `width` binary digits. -/
def powMod (modulus : Nat) : (width base exponent : Nat) → Nat
  | 0, _, _ => 1 % modulus
  | width + 1, base, exponent =>
      (if exponent % 2 = 1 then base else 1) *
          powMod modulus width (base * base % modulus) (exponent / 2) %
        modulus

theorem powMod_eq (modulus : Nat) {width base exponent : Nat}
    (fits : exponent < 2 ^ width) :
    powMod modulus width base exponent = base ^ exponent % modulus := by
  induction width generalizing base exponent with
  | zero =>
      rw [Nat.pow_zero, Nat.lt_one_iff] at fits
      rw [fits, powMod, Nat.pow_zero]
  | succ width induction =>
      have half : exponent / 2 < 2 ^ width := by
        rw [Nat.pow_succ] at fits
        omega
      have squares :
          powMod modulus width (base * base % modulus) (exponent / 2) =
            base ^ (2 * (exponent / 2)) % modulus := by
        rw [induction half, ← Nat.pow_mod, ← Nat.pow_two, ← Nat.pow_mul]
      have parts := Nat.div_add_mod exponent 2
      rw [powMod, squares, Nat.mul_mod_mod]
      split
      · rename_i odd
        conv_rhs => rw [← parts, odd, Nat.pow_succ, Nat.mul_comm]
      · rename_i even
        rw [Nat.one_mul]
        congr 2
        omega

/-- What is computed for a witness and the factors of the predecessor. -/
def passes (number width witness : Nat) (factors : List Nat) : Bool :=
  decide (1 < number) && decide (number ≤ 2 ^ width) &&
    decide (factors.prod = number - 1) &&
    decide (powMod number width witness (number - 1) = 1) &&
    factors.all fun factor =>
      decide (powMod number width witness ((number - 1) / factor) ≠ 1)

/-- Powers of residues are powers of numbers. -/
theorem residue_pow_eq_one {number : Nat} (large : 1 < number)
    (witness exponent : Nat) :
    (witness : ZMod number) ^ exponent = 1 ↔
      witness ^ exponent % number = 1 := by
  have one : 1 % number = 1 := Nat.mod_eq_of_lt large
  have compared :=
    ZMod.natCast_eq_natCast_iff' (witness ^ exponent) 1 number
  rwa [Nat.cast_pow, Nat.cast_one, one] at compared

/-- A number with a certificate is prime. -/
theorem prime_of_passes {number width witness : Nat} {factors : List Nat}
    (primes : ∀ factor ∈ factors, factor.Prime)
    (passed : passes number width witness factors = true) :
    number.Prime := by
  rw [passes, Bool.and_eq_true, Bool.and_eq_true, Bool.and_eq_true,
    Bool.and_eq_true] at passed
  rcases passed with ⟨⟨⟨⟨large, fits⟩, product⟩, whole⟩, proper⟩
  have large := of_decide_eq_true large
  have fits := of_decide_eq_true fits
  have product := of_decide_eq_true product
  have whole := of_decide_eq_true whole
  have bounded :
      ∀ exponent, exponent ≤ number - 1 → exponent < 2 ^ width := by
    intro exponent small
    omega
  apply lucas_primality number (witness : ZMod number)
  · rw [residue_pow_eq_one large, ← powMod_eq number (bounded _ le_rfl)]
    exact whole
  · intro divisor prime divides
    rw [← product] at divides
    rcases (Prime.dvd_prod_iff prime.prime).mp divides with
      ⟨factor, member, divides⟩
    have same : divisor = factor :=
      (Nat.prime_dvd_prime_iff_eq prime (primes factor member)).mp divides
    subst same
    have different :=
      of_decide_eq_true (List.all_eq_true.mp proper divisor member)
    rw [Ne, residue_pow_eq_one large,
      ← powMod_eq number (bounded _ (Nat.div_le_self _ _))]
    exact different

end NeoC.Foundation.PrimeCertificate
