import Mathlib.Data.ZMod.Basic
import Mathlib.GroupTheory.OrderOfElement
import Mathlib.Tactic.LinearCombination

/-!
# The algebra of signatures

A signature over a group is checked with inverses modulo the order, and a
public key is recovered from one with other inverses modulo the order.  Both
are sums of two multiples, and the second one undoes the first.
-/

namespace NeoC.Foundation.SignatureAlgebra

/-- The inverse of a number modulo another, where there is one. -/
def modInverse (value modulus : Nat) : Option Nat :=
  if Nat.gcd value modulus = 1 then
    some ((Nat.gcdA value modulus) % modulus).toNat
  else
    none

/-- What is found is an inverse. -/
theorem mul_of_modInverse {value modulus inverse : Nat}
    (positive : 0 < modulus)
    (found : modInverse value modulus = some inverse) :
    (value : ZMod modulus) * inverse = 1 := by
  rw [modInverse] at found
  split at found
  · rename_i coprime
    injection found with same
    have nonnegative : 0 ≤ Nat.gcdA value modulus % (modulus : Int) :=
      Int.emod_nonneg _ (by omega)
    have cast :
        ((inverse : Nat) : ZMod modulus) =
          ((Nat.gcdA value modulus : Int) : ZMod modulus) := by
      rw [← same, ← Int.cast_natCast, Int.toNat_of_nonneg nonnegative,
        ZMod.intCast_mod]
    have bezout := Nat.gcd_eq_gcd_ab value modulus
    rw [coprime] at bezout
    have residues :=
      congrArg (fun number : Int => (number : ZMod modulus)) bezout
    simp only [Int.cast_add, Int.cast_mul, Int.cast_natCast,
      ZMod.natCast_self, zero_mul, add_zero, Nat.cast_one,
      Int.cast_one] at residues
    rw [cast]
    exact residues.symm
  · cases found

/-- Below a prime every number but zero has an inverse. -/
theorem exists_modInverse {value modulus : Nat} (prime : modulus.Prime)
    (positive : 0 < value) (below : value < modulus) :
    ∃ inverse, modInverse value modulus = some inverse := by
  have coprime : Nat.gcd value modulus = 1 :=
    Nat.Coprime.symm
      ((Nat.Prime.coprime_iff_not_dvd prime).mpr
        (Nat.not_dvd_of_pos_of_lt positive below))
  rw [modInverse, if_pos coprime]
  exact ⟨_, rfl⟩

section Group

variable {Element : Type} [AddCommGroup Element] {modulus : Nat}

/-- Multiples of an element depend on the residue alone. -/
theorem nsmul_congr {element : Element}
    (order : modulus • element = 0) {first second : Nat}
    (same : (first : ZMod modulus) = second) :
    first • element = second • element := by
  have residues := (ZMod.natCast_eq_natCast_iff first second modulus).mp same
  exact
    nsmul_eq_nsmul_iff_modEq.mpr
      (residues.of_dvd (addOrderOf_dvd_of_nsmul_eq_zero order))

/-- The negative of a number modulo another. -/
def modNegate (value modulus : Nat) : Nat :=
  (modulus - value % modulus) % modulus

theorem cast_modNegate (positive : 0 < modulus) (value : Nat) :
    ((modNegate value modulus : Nat) : ZMod modulus) = -value := by
  have small := Nat.mod_lt value positive
  rw [modNegate, ZMod.natCast_mod, Nat.cast_sub small.le,
    ZMod.natCast_self, ZMod.natCast_mod, zero_sub]

/--
The key that is recovered from a commitment verifies it: the sum that the
verifier computes is the commitment itself.
-/
theorem recovered_verifies
    (positive : 0 < modulus)
    {generator commitment : Element}
    (orderGenerator : modulus • generator = 0)
    (orderCommitment : modulus • commitment = 0)
    {r s digest rInverse sInverse : Nat}
    (inverts : (r : ZMod modulus) * rInverse = 1)
    (inverts' : (s : ZMod modulus) * sInverse = 1) :
    (digest * sInverse % modulus) • generator +
        (r * sInverse % modulus) •
          ((s * rInverse % modulus) • commitment +
            (modNegate digest modulus * rInverse % modulus) • generator) =
      commitment := by
  have negated := cast_modNegate positive digest
  have commitments :
      (r * sInverse % modulus * (s * rInverse % modulus)) • commitment =
        1 • commitment := by
    apply nsmul_congr orderCommitment
    simp only [Nat.cast_mul, ZMod.natCast_mod, Nat.cast_one]
    linear_combination
      (s * sInverse : ZMod modulus) * inverts + inverts'
  have generators :
      (digest * sInverse % modulus +
          r * sInverse % modulus *
            (modNegate digest modulus * rInverse % modulus)) • generator =
        0 • generator := by
    apply nsmul_congr orderGenerator
    simp only [Nat.cast_add, Nat.cast_mul, ZMod.natCast_mod, Nat.cast_zero,
      negated]
    linear_combination (-(digest : ZMod modulus) * sInverse) * inverts
  rw [nsmul_add, ← mul_nsmul', ← mul_nsmul', add_left_comm, ← add_nsmul,
    commitments, generators, one_nsmul, zero_nsmul, add_zero]

end Group

end NeoC.Foundation.SignatureAlgebra
