import Mathlib.Tactic.NormNum.Prime
import NeoC.Foundation.PrimeCertificate

/-!
# The order of secp256r1

`EC_GROUP_get_order` gives a prime for the curve of the library, so that every
number below it except zero has an inverse.  The certificate goes down through
seven primes, of which the largest has 91 binary digits.
-/

namespace NeoC

open Foundation.PrimeCertificate

/-- The order of secp256r1, as `EC_GROUP_get_order` gives it. -/
def secp256r1Order : Nat :=
  0xFFFFFFFF00000000FFFFFFFFFFFFFFFFBCE6FAADA7179E84F3B9CAC2FC632551

theorem prime_187019741 : Nat.Prime 187019741 := by
  apply @prime_of_passes _ 28 2 [2, 2, 5, 9350987]
  · simp only [List.forall_mem_cons]
    norm_num
  · decide

theorem prime_191039911 : Nat.Prime 191039911 := by
  apply @prime_of_passes _ 28 3 [2, 3, 5, 41, 155317]
  · simp only [List.forall_mem_cons]
    norm_num
  · decide

theorem prime_311245691 : Nat.Prime 311245691 := by
  apply @prime_of_passes _ 29 2 [2, 5, 7, 17, 29, 29, 311]
  · simp only [List.forall_mem_cons]
    norm_num
  · decide

theorem prime_622491383 : Nat.Prime 622491383 := by
  apply @prime_of_passes _ 30 5 [2, 311245691]
  · simp only [List.forall_mem_cons, prime_311245691]
    norm_num
  · decide

theorem prime_1002328039319 : Nat.Prime 1002328039319 := by
  apply @prime_of_passes _ 40 19 [2, 126241, 3969899]
  · simp only [List.forall_mem_cons]
    norm_num
  · decide

theorem prime_208150935158385979 : Nat.Prime 208150935158385979 := by
  apply @prime_of_passes _ 58 2 [2, 3, 11, 43, 127, 3023, 191039911]
  · simp only [List.forall_mem_cons, prime_191039911]
    norm_num
  · decide

theorem prime_2624747550333869278416773953 :
    Nat.Prime 2624747550333869278416773953 := by
  apply
    @prime_of_passes _ 92 7
      [2, 2, 2, 2, 2, 2, 3, 3, 1297, 16879, 208150935158385979]
  · simp only [List.forall_mem_cons, prime_208150935158385979]
    norm_num
  · decide +kernel

/-- The order of the curve is prime. -/
theorem secp256r1Order_prime : secp256r1Order.Prime := by
  apply
    @prime_of_passes _ 256 7
      [2, 2, 2, 2, 3, 71, 131, 373, 3407, 17449, 38189, 187019741, 622491383,
        1002328039319, 2624747550333869278416773953]
  · simp only [List.forall_mem_cons, prime_187019741, prime_622491383,
      prime_1002328039319, prime_2624747550333869278416773953]
    norm_num
  · decide +kernel

end NeoC
