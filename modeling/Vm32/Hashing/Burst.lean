/-
# The rounds of CRC-32

A byte step of CRC-32 is eight rounds from the state with the byte added to it, and the four
steps of a 32-bit word are thirty-two rounds from the state with the word added to it.  The
rounds are linear and injective.  So the bytes of a word determine the word.
-/
import Vm32.Hashing.Checksum

namespace Vm32

/-! ### Rounds -/

lemma and_one_ne_zero_iff (x : UInt32) : x &&& 1 ≠ 0 ↔ x.toNat % 2 = 1 := by
  rw [Ne, ← UInt32.toNat_inj, UInt32.toNat_and]
  simp only [UInt32.reduceToNat, Nat.and_one_is_mod]
  omega

/-- A round is linear. -/
lemma crc32Round_xor (x y : UInt32) : crc32Round (x ^^^ y) = crc32Round x ^^^ crc32Round y := by
  simp only [crc32Round, and_one_ne_zero_iff, UInt32.toNat_xor, Nat.xor_mod_two_eq_one,
    UInt32.shiftRight_xor]
  by_cases hx : x.toNat % 2 = 1 <;> by_cases hy : y.toNat % 2 = 1 <;>
    simp only [hx, hy, not_true_eq_false, not_false_eq_true, if_true, if_false, iff_self, iff_false,
      iff_true]
  · -- the two polynomials cancel
    rw [UInt32.xor_assoc, ← UInt32.xor_assoc crc32Polynomial, UInt32.xor_comm crc32Polynomial,
      UInt32.xor_assoc, UInt32.xor_self, UInt32.xor_zero]
  · rw [UInt32.xor_assoc, UInt32.xor_comm (y >>> 1), ← UInt32.xor_assoc]
  · rw [UInt32.xor_assoc]

/-- A round on an even state is a shift. -/
lemma toNat_crc32Round {x : UInt32} (hx : x.toNat % 2 = 0) :
    (crc32Round x).toNat = x.toNat / 2 := by
  have heven : ¬x &&& 1 ≠ 0 := by
    rw [and_one_ne_zero_iff]
    omega
  rw [crc32Round, if_neg heven, UInt32.toNat_shiftRight]
  rfl

/-- A round loses nothing. -/
lemma crc32Round_injective : Function.Injective crc32Round := by
  intro x y hxy
  have hzero : crc32Round (x ^^^ y) = 0 := by
    rw [crc32Round_xor, hxy, UInt32.xor_self]
  rw [← UInt32.xor_eq_zero_iff]
  generalize x ^^^ y = z at hzero ⊢
  by_cases hodd : z &&& 1 ≠ 0
  · -- the polynomial has its highest bit set
    rw [crc32Round, if_pos hodd, UInt32.xor_eq_zero_iff] at hzero
    have hhalf : (z >>> 1).toNat = z.toNat / 2 := by
      rw [UInt32.toNat_shiftRight]
      rfl
    rw [hzero] at hhalf
    have hlt := z.toNat_lt
    have hpoly : crc32Polynomial.toNat = 0xEDB88320 := rfl
    omega
  · rw [and_one_ne_zero_iff] at hodd
    have hhalf := toNat_crc32Round (x := z) (by omega)
    rw [hzero] at hhalf
    rw [← UInt32.toNat_inj]
    simp only [UInt32.reduceToNat] at hhalf ⊢
    omega

lemma iterate_crc32Round_xor (n : ℕ) (x y : UInt32) :
    crc32Round^[n] (x ^^^ y) = crc32Round^[n] x ^^^ crc32Round^[n] y := by
  induction n generalizing x y with
  | zero => rfl
  | succ n ih => simp only [Function.iterate_succ_apply, crc32Round_xor, ih]

/-- The rounds move a state down as long as only zeros leave it. -/
lemma toNat_iterate_crc32Round {n : ℕ} {x : UInt32} (hx : x.toNat % 2 ^ n = 0) :
    (crc32Round^[n] x).toNat = x.toNat / 2 ^ n := by
  induction n generalizing x with
  | zero => simp
  | succ n ih =>
    rw [pow_succ', Nat.mod_mul] at hx
    have hhalf := toNat_crc32Round (x := x) (by omega)
    rw [Function.iterate_succ_apply, ih (by rw [hhalf]; omega), hhalf, Nat.div_div_eq_div_mul,
      pow_succ']

/-! ### Bytes and words -/

/-- Eight rounds, by the table. -/
lemma iterate_crc32Round_eight (x : UInt32) :
    crc32Round^[8] x = crc32Table x.toUInt8 ^^^ (x >>> 8) := by
  have hlt := x.toNat_lt
  have hshift : (x >>> 8).toNat = x.toNat / 2 ^ 8 := by
    rw [UInt32.toNat_shiftRight, Nat.shiftRight_eq_div_pow]
    rfl
  have hback : ((x >>> 8) <<< 8).toNat = x.toNat / 2 ^ 8 * 2 ^ 8 := by
    rw [UInt32.toNat_shiftLeft, hshift, Nat.shiftLeft_eq]
    exact Nat.mod_eq_of_lt (by change x.toNat / 2 ^ 8 * 2 ^ 8 < 2 ^ 32; omega)
  have hlow : x = x.toUInt8.toUInt32 ^^^ ((x >>> 8) <<< 8) := by
    rw [← UInt32.toNat_inj, UInt32.toNat_xor, hback, UInt8.toNat_toUInt32, UInt32.toNat_toUInt8]
    have hdiv : (x.toNat % 2 ^ 8 ^^^ x.toNat / 2 ^ 8 * 2 ^ 8) / 2 ^ 8 = x.toNat / 2 ^ 8 := by
      rw [Nat.xor_div_two_pow, Nat.mul_div_cancel _ (by decide), Nat.div_eq_of_lt (by omega),
        Nat.zero_xor]
    have hmod : (x.toNat % 2 ^ 8 ^^^ x.toNat / 2 ^ 8 * 2 ^ 8) % 2 ^ 8 = x.toNat % 2 ^ 8 := by
      rw [Nat.xor_mod_two_pow, Nat.mul_mod_left, Nat.xor_zero, Nat.mod_mod]
    omega
  have hhigh : crc32Round^[8] ((x >>> 8) <<< 8) = x >>> 8 := by
    rw [← UInt32.toNat_inj, toNat_iterate_crc32Round (by rw [hback, Nat.mul_mod_left]), hback,
      hshift, Nat.mul_div_cancel _ (by decide)]
  conv_lhs => rw [hlow, iterate_crc32Round_xor, hhigh]
  rfl

/-- The byte step for the lowest byte of a word leaves the rest of the word to be added. -/
lemma crc32Byte_toUInt8 (crc w : UInt32) :
    crc32Byte crc w.toUInt8 = crc32Round^[8] (crc ^^^ w) ^^^ (w >>> 8) := by
  have hindex : ((crc ^^^ w.toUInt8.toUInt32) &&& 0xFF).toUInt8 = (crc ^^^ w).toUInt8 := by
    rw [UInt32.toUInt8_and, UInt32.toUInt8_xor, UInt32.toUInt8_xor, UInt8.toUInt8_toUInt32]
    exact UInt8.and_neg_one
  rw [iterate_crc32Round_eight, crc32Byte, hindex, UInt32.shiftRight_xor, UInt32.xor_assoc,
    UInt32.xor_assoc, UInt32.xor_self, UInt32.xor_zero, UInt32.xor_comm]

/-- The steps of a word. -/
lemma foldl_crc32Byte_uint32Bytes (crc w : UInt32) :
    (uint32Bytes w).foldl crc32Byte crc = crc32Round^[32] (crc ^^^ w) := by
  have hlt := w.toNat_lt
  have hshift : (w >>> 8) >>> 8 = w >>> 16 ∧ (w >>> 16) >>> 8 = w >>> 24 ∧
      (w >>> 24) >>> 8 = 0 := by
    simp only [← UInt32.toNat_inj, UInt32.toNat_shiftRight, Nat.shiftRight_eq_div_pow,
      UInt32.reduceToNat, Nat.reduceMod]
    omega
  simp only [uint32Bytes, List.foldl_cons, List.foldl_nil, crc32Byte_toUInt8, hshift,
    UInt32.xor_assoc, UInt32.xor_self, UInt32.xor_zero]
  rfl

lemma uint32Bytes_injective : Function.Injective uint32Bytes := by
  intro v w hvw
  have hrounds : crc32Round^[32] (0 ^^^ v) = crc32Round^[32] (0 ^^^ w) := by
    rw [← foldl_crc32Byte_uint32Bytes, ← foldl_crc32Byte_uint32Bytes, hvw]
  exact (UInt32.xor_right_inj _).1 (crc32Round_injective.iterate 32 hrounds)

end Vm32
