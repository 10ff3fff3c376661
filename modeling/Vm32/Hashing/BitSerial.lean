/-
# CRC-32 bit by bit

The definition that CRC-32 is known by takes the input one bit at a time, the bits of a byte least
significant first.  The table-driven loops of `hashing.c` compute this checksum, in one go or
chunk by chunk.  Up to 32 bits are taken in by thirty-two rounds from the state with these bits
added to it; so two inputs whose differences lie within 32 consecutive bits have different
checksums.
-/
import Mathlib.Data.Nat.Bitwise
import Vm32.Hashing.Burst
import Vm32.Lib.FoldHash

namespace Vm32

open FoldHash Function

/-! ### The definition -/

/-- The bits of a byte string, those of each byte least significant first. -/
def bitsOf (data : List UInt8) : List Bool :=
  data.flatMap fun b => (List.range 8).map b.toNat.testBit

/-- One bit of reflected CRC-32: the state is shifted, and the polynomial is added to it if the bit
that leaves it differs from the bit of the input. -/
def crc32BitStep (crc : UInt32) (bit : Bool) : UInt32 :=
  if (crc.toNat.testBit 0 != bit) then (crc >>> 1) ^^^ 0xEDB88320 else crc >>> 1

/-- CRC-32, bit by bit. -/
def crc32Bitwise (data : List UInt8) : UInt32 :=
  (bitsOf data).foldl crc32BitStep 0xFFFFFFFF ^^^ 0xFFFFFFFF

/-! ### Windows of at most 32 bits -/

/-- The number with the given binary digits, the least significant one first. -/
def bitsNat (bits : List Bool) : ℕ := bits.foldr Nat.bit 0

@[simp] lemma bitsNat_cons (b : Bool) (bits : List Bool) :
    bitsNat (b :: bits) = Nat.bit b (bitsNat bits) := rfl

lemma bitsNat_lt (bits : List Bool) : bitsNat bits < 2 ^ bits.length := by
  induction bits with
  | nil => exact Nat.one_pos
  | cons b bits ih =>
    rw [bitsNat_cons, Nat.bit_val, List.length_cons, pow_succ]
    cases b
    · simp
      omega
    · simp
      omega

/-- The digits are determined by the number. -/
lemma bitsNat_inj {u v : List Bool} (hlen : u.length = v.length) (heq : bitsNat u = bitsNat v) :
    u = v := by
  induction u generalizing v with
  | nil => exact (List.length_eq_zero_iff.1 hlen.symm).symm
  | cons b u ih =>
    cases v with
    | nil => simp at hlen
    | cons c v =>
      simp only [bitsNat_cons, Nat.bit_val] at heq
      have hb : b = c := by
        revert heq
        cases b <;> cases c <;> simp <;> omega
      rw [hb, ih (Nat.succ.inj hlen) (by rw [hb] at heq; omega)]

lemma bitsNat_map_testBit (n x : ℕ) : bitsNat ((List.range n).map x.testBit) = x % 2 ^ n := by
  induction n generalizing x with
  | zero => simp [bitsNat, Nat.mod_one]
  | succ n ih =>
    have htail : (List.range n).map (x.testBit ∘ Nat.succ) =
        (List.range n).map (x / 2).testBit :=
      List.map_congr_left fun i _ => Nat.testBit_succ x i
    rw [List.range_succ_eq_map, List.map_cons, List.map_map, bitsNat_cons, htail, ih, Nat.bit_val,
      pow_succ', Nat.mod_mul, Nat.testBit_zero]
    rcases Nat.mod_two_eq_zero_or_one x with hx | hx
    · simp [hx]
    · simp [hx]
      omega

/-- The step is a round from the state with the bit added to it. -/
lemma crc32BitStep_eq (crc : UInt32) (b : Bool) :
    crc32BitStep crc b = crc32Round (crc ^^^ UInt32.ofNat b.toNat) := by
  have hshift : (crc ^^^ UInt32.ofNat b.toNat) >>> 1 = crc >>> 1 := by
    rw [UInt32.shiftRight_xor]
    cases b <;> exact UInt32.xor_zero
  have hbit : (crc ^^^ UInt32.ofNat b.toNat) &&& 1 ≠ 0 ↔ (crc.toNat.testBit 0 != b) = true := by
    rw [and_one_ne_zero_iff, UInt32.toNat_xor, Nat.xor_mod_two_eq_one, Nat.testBit_zero]
    cases b <;> simp
  rw [crc32BitStep, crc32Round, hshift]
  exact if_congr hbit.symm rfl rfl

/-- The first digit of a number and the others, one place up. -/
lemma bitsNat_cons_eq_xor (b : Bool) (bits : List Bool) :
    bitsNat (b :: bits) = b.toNat ^^^ (2 * bitsNat bits) := by
  have hb : b.toNat = Nat.bit b 0 := by cases b <;> rfl
  have hdouble : 2 * bitsNat bits = Nat.bit false (bitsNat bits) := by simp [Nat.bit_val]
  rw [bitsNat_cons, hb, hdouble, Nat.xor_bit]
  simp

/-- A round moves a word down by one place if only a zero leaves it. -/
lemma crc32Round_double {n : ℕ} (hn : n < 2 ^ 31) :
    crc32Round (UInt32.ofNat (2 * n)) = UInt32.ofNat n := by
  have hdouble : (UInt32.ofNat (2 * n)).toNat = 2 * n :=
    UInt32.toNat_ofNat_of_lt' (by change 2 * n < 2 ^ 32; omega)
  have hsingle : (UInt32.ofNat n).toNat = n :=
    UInt32.toNat_ofNat_of_lt' (by change n < 2 ^ 32; omega)
  rw [← UInt32.toNat_inj, toNat_crc32Round (by rw [hdouble]; omega), hdouble, hsingle]
  omega

/-- A word of at most 32 bits is added to the state in one go: the round of its first bit moves the
others down. -/
lemma foldl_crc32BitStep {bits : List Bool} (hlen : bits.length ≤ 32) (crc : UInt32) :
    bits.foldl crc32BitStep crc = crc32Round^[bits.length] (crc ^^^ UInt32.ofNat (bitsNat bits)) := by
  induction bits generalizing crc with
  | nil => exact UInt32.xor_zero.symm
  | cons b bits ih =>
    have hlen' : bits.length ≤ 31 := Nat.le_of_succ_le_succ hlen
    have hlt : bitsNat bits < 2 ^ 31 :=
      (bitsNat_lt bits).trans_le (Nat.pow_le_pow_right two_pos hlen')
    have hword : UInt32.ofNat (bitsNat (b :: bits)) =
        UInt32.ofNat b.toNat ^^^ UInt32.ofNat (2 * bitsNat bits) := by
      rw [bitsNat_cons_eq_xor, UInt32.ofNat_xor]
    rw [List.foldl_cons, ih (by omega), crc32BitStep_eq, ← crc32Round_double hlt, ← crc32Round_xor,
      UInt32.xor_assoc, ← hword, List.length_cons, iterate_succ_apply]

/-- Different windows of the same length, of at most 32 bits, are told apart. -/
lemma tellsApart_crc32BitStep : TellsApart crc32BitStep 32 := by
  intro crc u v hlen hle heq
  have hlt : ∀ w : List Bool, w.length ≤ 32 → bitsNat w < 2 ^ 32 := fun w hw =>
    (bitsNat_lt w).trans_le (Nat.pow_le_pow_right two_pos hw)
  rw [foldl_crc32BitStep hle, foldl_crc32BitStep (hlen ▸ hle), hlen] at heq
  have hword := (UInt32.xor_right_inj _).1 (crc32Round_injective.iterate v.length heq)
  rw [← UInt32.toNat_inj, UInt32.toNat_ofNat_of_lt' (hlt u hle),
    UInt32.toNat_ofNat_of_lt' (hlt v (hlen ▸ hle))] at hword
  exact bitsNat_inj hlen hword

lemma crc32BitStep_injective (b : Bool) : Injective (crc32BitStep · b) := by
  intro s t hst
  simp only [crc32BitStep_eq] at hst
  exact (UInt32.xor_left_inj _).1 (crc32Round_injective hst)

/-! ### The table computes it -/

/-- The byte step takes in the eight bits of the byte. -/
lemma foldl_crc32BitStep_byte (crc : UInt32) (b : UInt8) :
    ((List.range 8).map b.toNat.testBit).foldl crc32BitStep crc = crc32Byte crc b := by
  have hb : UInt32.ofNat b.toNat = b.toUInt32 := by
    rw [← UInt8.toNat_toUInt32, UInt32.ofNat_toNat]
  have hshift : b.toUInt32 >>> 8 = 0 := by
    rw [← UInt32.toNat_inj, UInt32.toNat_shiftRight, UInt8.toNat_toUInt32]
    exact Nat.shiftRight_eq_zero _ _ b.toNat_lt
  have hstep := crc32Byte_toUInt8 crc b.toUInt32
  rw [UInt8.toUInt8_toUInt32, hshift, UInt32.xor_zero] at hstep
  rw [foldl_crc32BitStep (by simp), bitsNat_map_testBit, Nat.mod_eq_of_lt b.toNat_lt, hb, hstep]
  rfl

lemma foldl_crc32BitStep_bitsOf (data : List UInt8) (crc : UInt32) :
    (bitsOf data).foldl crc32BitStep crc = data.foldl crc32Byte crc := by
  induction data generalizing crc with
  | nil => rfl
  | cons b data ih =>
    rw [bitsOf, List.flatMap_cons, List.foldl_append, ← bitsOf, foldl_crc32BitStep_byte, ih,
      List.foldl_cons]

lemma crc32_eq_crc32Bitwise (data : List UInt8) : crc32 data = crc32Bitwise data := by
  rw [crc32, crc32Bitwise, foldl_crc32BitStep_bitsOf]

/-- However the data is cut into chunks, the incremental functions compute the checksum of the
whole, and for CRC-32 it is the one computed bit by bit. -/
theorem incremental_eq_oneShot (chunks : List (List UInt8)) :
    crc32Finalize (chunks.foldl crc32Update crc32Begin) = crc32 chunks.flatten ∧
      crc32 chunks.flatten = crc32Bitwise chunks.flatten ∧
      fnv1a32Finalize (chunks.foldl fnv1a32Update fnv1a32Begin) = fnv1a32 chunks.flatten := by
  refine ⟨?_, crc32_eq_crc32Bitwise _, ?_⟩
  · exact congrArg crc32Finalize (foldl_chunks chunks crc32Begin)
  · exact congrArg fnv1a32Finalize (foldl_chunks chunks fnv1a32Begin)

/-! ### What the checksums tell apart -/

lemma byteBits_injective : Injective fun b : UInt8 => (List.range 8).map b.toNat.testBit := by
  intro b c hbc
  have hnat := congrArg bitsNat hbc
  rw [bitsNat_map_testBit, bitsNat_map_testBit, Nat.mod_eq_of_lt b.toNat_lt,
    Nat.mod_eq_of_lt c.toNat_lt] at hnat
  exact UInt8.toNat_inj.1 hnat

lemma length_bitsOf (data : List UInt8) : (bitsOf data).length = data.length * 8 :=
  length_flatMap (by simp) data

lemma bitsOf_inj {x y : List UInt8} (hlen : x.length = y.length) (heq : bitsOf x = bitsOf y) :
    x = y :=
  flatMap_inj (b := 8) byteBits_injective (by simp) hlen heq

/-- A window of bytes is a window of bits. -/
lemma differsWithin_bitsOf {n : ℕ} {x y : List UInt8} (h : DiffersWithin n x y) :
    DiffersWithin (n * 8) (bitsOf x) (bitsOf y) :=
  h.flatMap byteBits_injective (by simp)

/-- Inputs whose bits differ within a window of 32 bits have different checksums. -/
lemma crc32_ne_of_bits {x y : List UInt8} (h : DiffersWithin 32 (bitsOf x) (bitsOf y)) :
    crc32 x ≠ crc32 y := by
  rw [crc32_eq_crc32Bitwise, crc32_eq_crc32Bitwise, crc32Bitwise, crc32Bitwise, Ne,
    UInt32.xor_left_inj]
  exact h.foldl_ne crc32BitStep_injective tellsApart_crc32BitStep _

/-- Inputs that differ within four bytes have different checksums. -/
lemma crc32_ne_of_bytes {x y : List UInt8} (h : DiffersWithin 4 x y) : crc32 x ≠ crc32 y :=
  crc32_ne_of_bits (differsWithin_bitsOf h)

/-- The prime of FNV-1a is invertible. -/
lemma fnv1a32_prime_mul : (16777619 : UInt32) * 899433627 = 1 := by decide

lemma mul_fnv1a32_prime_injective : Injective (· * (16777619 : UInt32)) := by
  intro s t hst
  have hinv := congrArg (· * (899433627 : UInt32)) hst
  simpa only [UInt32.mul_assoc, fnv1a32_prime_mul, UInt32.mul_one] using hinv

/-- Inputs that differ in one byte have different FNV-1a hashes. -/
lemma fnv1a32_ne_of_byte {x y : List UInt8} (h : DiffersWithin 1 x y) : fnv1a32 x ≠ fnv1a32 y := by
  have hstep : ∀ b, Injective (fnv1a32Byte · b) := fun b s t hst =>
    (UInt32.xor_left_inj _).1 (mul_fnv1a32_prime_injective hst)
  have hletter : ∀ s, Injective (fnv1a32Byte s) := by
    intro s b c hbc
    have hxor := (UInt32.xor_right_inj _).1 (mul_fnv1a32_prime_injective hbc)
    rw [← UInt32.toNat_inj, UInt8.toNat_toUInt32, UInt8.toNat_toUInt32] at hxor
    exact UInt8.toNat_inj.1 hxor
  exact h.foldl_ne hstep (tellsApart_one hletter) _

end Vm32
