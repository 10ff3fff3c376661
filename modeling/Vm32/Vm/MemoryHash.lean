/-
# Hashes of a part of memory

`vm_calculate_memory_hash` and `vm_calculate_memory_hash_ex` clamp the length they are asked for at
the end of memory, and compare a sum that may have wrapped around to decide whether to clamp.  The
hash of the program is clamped by comparing the length with what is left of memory.  A size has the
type `size_t`, whose width is a parameter.
-/
import Vm32.Vm.Accesses
import Vm32.Vm.Lifecycle
import Vm32.Vm.Loader

namespace Vm32

open Logged

/-- A hash function applied to a range of memory. -/
def hashRange (hash : List UInt8 → UInt32) (vm : VmState) (start n : ℕ) : Logged Access UInt32 := do
  tell (.range start n)
  pure (hash (memBytes vm.mem start n))

/-- The common body of `vm_calculate_memory_hash` and `vm_calculate_memory_hash_ex`, for a
`size_t` of `w` bits. -/
def clampMemoryHash (hash : List UInt8 → UInt32) (w : ℕ) (vm : VmState) (startAddr : UInt32)
    (length : BitVec w) : Logged Access UInt32 :=
  if vmMemBytes ≤ startAddr.toNat then pure 0
  else
    let length :=
      if vmMemBytes < (BitVec.ofNat w startAddr.toNat + length).toNat then
        BitVec.ofNat w (vmMemBytes - startAddr.toNat)
      else length
    hashRange hash vm startAddr.toNat length.toNat

/-- `vm_calculate_memory_hash`. -/
def vmCalculateMemoryHash (w : ℕ) (vm : VmState) (startAddr : UInt32) (length : BitVec w) :
    Logged Access UInt32 :=
  clampMemoryHash crc32 w vm startAddr length

/-- `vm_calculate_memory_hash_ex`. -/
def vmCalculateMemoryHashEx (w : ℕ) (vm : VmState) (startAddr : UInt32) (length : BitVec w)
    (algo : HashAlgorithm) : Logged Access UInt32 :=
  clampMemoryHash (hashBuffer · algo) w vm startAddr length

/-- `vm_calculate_program_hash_ex`. -/
def vmCalculateProgramHashEx (vm : VmState) (algo : HashAlgorithm) : Logged Access UInt32 :=
  if vm.programSize == 0 then pure 0
  else if vmMemBytes ≤ vm.pcStart.toNat then pure 0
  else
    let hashSize := vm.programSize.toNat
    let hashSize :=
      if vmMemBytes - vm.pcStart.toNat < hashSize then vmMemBytes - vm.pcStart.toNat
      else hashSize
    hashRange (hashBuffer · algo) vm vm.pcStart.toNat hashSize

/-- The hash of the part of the range that is in memory, and 0 for a range that starts behind the
end of memory. -/
def memoryHashSpec (hash : List UInt8 → UInt32) (vm : VmState) (start length : ℕ) : UInt32 :=
  if start < vmMemBytes then hash (memBytes vm.mem start (min (start + length) vmMemBytes - start))
  else 0

/-- A computation that reads only memory and gives the hash of the right part of it. -/
def ReadsClamped (hash : List UInt8 → UInt32) (vm : VmState) (start length : ℕ)
    (x : Logged Access UInt32) : Prop :=
  Every Access.Safe x ∧ x.value = memoryHashSpec hash vm start length

section Clamp

variable {hash : List UInt8 → UInt32} {w : ℕ} {vm : VmState} {startAddr : UInt32}
  {length : BitVec w}

@[simp] lemma safe_hashRange (start n : ℕ) :
    Every Access.Safe (hashRange hash vm start n) ↔ start + n ≤ vmMemBytes := by
  simp [hashRange, Access.Safe]

lemma readsClamped_hashRange {start n m : ℕ} (hstart : start < vmMemBytes)
    (hn : n = min (start + m) vmMemBytes - start) :
    ReadsClamped hash vm start m (hashRange hash vm start n) := by
  refine ⟨(safe_hashRange start n).2 (by omega), ?_⟩
  rw [memoryHashSpec, if_pos hstart, ← hn]
  rfl

/-- What is hashed, by the number that the code compares with the size of memory. -/
lemma clampMemoryHash_eq (hw : vmMemBytes < 2 ^ w) (hstart : startAddr.toNat < vmMemBytes) :
    clampMemoryHash hash w vm startAddr length =
      hashRange hash vm startAddr.toNat
        (if vmMemBytes < (startAddr.toNat + length.toNat) % 2 ^ w then
          vmMemBytes - startAddr.toNat else length.toNat) := by
  have hsum : (BitVec.ofNat w startAddr.toNat + length).toNat =
      (startAddr.toNat + length.toNat) % 2 ^ w := by
    rw [BitVec.toNat_add, BitVec.toNat_ofNat, Nat.mod_eq_of_lt (hstart.trans hw)]
  have hroom : (BitVec.ofNat w (vmMemBytes - startAddr.toNat)).toNat =
      vmMemBytes - startAddr.toNat := by
    rw [BitVec.toNat_ofNat, Nat.mod_eq_of_lt (by omega)]
  rw [clampMemoryHash, if_neg (not_le.2 hstart), hsum]
  simp only [apply_ite BitVec.toNat, hroom]

lemma clampMemoryHash_of_outside (hout : vmMemBytes ≤ startAddr.toNat) :
    ReadsClamped hash vm startAddr.toNat length.toNat
      (clampMemoryHash hash w vm startAddr length) := by
  rw [ReadsClamped, clampMemoryHash, if_pos hout, memoryHashSpec, if_neg (not_lt.2 hout)]
  exact ⟨every_pure 0, rfl⟩

/-- The clamp is right as long as the sum does not wrap around. -/
lemma clampMemoryHash_of_fits (hw : vmMemBytes < 2 ^ w) (hstart : startAddr.toNat < vmMemBytes)
    (hfits : startAddr.toNat + length.toNat < 2 ^ w) :
    ReadsClamped hash vm startAddr.toNat length.toNat
      (clampMemoryHash hash w vm startAddr length) := by
  rw [clampMemoryHash_eq hw hstart, Nat.mod_eq_of_lt hfits]
  refine readsClamped_hashRange hstart ?_
  split_ifs <;> omega

/-- A sum that wraps around is small, and nothing is clamped. -/
lemma clampMemoryHash_of_wraps (hw : vmMemBytes < 2 ^ w) (hstart : startAddr.toNat < vmMemBytes)
    (hwraps : 2 ^ w ≤ startAddr.toNat + length.toNat) :
    ¬Every Access.Safe (clampMemoryHash hash w vm startAddr length) := by
  have hlt := length.isLt
  have hsum : (startAddr.toNat + length.toNat) % 2 ^ w =
      startAddr.toNat + length.toNat - 2 ^ w := by
    rw [Nat.mod_eq_sub_mod hwraps, Nat.mod_eq_of_lt (by omega)]
  rw [clampMemoryHash_eq hw hstart, hsum, if_neg (by omega), safe_hashRange]
  omega

lemma readsClamped_iff (hw : vmMemBytes < 2 ^ w) :
    ReadsClamped hash vm startAddr.toNat length.toNat
        (clampMemoryHash hash w vm startAddr length) ↔
      vmMemBytes ≤ startAddr.toNat ∨ startAddr.toNat + length.toNat < 2 ^ w := by
  constructor
  · intro h
    by_contra hcon
    rw [not_or, not_le, not_lt] at hcon
    exact clampMemoryHash_of_wraps hw hcon.1 hcon.2 h.1
  · rintro (hout | hfits)
    · exact clampMemoryHash_of_outside hout
    · rcases lt_or_ge startAddr.toNat vmMemBytes with hin | hout
      · exact clampMemoryHash_of_fits hw hin hfits
      · exact clampMemoryHash_of_outside hout

end Clamp

/-- For both widths of `size_t`, the two functions stay in memory and hash what they are asked for,
clamped at the end of memory, if and only if the range starts behind the end of memory or the sum
of its start and its length does not wrap around. -/
theorem memory_hash_clamped_iff {w : ℕ} (hw : w = 32 ∨ w = 64) (vm : VmState) (startAddr : UInt32)
    (length : BitVec w) (algo : HashAlgorithm) :
    (ReadsClamped crc32 vm startAddr.toNat length.toNat
        (vmCalculateMemoryHash w vm startAddr length) ↔
      vmMemBytes ≤ startAddr.toNat ∨ startAddr.toNat + length.toNat < 2 ^ w) ∧
    (ReadsClamped (hashBuffer · algo) vm startAddr.toNat length.toNat
        (vmCalculateMemoryHashEx w vm startAddr length algo) ↔
      vmMemBytes ≤ startAddr.toNat ∨ startAddr.toNat + length.toNat < 2 ^ w) := by
  have hmem : vmMemBytes < 2 ^ w := by
    rcases hw with rfl | rfl <;> decide
  exact ⟨readsClamped_iff hmem, readsClamped_iff hmem⟩

/-- A length that is larger than memory. -/
theorem memory_hash_clamped_iff_size_max :
    (ReadsClamped crc32 vmCreate 8 (2 ^ 64 - 9) (vmCalculateMemoryHash 64 vmCreate 8 (-9)) ↔
      vmMemBytes ≤ 8 ∨ 8 + (2 ^ 64 - 9) < 2 ^ 64) ∧
    (ReadsClamped (hashBuffer · .simpleFnv1a) vmCreate 8 (2 ^ 64 - 9)
        (vmCalculateMemoryHashEx 64 vmCreate 8 (-9) .simpleFnv1a) ↔
      vmMemBytes ≤ 8 ∨ 8 + (2 ^ 64 - 9) < 2 ^ 64) :=
  memory_hash_clamped_iff (Or.inr rfl) vmCreate 8 (-9) .simpleFnv1a

/-- The range from address 8 on that is as long as `SIZE_MAX` is read behind the end of memory. -/
theorem memory_hash_out_of_bounds :
    ¬ReadsClamped crc32 vmCreate 8 (2 ^ 64 - 1) (vmCalculateMemoryHash 64 vmCreate 8 (-1)) ∧
      ¬ReadsClamped (hashBuffer · .crc32) vmCreate 8 (2 ^ 64 - 1)
        (vmCalculateMemoryHashEx 64 vmCreate 8 (-1) .crc32) :=
  ⟨fun h => clampMemoryHash_of_wraps (by decide) (by decide) (by decide) h.1,
    fun h => clampMemoryHash_of_wraps (by decide) (by decide) (by decide) h.1⟩

/-- The hash of a program is clamped by a difference, and always right. -/
theorem program_hash_clamped {vm : VmState} (hsize : vm.programSize ≠ 0) (algo : HashAlgorithm) :
    ReadsClamped (hashBuffer · algo) vm vm.pcStart.toNat vm.programSize.toNat
      (vmCalculateProgramHashEx vm algo) := by
  rw [vmCalculateProgramHashEx, if_neg (by simpa using hsize)]
  split_ifs with hout
  · rw [ReadsClamped, memoryHashSpec, if_neg (not_lt.2 hout)]
    exact ⟨every_pure 0, rfl⟩
  · refine readsClamped_hashRange (not_le.1 hout) ?_
    split_ifs <;> omega

end Vm32
