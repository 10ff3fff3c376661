/-
# What the string handlers do to strings

A string of the machine is what stands in memory from an address on, up to the first NUL or up to
the end of memory.  For each string handler a lemma gives memory after it as moves and terminators
with the lengths of the strings in them; the 32-bit sums and the clamped lengths of the code do not
get further than these lemmas.  What a handler means for the string is then a fact about
`BoundedString.str`, whatever the memory.

A handler rewrites the string at an address: afterwards the string there is the new one, and no
byte outside an interval has changed.
-/
import Mathlib.Data.List.DropRight
import Vm32.Lib.BoundedString
import Vm32.Vm.Lifecycle
import Vm32.Vm.Loader
import Vm32.Vm.RunProgram

namespace Vm32

open BoundedString

/-- The string at the address `a`. -/
abbrev strAt (vm : VmState) (a : ℕ) : List UInt8 := str vmMemBytes vm.mem a

/-- After the step the string at `a` is `s`, and no byte below `lo` or above `hi` has changed. -/
structure Rewrites (vm vm' : VmState) (a : ℕ) (s : List UInt8) (lo hi : ℕ) : Prop where
  str : strAt vm' a = s
  frame : ∀ b, b < lo ∨ hi < b → vm'.mem b = vm.mem b

lemma Rewrites.of_mem_eq {vm vm' : VmState} {a lo hi : ℕ} {s : List UInt8}
    (hmem : vm'.mem = vm.mem) (hs : strAt vm a = s) : Rewrites vm vm' a s lo hi :=
  ⟨by rw [strAt, hmem, ← hs], fun b _ => by rw [hmem]⟩

/-! ### Helpers -/

/-- The sum of an address in memory and an offset in memory does not wrap around. -/
lemma toNat_add_of_le {addr n : UInt32} (h : addr.toNat + n.toNat ≤ vmMemBytes) :
    (addr + n).toNat = addr.toNat + n.toNat := by
  rw [UInt32.toNat_add, Nat.mod_eq_of_lt]
  simp only [vmMemBytes] at h
  omega

lemma toNat_ofNat_of_le {n : ℕ} (h : n ≤ vmMemBytes) : (UInt32.ofNat n).toNat = n :=
  UInt32.toNat_ofNat_of_lt' (lt_of_le_of_lt h (by decide))

/-- A position or a count that is cut at a length. -/
lemma toNat_clamp {len : ℕ} (hlen : len ≤ vmMemBytes) (x : UInt32) :
    (if len < x.toNat then UInt32.ofNat len else x).toNat = min x.toNat len := by
  split_ifs with hx
  · rw [toNat_ofNat_of_le hlen, min_eq_right hx.le]
  · rw [min_eq_left (not_lt.1 hx)]

lemma safeMemRemaining_eq (addr : UInt32) : safeMemRemaining addr = vmMemBytes - addr.toNat := by
  rw [safeMemRemaining]
  split_ifs <;> omega

lemma strlenLoop_eq (mem : ℕ → UInt8) (a rem : ℕ) :
    strlenLoop mem a rem = ((window mem a rem).takeWhile (· ≠ 0)).length := by
  induction rem generalizing a with
  | zero => rfl
  | succ rem ih =>
    rw [strlenLoop, window_succ, List.takeWhile_cons]
    by_cases hzero : mem a = 0
    · simp [hzero]
    · simp [hzero, ih]

/-- `safe_strlen_at` returns the length of the string. -/
lemma safeStrlenAt_eq (vm : VmState) (addr : UInt32) :
    safeStrlenAt vm addr = (strAt vm addr.toNat).length := by
  rw [safeStrlenAt, safeMemRemaining_eq, strlenLoop_eq, strAt, str]

/-- A string ends inside memory. -/
lemma add_length_strAt_le (vm : VmState) {a : ℕ} (h : a < vmMemBytes) :
    a + (strAt vm a).length ≤ vmMemBytes := by
  have hle : (strAt vm a).length ≤ vmMemBytes - a := length_str_le vmMemBytes vm.mem a
  omega

@[simp] lemma mem_memmove (vm : VmState) (dest src n : ℕ) :
    (memmove vm dest src n).mem = move vm.mem dest src n := rfl

@[simp] lemma memmove_self (vm : VmState) (a n : ℕ) : memmove vm a a n = vm :=
  congrArg (fun mem => { vm with mem := mem }) (move_self vm.mem a n)

@[simp] lemma mem_setNullAt (vm : VmState) (a : ℕ) :
    (setNullAt vm a).mem = terminate vmMemBytes vm.mem a := by
  rw [setNullAt, terminate]
  split_ifs <;> rfl

/-- A call of `safe_memmove` towards the front of memory is clamped at the end of its source. -/
lemma safeMemmove_of_src_le (vm : VmState) {dest src : UInt32} {a b : ℕ} (hdest : dest.toNat = a)
    (hsrc : src.toNat = b) (hle : a ≤ b) (n : ℕ) :
    safeMemmove vm dest src n = memmove vm a b (min n (vmMemBytes - b)) := by
  have hroom : vmMemBytes - b ≤ vmMemBytes - a := Nat.sub_le_sub_left hle _
  rw [safeMemmove, safeMemRemaining_eq, safeMemRemaining_eq, hdest, hsrc, min_eq_right hroom]

/-- A call of `safe_memmove` with both ranges inside memory is not clamped. -/
lemma safeMemmove_of_le (vm : VmState) {dest src : UInt32} {a b n : ℕ} (hdest : dest.toNat = a)
    (hsrc : src.toNat = b) (ha : a + n ≤ vmMemBytes) (hb : b + n ≤ vmMemBytes) :
    safeMemmove vm dest src n = memmove vm a b n := by
  have hroom : n ≤ min (vmMemBytes - a) (vmMemBytes - b) := by omega
  rw [safeMemmove, safeMemRemaining_eq, safeMemRemaining_eq, hdest, hsrc, min_eq_left hroom]

/-! ### `left`, `right` and `mid` -/

section Cut

variable (h : Host) {vm : VmState} {i : UInt32} {a n : ℕ}

lemma mem_opLeft (ha : (bv vm i).toNat = a) (hn : (cvOrImm vm i).toNat = n)
    (hin : a < vmMemBytes) :
    (opLeft h vm i).mem =
      if (strAt vm a).length ≤ n then vm.mem else terminate vmMemBytes vm.mem (a + n) := by
  subst ha hn
  have hle := add_length_strAt_le vm hin
  simp only [opLeft, if_neg (not_le.2 hin), safeStrlenAt_eq]
  split_ifs with hlen
  · rfl
  · rw [mem_setNullAt, toNat_add_of_le (by omega)]

lemma mem_opRight (ha : (bv vm i).toNat = a) (hn : (cvOrImm vm i).toNat = n)
    (hin : a < vmMemBytes) :
    (opRight h vm i).mem =
      if (strAt vm a).length ≤ n then vm.mem
      else terminate vmMemBytes (move vm.mem a (a + ((strAt vm a).length - n)) n) (a + n) := by
  subst ha hn
  have hle := add_length_strAt_le vm hin
  simp only [opRight, if_neg (not_le.2 hin), safeStrlenAt_eq]
  split_ifs with hnil hlen hlen
  · rfl
  · omega
  · rfl
  · have hoff : (UInt32.ofNat ((strAt vm (bv vm i).toNat).length - (cvOrImm vm i).toNat)).toNat =
        (strAt vm (bv vm i).toNat).length - (cvOrImm vm i).toNat := toNat_ofNat_of_le (by omega)
    have hsrc : (bv vm i + UInt32.ofNat
        ((strAt vm (bv vm i).toNat).length - (cvOrImm vm i).toNat)).toNat =
        (bv vm i).toNat + ((strAt vm (bv vm i).toNat).length - (cvOrImm vm i).toNat) := by
      rw [toNat_add_of_le (by omega), hoff]
    rw [mem_setNullAt, safeMemmove_of_le vm rfl hsrc (by omega) (by omega), mem_memmove,
      toNat_add_of_le (by omega)]

/-- The two branches of `op_mid` are one: behind the end of the string there is nothing to move,
and the terminator goes to the front. -/
lemma mem_opMid (ha : (bv vm i).toNat = a) (hn : (cvOrImm vm i).toNat = n)
    (hin : a < vmMemBytes) :
    (opMid h vm i).mem =
      terminate vmMemBytes (move vm.mem a (a + n) ((strAt vm a).length - n))
        (a + ((strAt vm a).length - n)) := by
  subst ha hn
  have hle := add_length_strAt_le vm hin
  simp only [opMid, if_neg (not_le.2 hin), safeStrlenAt_eq]
  split_ifs with hstart
  · rw [Nat.sub_eq_zero_of_le hstart, move_zero, mem_setNullAt, Nat.add_zero]
  · have hsrc : (bv vm i + cvOrImm vm i).toNat = (bv vm i).toNat + (cvOrImm vm i).toNat :=
      toNat_add_of_le (by omega)
    rw [mem_setNullAt, safeMemmove_of_le vm rfl hsrc (by omega) (by omega), mem_memmove]

lemma rewrites_opLeft (ha : (bv vm i).toNat = a) (hn : (cvOrImm vm i).toNat = n)
    (hin : a < vmMemBytes) :
    Rewrites vm (opLeft h vm i) a ((strAt vm a).take n) a (a + (strAt vm a).length) := by
  have hmem := mem_opLeft h ha hn hin
  split_ifs at hmem with hlen
  · refine .of_mem_eq hmem ?_
    rw [List.take_of_length_le hlen]
  · have hlt := not_le.1 hlen
    refine ⟨?_, fun b hb => ?_⟩
    · rw [strAt, hmem]
      exact str_cut hin.le hlt.le
    · rw [hmem]
      exact terminate_of_ne (by omega)

lemma rewrites_opRight (ha : (bv vm i).toNat = a) (hn : (cvOrImm vm i).toNat = n)
    (hin : a < vmMemBytes) :
    Rewrites vm (opRight h vm i) a ((strAt vm a).rtake n) a (a + (strAt vm a).length) := by
  have hmem := mem_opRight h ha hn hin
  split_ifs at hmem with hlen
  · refine .of_mem_eq hmem ?_
    rw [List.rtake, Nat.sub_eq_zero_of_le hlen, List.drop_zero]
  · -- the bytes to keep are those behind the first `length - n`
    have hkept : (strAt vm a).length - ((strAt vm a).length - n) = n :=
      Nat.sub_sub_self (not_le.1 hlen).le
    refine ⟨?_, fun b hb => ?_⟩
    · rw [strAt, hmem, List.rtake, ← str_shift hin.le (Nat.sub_le _ n), hkept]
    · rw [hmem]
      exact terminate_move_of_not_mem (by omega)

lemma rewrites_opMid (ha : (bv vm i).toNat = a) (hn : (cvOrImm vm i).toNat = n)
    (hin : a < vmMemBytes) :
    Rewrites vm (opMid h vm i) a ((strAt vm a).drop n) a (a + (strAt vm a).length) := by
  have hmem := mem_opMid h ha hn hin
  refine ⟨?_, fun b hb => ?_⟩
  · rw [strAt, hmem]
    rcases le_total n (strAt vm a).length with hlen | hlen
    · exact str_shift hin.le hlen
    · rw [List.drop_eq_nil_of_le hlen, Nat.sub_eq_zero_of_le hlen, move_zero]
      exact str_cut hin.le (Nat.zero_le _)
  · rw [hmem]
    exact terminate_move_of_not_mem (by omega)

end Cut

/-- `left`, `right` and `mid` are take, take from the right and drop, whatever the string, the
memory behind it and the operand: the string that was at the address is replaced by its first
bytes, its last bytes, or what is left without its first bytes, and no byte outside the old string
and the place of its terminator changes. -/
theorem left_right_mid (h : Host) (vm : VmState) (i : UInt32)
    (ha : (bv vm i).toNat < vmMemBytes) :
    let a := (bv vm i).toNat
    let n := (cvOrImm vm i).toNat
    let d := strAt vm a
    Rewrites vm (opLeft h vm i) a (d.take n) a (a + d.length) ∧
      Rewrites vm (opRight h vm i) a (d.rtake n) a (a + d.length) ∧
      Rewrites vm (opMid h vm i) a (d.drop n) a (a + d.length) :=
  ⟨rewrites_opLeft h rfl rfl ha, rewrites_opRight h rfl rfl ha, rewrites_opMid h rfl rfl ha⟩

/-- A machine with a text in memory. -/
def withText (reg : UInt8 → UInt32) (a : ℕ) (text : List UInt8) : VmState :=
  { vmCreate with reg := reg, mem := overlay vmCreate.mem a text }

/-- The string `ab` at the end of memory, without a terminator, and its address in the registers. -/
def abAtEnd : VmState := withText (fun _ => 0x3FFFFFE) 0x3FFFFFE [97, 98]

/-- The operand 1. -/
theorem left_right_mid_at_end :
    Rewrites abAtEnd (opLeft idleHost abAtEnd 0x101) 0x3FFFFFE [97] 0x3FFFFFE 0x4000000 ∧
      Rewrites abAtEnd (opRight idleHost abAtEnd 0x101) 0x3FFFFFE [98] 0x3FFFFFE 0x4000000 ∧
      Rewrites abAtEnd (opMid idleHost abAtEnd 0x101) 0x3FFFFFE [98] 0x3FFFFFE 0x4000000 := by
  have hstr : strAt abAtEnd (bv abAtEnd 0x101).toNat = [97, 98] := by decide +kernel
  have hn : (cvOrImm abAtEnd 0x101).toNat = 1 := by decide +kernel
  have h := left_right_mid idleHost abAtEnd 0x101 (by decide +kernel)
  simp only [hstr, hn] at h
  exact h

end Vm32
