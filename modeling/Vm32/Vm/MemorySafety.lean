/-
# The handlers stay inside memory

Every address, length and index that a handler computes is in range.  The lengths of strings are
bounded by the distance to the end of memory, and each string handler clamps what it copies by
what is left behind the string; the 32-bit sums of an address in memory and a length below it
cannot wrap around.
-/
import Vm32.Vm.Accesses
import Vm32.Vm.Strings

namespace Vm32

open BoundedString Logged

/-- A string ends inside memory. -/
lemma add_safeStrlenAt_le (vm : VmState) {addr : UInt32} (h : addr.toNat < vmMemBytes) :
    addr.toNat + safeStrlenAt vm addr ≤ vmMemBytes := by
  rw [safeStrlenAt_eq]
  exact add_length_strAt_le vm h

namespace Accesses

/-! ### Single accesses -/

section Primitives

variable (vm : VmState)

@[simp] lemma value_readByte (a : ℕ) : (readByte vm a).value = vm.mem a := by
  simp [readByte]

@[simp] lemma value_storeByte (a : ℕ) (v : UInt8) :
    (storeByte vm a v).value = { vm with mem := Function.update vm.mem a v } := by
  simp [storeByte]

@[simp] lemma value_copyBytes (dest src n : ℕ) :
    (copyBytes vm dest src n).value = memmove vm dest src n := by
  simp [copyBytes]

@[simp] lemma value_sub (a b : ℕ) : (sub a b).value = a - b := by simp [sub]

@[simp] lemma value_vmMr32 (a : UInt32) : (vmMr32 vm a).value = Vm32.vmMr32 vm a := by
  simp [vmMr32, Vm32.vmMr32, vmMr8]

@[simp] lemma value_vmMw32 (a v : UInt32) : (vmMw32 vm a v).value = Vm32.vmMw32 vm a v := by
  simp [vmMw32, Vm32.vmMw32, vmMw8]

@[simp] lemma value_readAt {α : Type} (array : ℕ → α) (id : ℕ) :
    (readAt array id).value = array id := by
  simp [readAt]

@[simp] lemma value_storeAt {α : Type} (array : ℕ → α) (id : ℕ) (v : α) :
    (storeAt array id v).value = Function.update array id v := by
  simp [storeAt]

@[simp] lemma safe_readByte (a : ℕ) : Every Access.Safe (readByte vm a) ↔ a < vmMemBytes := by
  simp [readByte, Access.Safe]

@[simp] lemma safe_storeByte (a : ℕ) (v : UInt8) :
    Every Access.Safe (storeByte vm a v) ↔ a < vmMemBytes := by
  simp [storeByte, Access.Safe]

@[simp] lemma safe_copyBytes (dest src n : ℕ) :
    Every Access.Safe (copyBytes vm dest src n) ↔
      dest + n ≤ vmMemBytes ∧ src + n ≤ vmMemBytes := by
  simp [copyBytes, Access.Safe]

@[simp] lemma safe_sub (a b : ℕ) : Every Access.Safe (sub a b) ↔ b ≤ a := by
  simp [sub, Access.Safe]

@[simp] lemma safe_readAt {α : Type} (array : ℕ → α) (id : ℕ) :
    Every Access.Safe (readAt array id) ↔ id < maxTimers := by
  simp [readAt, Access.Safe]

@[simp] lemma safe_storeAt {α : Type} (array : ℕ → α) (id : ℕ) (v : α) :
    Every Access.Safe (storeAt array id v) ↔ id < maxTimers := by
  simp [storeAt, Access.Safe]

/-- A word that ends inside memory. -/
lemma safe_vmMr32 {a : UInt32} (h : a.toNat + 4 ≤ vmMemBytes) :
    Every Access.Safe (vmMr32 vm a) := by
  have h₁ : (a + 1).toNat = a.toNat + 1 := toNat_add_of_le (n := 1) (by simp; omega)
  have h₂ : (a + 2).toNat = a.toNat + 2 := toNat_add_of_le (n := 2) (by simp; omega)
  have h₃ : (a + 3).toNat = a.toNat + 3 := toNat_add_of_le (n := 3) (by simp; omega)
  simp only [vmMr32, every_bind, safe_readByte, every_pure, h₁, h₂, h₃]
  exact ⟨by omega, by omega, by omega, by omega, trivial⟩

lemma safe_vmMw32 {a : UInt32} (v : UInt32) (h : a.toNat + 4 ≤ vmMemBytes) :
    Every Access.Safe (vmMw32 vm a v) := by
  have h₁ : (a + 1).toNat = a.toNat + 1 := toNat_add_of_le (n := 1) (by simp; omega)
  have h₂ : (a + 2).toNat = a.toNat + 2 := toNat_add_of_le (n := 2) (by simp; omega)
  have h₃ : (a + 3).toNat = a.toNat + 3 := toNat_add_of_le (n := 3) (by simp; omega)
  simp only [vmMw32, every_bind, safe_storeByte, h₁, h₂, h₃]
  exact ⟨by omega, by omega, by omega, by omega⟩

end Primitives

/-! ### Helpers on strings -/

section Strings

variable (vm : VmState)

@[simp] lemma value_safeMemRemaining (addr : UInt32) :
    (safeMemRemaining addr).value = Vm32.safeMemRemaining addr := by
  simp only [safeMemRemaining, Vm32.safeMemRemaining, value_ite, value_pure, value_sub]

@[simp] lemma safe_safeMemRemaining (addr : UInt32) :
    Every Access.Safe (safeMemRemaining addr) := by
  simp only [safeMemRemaining, every_ite, every_pure, safe_sub]
  exact ⟨fun _ => trivial, fun h => le_of_not_ge h⟩

@[simp] lemma value_strlenLoop (a rem : ℕ) :
    (strlenLoop vm a rem).value = Vm32.strlenLoop vm.mem a rem := by
  induction rem generalizing a with
  | zero => rfl
  | succ rem ih =>
    simp only [strlenLoop, Vm32.strlenLoop, value_bind, value_readByte, value_ite,
      value_pure, ih]

/-- The scan stays inside memory if its bound does. -/
lemma safe_strlenLoop {a rem : ℕ} (h : a + rem ≤ vmMemBytes) :
    Every Access.Safe (strlenLoop vm a rem) := by
  induction rem generalizing a with
  | zero => exact every_pure 0
  | succ rem ih =>
    simp only [strlenLoop, every_bind, safe_readByte, every_ite, every_pure, and_true]
    exact ⟨by omega, fun _ => trivial, fun _ => ih (by omega)⟩

@[simp] lemma value_safeStrlenAt (addr : UInt32) :
    (safeStrlenAt vm addr).value = Vm32.safeStrlenAt vm addr := by
  simp only [safeStrlenAt, Vm32.safeStrlenAt, value_bind, value_safeMemRemaining, value_strlenLoop]

@[simp] lemma safe_safeStrlenAt {addr : UInt32} (h : addr.toNat < vmMemBytes) :
    Every Access.Safe (safeStrlenAt vm addr) := by
  simp only [safeStrlenAt, every_bind, safe_safeMemRemaining, value_safeMemRemaining, true_and]
  refine safe_strlenLoop vm ?_
  rw [safeMemRemaining_eq]
  omega

@[simp] lemma value_safeMemmove (dest src : UInt32) (n : ℕ) :
    (safeMemmove vm dest src n).value = Vm32.safeMemmove vm dest src n := by
  simp only [safeMemmove, Vm32.safeMemmove, value_bind, value_safeMemRemaining, value_copyBytes]

lemma add_min_safeMemRemaining_le {addr : UInt32} (h : addr.toNat ≤ vmMemBytes) (n : ℕ) :
    addr.toNat + min n (Vm32.safeMemRemaining addr) ≤ vmMemBytes := by
  rw [safeMemRemaining_eq]
  omega

/-- What `safe_memmove` copies is clamped, so it is enough that both addresses are not behind the
end of memory. -/
lemma safe_safeMemmove {dest src : UInt32} (n : ℕ) (hdest : dest.toNat ≤ vmMemBytes)
    (hsrc : src.toNat ≤ vmMemBytes) : Every Access.Safe (safeMemmove vm dest src n) := by
  have h₁ := add_min_safeMemRemaining_le hdest n
  have h₂ := add_min_safeMemRemaining_le hsrc n
  simp only [safeMemmove, every_bind, safe_safeMemRemaining, value_safeMemRemaining,
    safe_copyBytes, true_and]
  omega

@[simp] lemma value_setNullAt (a : ℕ) : (setNullAt vm a).value = Vm32.setNullAt vm a := by
  simp only [setNullAt, Vm32.setNullAt, value_ite, value_pure, value_storeByte]

@[simp] lemma safe_setNullAt (a : ℕ) : Every Access.Safe (setNullAt vm a) := by
  simp [setNullAt]

@[simp] lemma value_roomBehind (rem len : ℕ) :
    (roomBehind rem len).value = if len < rem then rem - len - 1 else 0 := by
  simp only [roomBehind, value_ite, value_bind, value_sub, value_pure]

@[simp] lemma safe_roomBehind (rem len : ℕ) : Every Access.Safe (roomBehind rem len) := by
  simp only [roomBehind, every_ite, every_bind, safe_sub, value_sub, every_pure]
  exact ⟨fun h => ⟨h.le, Nat.sub_pos_of_lt h⟩, fun _ => trivial⟩

end Strings

/-! ### The handlers -/

/-- The instrumented handler computes what the handler computes, and all it does is safe. -/
def SafeVersion (opL : LoggedOpEx) (op : OpEx) : Prop :=
  ∀ h vm i, (opL h vm i).value = op h vm i ∧ Every Access.Safe (opL h vm i)

lemma safeVersion_silent (op : OpEx) : SafeVersion (silent op) op :=
  fun h vm i => ⟨value_pure (op h vm i), every_pure (op h vm i)⟩

lemma safeVersion_opLen : SafeVersion opLen Vm32.opLen := by
  intro h vm i
  refine ⟨?_, ?_⟩
  · simp only [opLen, Vm32.opLen, value_ite, value_bind, value_pure, value_safeStrlenAt]
  · simp only [opLen, every_ite, every_bind, every_pure, and_true]
    exact ⟨fun _ => trivial, fun haddr => safe_safeStrlenAt vm (not_le.1 haddr)⟩

/-- Nothing is copied when the length is zero, whether the call is guarded or not. -/
lemma ite_memmove (vm : VmState) (dest src n : ℕ) :
    (if 0 < n then memmove vm dest src n else vm) = memmove vm dest src n := by
  split_ifs with hn
  · rfl
  · have hnone : ∀ a, ¬(dest ≤ a ∧ a < dest + n) := fun a => by omega
    simp only [memmove, hnone, if_false]

/-- A terminated string leaves room for what is appended to it and for the terminator. -/
lemma add_min_room_le {addr len rem room : ℕ} (hrem : addr + rem ≤ vmMemBytes)
    (hlen : addr + len ≤ vmMemBytes) (n : ℕ)
    (hroom : room = if len < rem then rem - len - 1 else 0) :
    addr + len + min n room ≤ vmMemBytes := by
  rw [hroom]
  split_ifs <;> omega

lemma safeVersion_opConcat : SafeVersion opConcat Vm32.opConcat := by
  intro h vm i
  refine ⟨?_, ?_⟩
  · simp only [opConcat, Vm32.opConcat, value_ite, value_bind, value_pure, value_safeStrlenAt,
      value_safeMemRemaining, value_roomBehind, value_copyBytes, value_setNullAt, ite_memmove]
  · simp only [opConcat, every_ite, every_bind, every_pure, value_safeStrlenAt,
      value_safeMemRemaining, value_roomBehind, safe_safeMemRemaining, safe_roomBehind,
      safe_setNullAt, safe_copyBytes, true_and, and_true, not_or, not_le]
    refine ⟨fun _ => trivial, ?_⟩
    rintro ⟨hdest, hsrc⟩
    refine ⟨safe_safeStrlenAt vm hdest, safe_safeStrlenAt vm hsrc, fun _ => trivial,
      fun _ => ⟨fun _ => ⟨?_, ?_⟩, fun _ => trivial⟩⟩
    · exact add_min_room_le (by rw [safeMemRemaining_eq]; omega)
        (add_safeStrlenAt_le vm hdest) _ rfl
    · have := add_safeStrlenAt_le vm hsrc
      omega

lemma safeVersion_opLeft : SafeVersion opLeft Vm32.opLeft := by
  intro h vm i
  refine ⟨?_, ?_⟩
  · simp only [opLeft, Vm32.opLeft, value_ite, value_bind, value_pure, value_safeStrlenAt,
      value_setNullAt]
  · simp only [opLeft, every_ite, every_bind, every_pure, safe_setNullAt, not_le]
    exact ⟨fun _ => trivial, fun haddr => ⟨safe_safeStrlenAt vm haddr, fun _ => trivial,
      fun _ => trivial⟩⟩

lemma safeVersion_opRight : SafeVersion opRight Vm32.opRight := by
  intro h vm i
  refine ⟨?_, ?_⟩
  · simp only [opRight, Vm32.opRight, value_ite, value_bind, value_pure, value_safeStrlenAt,
      value_sub, value_safeMemmove, value_setNullAt]
  · simp only [opRight, every_ite, every_bind, every_pure, value_safeStrlenAt, value_sub, safe_sub,
      safe_setNullAt, and_true, not_le]
    refine ⟨fun _ => trivial, fun haddr => ⟨safe_safeStrlenAt vm haddr, fun _ => trivial,
      fun _ => ⟨fun _ => trivial, fun hn => ⟨hn.le, ?_⟩⟩⟩⟩
    have hlen := add_safeStrlenAt_le vm haddr
    refine safe_safeMemmove vm _ haddr.le ?_
    have hoff : (UInt32.ofNat (Vm32.safeStrlenAt vm (bv vm i) - (cvOrImm vm i).toNat)).toNat =
        Vm32.safeStrlenAt vm (bv vm i) - (cvOrImm vm i).toNat := toNat_ofNat_of_le (by omega)
    rw [toNat_add_of_le] <;> omega

lemma safeVersion_opMid : SafeVersion opMid Vm32.opMid := by
  intro h vm i
  refine ⟨?_, ?_⟩
  · simp only [opMid, Vm32.opMid, value_ite, value_bind, value_safeStrlenAt, value_pure,
      value_sub, value_safeMemmove, value_setNullAt]
  · simp only [opMid, every_ite, every_bind, every_pure, value_safeStrlenAt, value_sub, safe_sub,
      safe_setNullAt, and_true, not_le]
    refine ⟨fun _ => trivial, fun haddr => ⟨safe_safeStrlenAt vm haddr, fun _ => trivial,
      fun hstart => ⟨hstart.le, ?_⟩⟩⟩
    have hlen := add_safeStrlenAt_le vm haddr
    refine safe_safeMemmove vm _ haddr.le ?_
    rw [toNat_add_of_le] <;> omega

/-- If something is to be inserted, there is room for it behind the string. -/
lemma room_of_pos {len rem n : ℕ} (hpos : 0 < min n (if len < rem then rem - len - 1 else 0)) :
    len < rem := by
  by_contra hfull
  rw [if_neg hfull, Nat.min_zero] at hpos
  exact absurd hpos (lt_irrefl 0)

/-- The insertion position is clamped to the length. -/
lemma toNat_clamp_le {len : ℕ} (hlen : len ≤ vmMemBytes) (pos : UInt32) :
    (if len < pos.toNat then UInt32.ofNat len else pos).toNat ≤ len := by
  rw [toNat_clamp hlen]
  exact min_le_right _ _

lemma safeVersion_opInsert : SafeVersion opInsert Vm32.opInsert := by
  intro h vm i
  refine ⟨?_, ?_⟩
  · simp only [opInsert, Vm32.opInsert, value_ite, value_bind, value_pure, value_safeStrlenAt,
      value_safeMemRemaining, value_roomBehind, value_sub, value_copyBytes]
  · simp only [opInsert, every_ite, every_bind, every_pure, value_safeStrlenAt,
      value_safeMemRemaining, value_roomBehind, value_sub, value_copyBytes,
      safe_safeMemRemaining, safe_roomBehind, safe_sub, safe_copyBytes, true_and, not_or, not_le]
    refine ⟨fun _ => trivial, ?_⟩
    rintro ⟨hdest, hins⟩
    refine ⟨safe_safeStrlenAt vm hdest, safe_safeStrlenAt vm hins, fun _ => trivial,
      fun _ => ⟨fun hpos => ?_, fun _ => trivial⟩⟩
    have hlen := add_safeStrlenAt_le vm hdest
    have hinsLen := add_safeStrlenAt_le vm hins
    have hclamp := toNat_clamp_le (Nat.le_of_add_left_le hlen) (cvOrImm vm i)
    generalize (if Vm32.safeStrlenAt vm (vm.reg (ra i)) < (cvOrImm vm i).toNat then
      UInt32.ofNat (Vm32.safeStrlenAt vm (vm.reg (ra i))) else cvOrImm vm i) = pos at hclamp ⊢
    rw [safeMemRemaining_eq] at hpos ⊢
    rw [if_pos (room_of_pos hpos)]
    rw [if_pos (room_of_pos hpos)] at hpos
    exact ⟨hclamp, fun _ => trivial, fun _ => by omega⟩

lemma safeVersion_opDelete : SafeVersion opDelete Vm32.opDelete := by
  intro h vm i
  refine ⟨?_, ?_⟩
  · simp only [opDelete, Vm32.opDelete, value_ite, value_bind, value_pure, value_safeStrlenAt,
      value_sub, value_safeMemmove]
  · simp only [opDelete, every_ite, every_bind, every_pure, value_safeStrlenAt, value_sub,
      safe_sub, not_le]
    refine ⟨fun _ => trivial, fun haddr => ⟨safe_safeStrlenAt vm haddr, fun _ => trivial,
      fun hpos => ?_⟩⟩
    have hlen := add_safeStrlenAt_le vm haddr
    have hclamp : (if Vm32.safeStrlenAt vm (vm.reg (ra i)) - (bv vm i).toNat < (cvOrImm vm i).toNat
        then UInt32.ofNat (Vm32.safeStrlenAt vm (vm.reg (ra i)) - (bv vm i).toNat)
        else cvOrImm vm i).toNat ≤ Vm32.safeStrlenAt vm (vm.reg (ra i)) - (bv vm i).toNat :=
      toNat_clamp_le (by omega) (cvOrImm vm i)
    have haddr' : (vm.reg (ra i) + bv vm i).toNat = (vm.reg (ra i)).toNat + (bv vm i).toNat :=
      toNat_add_of_le (by omega)
    refine ⟨hpos.le, hclamp, safe_safeMemmove vm _ (by omega) ?_⟩
    rw [toNat_add_of_le] <;> omega

/-- A move behind the first `k` bytes of a string leaves a string of at least `k` bytes. -/
lemma le_safeStrlenAt_safeMemmove (vm : VmState) {addr dest : UInt32} (src : UInt32) (n : ℕ) {k : ℕ}
    (haddr : addr.toNat < vmMemBytes) (hk : k ≤ Vm32.safeStrlenAt vm addr)
    (hdest : dest.toNat = addr.toNat + k) :
    k ≤ Vm32.safeStrlenAt (Vm32.safeMemmove vm dest src n) addr := by
  have hend := add_length_strAt_le vm haddr
  rw [safeStrlenAt_eq] at hk ⊢
  refine le_length_str (by omega) fun b hle hlt => ?_
  have hkept : (Vm32.safeMemmove vm dest src n).mem b = vm.mem b := move_of_lt (by omega)
  rw [hkept]
  exact ne_zero_of_lt_str hle (hlt.trans_le (Nat.add_le_add_left hk _))

lemma safeVersion_opReplace : SafeVersion opReplace Vm32.opReplace := by
  intro h vm i
  refine ⟨?_, ?_⟩
  · simp only [opReplace, Vm32.opReplace, value_ite, value_bind, value_pure, value_safeStrlenAt,
      value_safeMemRemaining, value_roomBehind, value_sub, value_safeMemmove, value_copyBytes]
  · simp only [opReplace, every_ite, every_bind, every_pure, value_ite, value_pure,
      value_safeStrlenAt, value_safeMemRemaining, value_roomBehind, value_sub, value_safeMemmove,
      safe_safeMemRemaining, safe_roomBehind, safe_sub, safe_copyBytes, value_copyBytes, true_and,
      not_or, not_le, not_lt]
    refine ⟨fun _ => trivial, ?_⟩
    rintro ⟨haddr, hrep⟩
    refine ⟨safe_safeStrlenAt vm haddr, safe_safeStrlenAt vm hrep, fun _ => trivial,
      fun hpos => ?_⟩
    have hlen := add_safeStrlenAt_le vm haddr
    have hrepLen := add_safeStrlenAt_le vm hrep
    have hdest : (vm.reg (ra i) + cvOrImm vm i).toNat =
        (vm.reg (ra i)).toNat + (cvOrImm vm i).toNat := toNat_add_of_le (by omega)
    generalize hclamp : (if Vm32.safeStrlenAt vm (vm.reg (ra i)) <
        (cvOrImm vm i).toNat + Vm32.safeStrlenAt vm (bv vm i) then
      Vm32.safeStrlenAt vm (vm.reg (ra i)) - (cvOrImm vm i).toNat
      else Vm32.safeStrlenAt vm (bv vm i)) = repLen
    have hrepLe : repLen ≤ Vm32.safeStrlenAt vm (vm.reg (ra i)) - (cvOrImm vm i).toNat := by
      split_ifs at hclamp <;> omega
    have hrepLe' : repLen ≤ Vm32.safeStrlenAt vm (bv vm i) := by
      split_ifs at hclamp <;> omega
    have hsrc : (UInt32.ofNat ((vm.reg (ra i) + cvOrImm vm i).toNat + repLen)).toNat =
        (vm.reg (ra i) + cvOrImm vm i).toNat + repLen := toNat_ofNat_of_le (by omega)
    generalize hmoved : Vm32.safeMemmove vm (vm.reg (ra i) + cvOrImm vm i)
      (UInt32.ofNat ((vm.reg (ra i) + cvOrImm vm i).toNat + repLen))
      (Vm32.safeStrlenAt vm (vm.reg (ra i)) - (cvOrImm vm i).toNat - repLen + 1) = vm'
    -- the position is still inside the string after the first move
    have hkept : (cvOrImm vm i).toNat ≤ Vm32.safeStrlenAt vm' (vm.reg (ra i)) := by
      rw [← hmoved]
      exact le_safeStrlenAt_safeMemmove vm _ _ haddr hpos hdest
    have hlen' := add_safeStrlenAt_le vm' haddr
    refine ⟨⟨fun _ => hpos, fun _ => trivial⟩, hpos, hrepLe,
      safe_safeMemmove vm _ (by omega) (by omega), safe_safeStrlenAt vm' haddr,
      fun hins => ?_, fun _ => trivial⟩
    rw [safeMemRemaining_eq] at hins ⊢
    rw [if_pos (room_of_pos hins)]
    rw [if_pos (room_of_pos hins)] at hins
    exact ⟨hkept, ⟨by omega, by omega⟩, by omega, by omega⟩

/-! ### Instance arrays -/

lemma safe_timerElement (id : UInt8) : Every Access.Safe (timerElement id) := by
  simp only [timerElement, every_ite, every_tell, every_pure, Access.Safe]
  exact ⟨fun hid => by simpa [idOk] using hid, fun _ => trivial⟩

lemma safeVersion_opTimer (set : VmState → UInt8 → Bool → UInt32 → VmState)
    (q : VmState → UInt8 → Bool) :
    SafeVersion (fun _ => opTimer set q) (fun _ => Vm32.opTimer set q) := by
  intro h vm i
  refine ⟨?_, ?_⟩
  · simp only [opTimer, Vm32.opTimer, value_ite, value_bind, value_pure]
  · simp only [opTimer, every_ite, every_bind, every_pure, safe_timerElement, and_self,
      implies_true]

/-- The shape that the counters, edge detectors and latches share: behind the check of the
instance number all accesses are to elements of this number. -/
lemma safe_checked {x : UInt32} {a b : Logged Access VmState} (ha : Every Access.Safe a)
    (hb : x.toNat < maxTimers → Every Access.Safe b) :
    Every Access.Safe (if idOutOfRange x.toInt32 then a else b) := by
  simp only [every_ite, idOutOfRange_iff, not_le]
  exact ⟨fun _ => ha, hb⟩

lemma safeVersion_opCtu : SafeVersion opCtu Vm32.opCtu := by
  intro h vm i
  refine ⟨?_, safe_checked (every_pure vm) fun hid => ?_⟩
  · simp only [opCtu, Vm32.opCtu, value_ite, value_bind, value_pure, value_readAt, value_storeAt]
  · simp only [every_bind, every_pure, safe_readAt, safe_storeAt, hid, and_self]

lemma safeVersion_opCtd : SafeVersion opCtd Vm32.opCtd := by
  intro h vm i
  refine ⟨?_, safe_checked (every_pure vm) fun hid => ?_⟩
  · simp only [opCtd, Vm32.opCtd, value_ite, value_bind, value_pure, value_readAt, value_storeAt]
  · simp only [every_bind, every_pure, safe_readAt, safe_storeAt, hid, and_self]

lemma safeVersion_opCtud : SafeVersion opCtud Vm32.opCtud := by
  intro h vm i
  refine ⟨?_, safe_checked (every_pure vm) fun hid => ?_⟩
  · simp only [opCtud, Vm32.opCtud, value_ite, value_bind, value_pure, value_readAt, value_storeAt]
  · simp only [every_bind, every_pure, safe_readAt, safe_storeAt, hid, and_self]

lemma safeVersion_opRisingEdge : SafeVersion opRisingEdge Vm32.opRisingEdge := by
  intro h vm i
  refine ⟨?_, safe_checked (every_pure _) fun hid => ?_⟩
  · simp only [opRisingEdge, Vm32.opRisingEdge, value_ite, value_bind, value_pure, value_readAt,
      value_storeAt]
  · simp only [every_bind, every_pure, safe_readAt, safe_storeAt, hid, and_self]

lemma safeVersion_opFallingEdge : SafeVersion opFallingEdge Vm32.opFallingEdge := by
  intro h vm i
  refine ⟨?_, safe_checked (every_pure _) fun hid => ?_⟩
  · simp only [opFallingEdge, Vm32.opFallingEdge, value_ite, value_bind, value_pure, value_readAt,
      value_storeAt]
  · simp only [every_bind, every_pure, safe_readAt, safe_storeAt, hid, and_self]

lemma safeVersion_opEdgeBoth : SafeVersion opEdgeBoth Vm32.opEdgeBoth := by
  intro h vm i
  refine ⟨?_, safe_checked (every_pure _) fun hid => ?_⟩
  · simp only [opEdgeBoth, Vm32.opEdgeBoth, value_ite, value_bind, value_pure, value_readAt,
      value_storeAt]
  · simp only [every_bind, every_pure, safe_readAt, safe_storeAt, hid, and_self]

/-- A latch that is neither set nor reset is not written; this is the same as writing what it
holds. -/
lemma update_latches (latches : ℕ → Bool) (id : ℕ) (p q : Bool) (v w : Bool) :
    (if p then Function.update latches id v
      else if q then Function.update latches id w else latches) =
      Function.update latches id (if p then v else if q then w else latches id) := by
  cases p <;> cases q <;> simp

lemma safeVersion_opRsLatch : SafeVersion opRsLatch Vm32.opRsLatch := by
  intro h vm i
  refine ⟨?_, safe_checked (every_pure _) fun hid => ?_⟩
  · simp only [opRsLatch, Vm32.opRsLatch, latchOutput, value_ite, value_bind, value_pure,
      value_readAt, value_storeAt, update_latches, Function.update_self]
  · simp only [latchOutput, every_bind, every_ite, every_pure, safe_readAt, safe_storeAt, hid,
      and_self, implies_true]

lemma safeVersion_opSrLatch : SafeVersion opSrLatch Vm32.opSrLatch := by
  intro h vm i
  refine ⟨?_, safe_checked (every_pure _) fun hid => ?_⟩
  · simp only [opSrLatch, Vm32.opSrLatch, latchOutput, value_ite, value_bind, value_pure,
      value_readAt, value_storeAt, update_latches, Function.update_self]
  · simp only [latchOutput, every_bind, every_ite, every_pure, safe_readAt, safe_storeAt, hid,
      and_self, implies_true]

/-! ### Words in memory -/

lemma safeVersion_opSel : SafeVersion opSel Vm32.opSel := by
  intro h vm i
  refine ⟨?_, ?_⟩
  · simp only [opSel, Vm32.opSel, value_ite, value_bind, value_pure, value_vmMr32]
  · simp only [opSel, every_ite, every_bind, every_pure, and_true, not_le]
    refine ⟨fun _ => trivial, fun hbase => ?_⟩
    have h₄ : (vm.reg (rc i) + 4).toNat = (vm.reg (rc i)).toNat + 4 := by
      simp only [UInt32.toNat_add, UInt32.reduceToNat]
      exact Nat.mod_eq_of_lt (by simp only [vmMemBytes] at hbase; omega)
    have h₈ : (vm.reg (rc i) + 8).toNat = (vm.reg (rc i)).toNat + 8 := by
      simp only [UInt32.toNat_add, UInt32.reduceToNat]
      exact Nat.mod_eq_of_lt (by simp only [vmMemBytes] at hbase; omega)
    refine ⟨⟨fun hword => safe_vmMr32 vm (by omega), fun _ => trivial⟩,
      ⟨fun hword => safe_vmMr32 vm (by omega), fun _ => trivial⟩⟩

/-- The 64-bit address of an element does not wrap around, and below the end of memory it fits
into 32 bits. -/
lemma elementAddress_le {base idx : UInt32}
    (h : (base.toUInt64 + idx.toUInt64 * 4 + 4).toNat ≤ vmMemBytes) :
    (base.toUInt64 + idx.toUInt64 * 4).toUInt32.toNat + 4 ≤ vmMemBytes := by
  have hbase := base.toNat_lt
  have hidx := idx.toNat_lt
  simp only [UInt64.toNat_add, UInt64.toNat_mul, UInt32.toNat_toUInt64, UInt64.toNat_toUInt32,
    UInt64.reduceToNat, vmMemBytes] at h ⊢
  omega

lemma safeVersion_opMux : SafeVersion opMux Vm32.opMux := by
  intro h vm i
  refine ⟨?_, ?_⟩
  · simp only [opMux, Vm32.opMux, value_ite, value_bind, value_pure, value_vmMr32]
  · simp only [opMux, every_ite, every_bind, every_pure, and_true, not_lt]
    exact ⟨fun _ => trivial, fun haddr => safe_vmMr32 vm (elementAddress_le haddr)⟩

lemma safeVersion_opDemux : SafeVersion opDemux Vm32.opDemux := by
  intro h vm i
  refine ⟨?_, ?_⟩
  · simp only [opDemux, Vm32.opDemux, value_ite, value_pure, value_vmMw32]
  · simp only [opDemux, every_ite, every_pure, not_lt]
    exact ⟨fun _ => trivial, fun haddr => safe_vmMw32 vm _ (elementAddress_le haddr)⟩

/-! ### The opcode table -/

/-- The two tables agree, entry by entry. -/
lemma forall₂_defaultOpEx : List.Forall₂ SafeVersion defaultOpEx Vm32.defaultOpEx := by
  simp only [defaultOpEx, Vm32.defaultOpEx, List.forall₂_cons, List.forall₂_nil_left_iff,
    safeVersion_silent, true_and, and_true]
  exact ⟨safeVersion_opLen, safeVersion_opConcat, safeVersion_opLeft, safeVersion_opRight,
    safeVersion_opMid, safeVersion_opInsert, safeVersion_opDelete, safeVersion_opReplace,
    safeVersion_opTimer tonSet tonQ, safeVersion_opTimer tofSet tofQ, safeVersion_opTimer tpSet tpQ,
    safeVersion_opCtu, safeVersion_opCtd, safeVersion_opCtud, safeVersion_opSel, safeVersion_opMux,
    safeVersion_opRisingEdge, safeVersion_opFallingEdge, safeVersion_opEdgeBoth,
    safeVersion_opRsLatch, safeVersion_opSrLatch, safeVersion_opDemux⟩

end Accesses

/-- Every handler stays inside memory and inside the instance arrays, and no length that it
computes underflows: for every handler of the table, every instruction word and every state, the
instrumented handler reports safe accesses only, and it computes what the handler does. -/
theorem handlers_memory_safe {opcode : UInt8} {op : OpEx} (hop : opEx opcode = some op) :
    ∃ opL, loggedOpEx opcode = some opL ∧
      ∀ (h : Host) (vm : VmState) (i : UInt32),
        (opL h vm i).value = op h vm i ∧ ∀ e ∈ (opL h vm i).log, e.Safe := by
  have hlen := Accesses.forall₂_defaultOpEx.length_eq
  obtain ⟨hlt, rfl⟩ := List.getElem?_eq_some_iff.1 hop
  rw [← hlen] at hlt
  exact ⟨_, List.getElem?_eq_getElem hlt, Accesses.forall₂_defaultOpEx.get hlt _⟩

/-- The handler with the most accesses, `REPLACE`. -/
theorem handlers_memory_safe_replace :
    ∃ opL, loggedOpEx 46 = some opL ∧
      ∀ (h : Host) (vm : VmState) (i : UInt32),
        (opL h vm i).value = opReplace h vm i ∧ ∀ e ∈ (opL h vm i).log, e.Safe :=
  @handlers_memory_safe 46 opReplace rfl

end Vm32
