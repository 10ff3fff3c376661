/-
# Joining, inserting, deleting and replacing

The handlers that put bytes into a string, or take some out of its middle.  What `concat` and
`insert` add is cut to the space behind the string, so that its terminator stays inside memory.
`delete` leaves the terminator to the bytes that it moves, and `replace` deletes before it inserts;
the two moves of `replace` cancel.
-/
import Vm32.Vm.Strings

namespace Vm32

open BoundedString

/-! ### Space and positions -/

/-- The bytes that the string at `a` can grow by. -/
def space (vm : VmState) (a : ℕ) : ℕ := vmMemBytes - a - (strAt vm a).length - 1

/-- A string that can grow is terminated. -/
lemma add_length_add_lt {vm : VmState} {a k : ℕ} (hk : k ≤ space vm a) (hpos : 0 < k) :
    a + (strAt vm a).length + k < vmMemBytes := by
  rw [space] at hk
  omega

/-- `max_append` and `max_insert`. -/
lemma ite_space (vm : VmState) (a : ℕ) :
    (if (strAt vm a).length < vmMemBytes - a then vmMemBytes - a - (strAt vm a).length - 1 else 0) =
      space vm a := by
  rw [space]
  split_ifs <;> omega

/-! ### The `memcpy` of `insert` and `replace`

The last copy of these two handlers is a `memcpy`.  Where its ranges overlap the C standard promises
nothing about it, so the two handlers are also written with this call as a parameter. -/

/-- What is known about a `memcpy`: between ranges that do not overlap it copies. -/
def IsMemcpy (memcpy : VmState → ℕ → ℕ → ℕ → VmState) : Prop :=
  ∀ (vm : VmState) (dest src n : ℕ), src + n ≤ dest ∨ dest + n ≤ src →
    memcpy vm dest src n = memmove vm dest src n

/-- `op_insert`. -/
def opInsertWith (memcpy : VmState → ℕ → ℕ → ℕ → VmState) : OpEx := fun _ vm i =>
  let destAddr := vm.reg (ra i)
  let insAddr := bv vm i
  let pos := cvOrImm vm i
  if vmMemBytes ≤ destAddr.toNat ∨ vmMemBytes ≤ insAddr.toNat then vm
  else
    let destLen := safeStrlenAt vm destAddr
    let insLen := safeStrlenAt vm insAddr
    let pos := if destLen < pos.toNat then UInt32.ofNat destLen else pos
    let rem := safeMemRemaining destAddr
    if rem = 0 then vm
    else
      let maxInsert := if destLen < rem then rem - destLen - 1 else 0
      let toInsert := min insLen maxInsert
      if 0 < toInsert then
        let tail := destLen - pos.toNat
        let at' := (destAddr + pos).toNat
        if vmMemBytes < at' + toInsert + tail + 1 ∧ vmMemBytes < at' + toInsert + 1 then vm
        else
          let hole := destAddr.toNat + pos.toNat
          memcpy (memmove vm (hole + toInsert) hole (tail + 1)) hole insAddr.toNat toInsert
      else vm

/-- `op_replace`. -/
def opReplaceWith (memcpy : VmState → ℕ → ℕ → ℕ → VmState) : OpEx := fun _ vm i =>
  let addr := vm.reg (ra i)
  let repAddr := bv vm i
  let pos := cvOrImm vm i
  if vmMemBytes ≤ addr.toNat ∨ vmMemBytes ≤ repAddr.toNat then vm
  else
    let len := safeStrlenAt vm addr
    let repLen := safeStrlenAt vm repAddr
    if len < pos.toNat then vm
    else
      let repLen := if len < pos.toNat + repLen then len - pos.toNat else repLen
      let vm := safeMemmove vm (addr + pos) (UInt32.ofNat ((addr + pos).toNat + repLen))
        (len - pos.toNat - repLen + 1)
      let rem := safeMemRemaining addr
      let currentLen := safeStrlenAt vm addr
      let maxInsert := if currentLen < rem then rem - currentLen - 1 else 0
      let toInsert := min repLen maxInsert
      if 0 < toInsert then
        let tail := currentLen - pos.toNat
        let hole := addr.toNat + pos.toNat
        memcpy (memmove vm (hole + toInsert) hole (tail + 1)) hole repAddr.toNat toInsert
      else vm

/-- The handlers of the machine copy in the `memcpy` as a `memmove` does. -/
lemma opInsertWith_memmove : opInsertWith memmove = opInsert := rfl

lemma opReplaceWith_memmove : opReplaceWith memmove = opReplace := rfl

lemma isMemcpy_memmove : IsMemcpy memmove := fun _ _ _ _ _ => rfl

section Handlers

variable (h : Host) {vm : VmState} {i : UInt32} {a b p k n : ℕ}

/-! ### `concat` and `insert` -/

lemma mem_opConcat (ha : (bv vm i).toNat = a) (hb : (cv vm i).toNat = b)
    (hk : min (strAt vm b).length (space vm a) = k) (hd : a < vmMemBytes) (hs : b < vmMemBytes) :
    (opConcat h vm i).mem =
      terminate vmMemBytes (move vm.mem (a + (strAt vm a).length) b k)
        (a + (strAt vm a).length + k) := by
  subst ha hb hk
  have hrem : vmMemBytes - (bv vm i).toNat ≠ 0 := by omega
  simp only [opConcat, not_le.2 hd, not_le.2 hs, or_self, if_false, safeStrlenAt_eq,
    safeMemRemaining_eq, ite_space, if_neg hrem, mem_setNullAt, mem_memmove]

/-- The two copies of `insert`, in place of the clamped values of the code. -/
lemma opInsertWith_eq (memcpy : VmState → ℕ → ℕ → ℕ → VmState) (ha : (vm.reg (ra i)).toNat = a)
    (hb : (bv vm i).toNat = b) (hp : min (cvOrImm vm i).toNat (strAt vm a).length = p)
    (hk : min (strAt vm b).length (space vm a) = k) (hd : a < vmMemBytes) (hs : b < vmMemBytes) :
    opInsertWith memcpy h vm i =
      if k = 0 then vm
      else memcpy (memmove vm (a + p + k) (a + p) ((strAt vm a).length - p + 1)) (a + p) b k := by
  subst ha hb
  have hrem : vmMemBytes - (vm.reg (ra i)).toNat ≠ 0 := by omega
  have hle := add_length_strAt_le vm hd
  have hpos := toNat_clamp (Nat.le_of_add_left_le hle) (cvOrImm vm i)
  rw [hp] at hpos
  simp only [opInsertWith, not_le.2 hd, not_le.2 hs, or_self, if_false, safeStrlenAt_eq,
    safeMemRemaining_eq, ite_space, hk, if_neg hrem]
  generalize (if (strAt vm (vm.reg (ra i)).toNat).length < (cvOrImm vm i).toNat then
    UInt32.ofNat (strAt vm (vm.reg (ra i)).toNat).length else cvOrImm vm i) = pos at hpos ⊢
  have hspace : k ≤ space vm (vm.reg (ra i)).toNat := hk ▸ min_le_right _ _
  rcases Nat.eq_zero_or_pos k with hzero | hzero
  · rw [if_pos hzero, if_neg (by omega)]
  · have hend := add_length_add_lt hspace hzero
    have hple : p ≤ (strAt vm (vm.reg (ra i)).toNat).length := hp ▸ min_le_right _ _
    have hat : (vm.reg (ra i) + pos).toNat = (vm.reg (ra i)).toNat + p := by
      rw [toNat_add_of_le (by omega), hpos]
    rw [if_neg hzero.ne', if_pos hzero, if_neg (by omega), hpos]

lemma mem_opInsert (ha : (vm.reg (ra i)).toNat = a) (hb : (bv vm i).toNat = b)
    (hp : min (cvOrImm vm i).toNat (strAt vm a).length = p)
    (hk : min (strAt vm b).length (space vm a) = k) (hd : a < vmMemBytes) (hs : b < vmMemBytes) :
    (opInsert h vm i).mem =
      if k = 0 then vm.mem
      else move (move vm.mem (a + p + k) (a + p) ((strAt vm a).length - p + 1)) (a + p) b k := by
  rw [← opInsertWith_memmove, opInsertWith_eq h memmove ha hb hp hk hd hs]
  split_ifs
  · rfl
  · rw [mem_memmove, mem_memmove]

lemma rewrites_opConcat (ha : (bv vm i).toNat = a) (hb : (cv vm i).toNat = b)
    (hk : min (strAt vm b).length (space vm a) = k) (hd : a < vmMemBytes) (hs : b < vmMemBytes) :
    Rewrites vm (opConcat h vm i) a (strAt vm a ++ (strAt vm b).take k)
      (a + (strAt vm a).length) (a + (strAt vm a).length + k) := by
  have hmem := mem_opConcat h ha hb hk hd hs
  have hle := add_length_strAt_le vm hd
  have hspace : k ≤ space vm a := hk ▸ min_le_right _ _
  refine ⟨?_, fun c hc => ?_⟩
  · rw [strAt, hmem]
    refine str_append (hk ▸ min_le_left _ _) ?_
    rcases Nat.eq_zero_or_pos k with hzero | hzero
    · rwa [hzero]
    · exact (add_length_add_lt hspace hzero).le
  · rw [hmem]
    exact terminate_move_of_not_mem hc

lemma rewrites_opInsert (ha : (vm.reg (ra i)).toNat = a) (hb : (bv vm i).toNat = b)
    (hp : min (cvOrImm vm i).toNat (strAt vm a).length = p)
    (hk : min (strAt vm b).length (space vm a) = k) (hd : a < vmMemBytes) (hs : b < vmMemBytes)
    (hapart : ∀ j < k, b + j ∉ Set.Icc (a + p) (a + (strAt vm a).length + k)) :
    Rewrites vm (opInsert h vm i) a
      ((strAt vm a).take p ++ (strAt vm b).take k ++ (strAt vm a).drop p)
      (a + p) (a + (strAt vm a).length + k) := by
  have hmem := mem_opInsert h ha hb hp hk hd hs
  have hple : p ≤ (strAt vm a).length := hp ▸ min_le_right _ _
  split_ifs at hmem with hzero
  · refine .of_mem_eq hmem ?_
    rw [hzero, List.take_zero, List.append_nil, List.take_append_drop]
  · have hend := add_length_add_lt (hk ▸ min_le_right _ _) (Nat.pos_of_ne_zero hzero)
    refine ⟨?_, fun c hc => ?_⟩
    · rw [strAt, hmem]
      exact str_insert hple (hk ▸ min_le_left _ _) hend hapart
    · rw [hmem]
      rcases hc with hc | hc
      · rw [move_of_lt hc, move_of_lt (by omega)]
      · rw [move_of_ge (by omega), move_of_ge (by omega)]

/-! ### `delete` -/

/-- The move of `delete` in a terminated string. -/
lemma strAt_delete (hd : a + (strAt vm a).length < vmMemBytes)
    (hk : p + k ≤ (strAt vm a).length) :
    strAt (memmove vm (a + p) (a + p + k) ((strAt vm a).length - p - k + 1)) a =
      (strAt vm a).take p ++ (strAt vm a).drop (p + k) := str_delete hd hk

lemma length_strAt_delete (hd : a + (strAt vm a).length < vmMemBytes)
    (hk : p + k ≤ (strAt vm a).length) :
    (strAt (memmove vm (a + p) (a + p + k) ((strAt vm a).length - p - k + 1)) a).length =
      (strAt vm a).length - k := by
  rw [strAt_delete hd hk, List.length_append, List.length_take, List.length_drop]
  omega

/-- The length of the move counts a terminator; in a string without one it is cut by
`safe_memmove`. -/
lemma mem_opDelete (ha : (vm.reg (ra i)).toNat = a) (hp : (bv vm i).toNat = p)
    (hk : min (cvOrImm vm i).toNat ((strAt vm a).length - p) = k) (hin : a < vmMemBytes) :
    (opDelete h vm i).mem =
      if (strAt vm a).length ≤ p then vm.mem
      else
        move vm.mem (a + p) (a + p + k)
          (min ((strAt vm a).length - p - k + 1) (vmMemBytes - (a + p + k))) := by
  subst ha hp
  have hle := add_length_strAt_le vm hin
  have hclamp := @toNat_clamp ((strAt vm (vm.reg (ra i)).toNat).length - (bv vm i).toNat)
    (by omega) (cvOrImm vm i)
  rw [hk] at hclamp
  simp only [opDelete, if_neg (not_le.2 hin), safeStrlenAt_eq]
  generalize (if (strAt vm (vm.reg (ra i)).toNat).length - (bv vm i).toNat < (cvOrImm vm i).toNat
    then UInt32.ofNat ((strAt vm (vm.reg (ra i)).toNat).length - (bv vm i).toNat)
    else cvOrImm vm i) = n at hclamp ⊢
  split_ifs with hpos
  · rfl
  · have hdest : (vm.reg (ra i) + bv vm i).toNat = (vm.reg (ra i)).toNat + (bv vm i).toNat :=
      toNat_add_of_le (by omega)
    have hsrc : (vm.reg (ra i) + bv vm i + n).toNat =
        (vm.reg (ra i)).toNat + (bv vm i).toNat + k := by
      rw [toNat_add_of_le (by omega), hdest, hclamp]
    rw [hclamp, safeMemmove_of_src_le vm hdest hsrc (Nat.le_add_right _ k), mem_memmove]

lemma rewrites_opDelete (ha : (vm.reg (ra i)).toNat = a) (hp : (bv vm i).toNat = p)
    (hn : (cvOrImm vm i).toNat = n) (hin : a < vmMemBytes)
    (hok : a + (strAt vm a).length < vmMemBytes ∨ (strAt vm a).length ≤ p ∨ n = 0) :
    Rewrites vm (opDelete h vm i) a ((strAt vm a).take p ++ (strAt vm a).drop (p + n))
      (a + p) (a + (strAt vm a).length) := by
  obtain ⟨k, hk⟩ : ∃ k, min n ((strAt vm a).length - p) = k := ⟨_, rfl⟩
  have hmem := mem_opDelete h ha hp (hn.symm ▸ hk) hin
  split_ifs at hmem with hpos
  · refine .of_mem_eq hmem ?_
    rw [List.take_of_length_le hpos, List.drop_eq_nil_of_le (by omega), List.append_nil]
  · rcases hok with hd | hok | rfl
    · have hdrop : (strAt vm a).drop (p + n) = (strAt vm a).drop (p + k) := by
        rcases le_total n ((strAt vm a).length - p) with hle | hle
        · rw [← hk, min_eq_left hle]
        · rw [List.drop_eq_nil_of_le (by omega), List.drop_eq_nil_of_le (by omega)]
      rw [min_eq_left (by omega)] at hmem
      refine ⟨?_, fun b hb => ?_⟩
      · rw [hdrop, ← strAt_delete hd (by omega)]
        simp only [strAt, hmem, mem_memmove]
      · rw [hmem]
        rcases hb with hb | hb
        · exact move_of_lt hb
        · exact move_of_ge (by omega)
    · exact absurd hok hpos
    · refine .of_mem_eq ?_ ?_
      · rw [hmem, ← hk, Nat.zero_min, Nat.add_zero, move_self]
      · rw [Nat.add_zero, List.take_append_drop]

/-- `delete` leaves a string that reaches the end of memory as long as it was. -/
lemma length_strAt_opDelete (ha : (vm.reg (ra i)).toNat = a) (hin : a < vmMemBytes)
    (hend : vmMemBytes ≤ a + (strAt vm a).length) :
    (strAt (opDelete h vm i) a).length = vmMemBytes - a := by
  have hold : ∀ b, a ≤ b → b < vmMemBytes → vm.mem b ≠ 0 := fun b hle hlt =>
    ne_zero_of_lt_str hle (hlt.trans_le hend)
  have hmem := mem_opDelete h ha rfl rfl hin
  refine le_antisymm (length_str_le _ _ _) (le_length_str (by omega) fun b hle hlt => ?_)
  rw [Nat.add_sub_cancel' hin.le] at hlt
  rw [hmem]
  split_ifs
  · exact hold b hle hlt
  · -- what stands at `b` now stood in the string before
    rw [move]
    split_ifs
    · exact hold _ (by omega) (by omega)
    · exact hold b hle hlt

/-- `delete` does what it should, unless the string is not terminated and something is deleted: then
the bytes behind the deleted ones are moved, but nothing ends the string behind them. -/
lemma rewrites_opDelete_iff (ha : (vm.reg (ra i)).toNat = a) (hp : (bv vm i).toNat = p)
    (hn : (cvOrImm vm i).toNat = n) (hin : a < vmMemBytes) :
    Rewrites vm (opDelete h vm i) a ((strAt vm a).take p ++ (strAt vm a).drop (p + n))
        (a + p) (a + (strAt vm a).length) ↔
      a + (strAt vm a).length < vmMemBytes ∨ (strAt vm a).length ≤ p ∨ n = 0 := by
  refine ⟨fun hr => ?_, rewrites_opDelete h ha hp hn hin⟩
  by_contra hnot
  simp only [not_or, not_lt, not_le] at hnot
  obtain ⟨hend, hpos, hzero⟩ := hnot
  have hle := add_length_strAt_le vm hin
  have hlen := length_strAt_opDelete h ha hin hend
  rw [hr.str, List.length_append, List.length_take, List.length_drop] at hlen
  omega

/-! ### `replace` -/

/-- Of `replace` the deletion is left, after which the string is measured again, and the two copies
that put back as many bytes as there is space for. -/
lemma opReplaceWith_of_le (memcpy : VmState → ℕ → ℕ → ℕ → VmState) {vm₁ : VmState}
    (ha : (vm.reg (ra i)).toNat = a) (hb : (bv vm i).toNat = b) (hp : (cvOrImm vm i).toNat = p)
    (hk : min (strAt vm b).length ((strAt vm a).length - p) = k) (hd : a < vmMemBytes)
    (hs : b < vmMemBytes) (hple : p ≤ (strAt vm a).length)
    (hvm₁ : memmove vm (a + p) (a + p + k)
      (min ((strAt vm a).length - p - k + 1) (vmMemBytes - (a + p + k))) = vm₁)
    (hn : min k (space vm₁ a) = n) :
    opReplaceWith memcpy h vm i =
      if n = 0 then vm₁
      else memcpy (memmove vm₁ (a + p + n) (a + p) ((strAt vm₁ a).length - p + 1)) (a + p) b n := by
  subst ha hb hp
  have hle := add_length_strAt_le vm hd
  have hclamp : (if (strAt vm (vm.reg (ra i)).toNat).length <
      (cvOrImm vm i).toNat + (strAt vm (bv vm i).toNat).length then
      (strAt vm (vm.reg (ra i)).toNat).length - (cvOrImm vm i).toNat
      else (strAt vm (bv vm i).toNat).length) = k := by
    split_ifs <;> omega
  have hat : (vm.reg (ra i) + cvOrImm vm i).toNat =
      (vm.reg (ra i)).toNat + (cvOrImm vm i).toNat := toNat_add_of_le (by omega)
  have hsrc : (UInt32.ofNat ((vm.reg (ra i) + cvOrImm vm i).toNat + k)).toNat =
      (vm.reg (ra i)).toNat + (cvOrImm vm i).toNat + k := by
    rw [toNat_ofNat_of_le (by omega), hat]
  simp only [opReplaceWith, not_le.2 hd, not_le.2 hs, or_self, if_false, safeStrlenAt_eq,
    if_neg (not_lt.2 hple), hclamp]
  rw [safeMemmove_of_src_le vm hat hsrc (Nat.le_add_right _ k), hvm₁]
  simp only [safeMemRemaining_eq, ite_space, hn]
  rcases Nat.eq_zero_or_pos n with hzero | hpos
  · rw [if_pos hzero, if_neg (by omega)]
  · rw [if_pos hpos, if_neg hpos.ne']

/-- In a terminated string the deletion makes space for all `k` bytes. -/
lemma opReplaceWith_eq (memcpy : VmState → ℕ → ℕ → ℕ → VmState) (ha : (vm.reg (ra i)).toNat = a)
    (hb : (bv vm i).toNat = b) (hp : (cvOrImm vm i).toNat = p)
    (hk : min (strAt vm b).length ((strAt vm a).length - p) = k)
    (hd : a + (strAt vm a).length < vmMemBytes) (hs : b < vmMemBytes)
    (hple : p ≤ (strAt vm a).length) :
    opReplaceWith memcpy h vm i =
      if k = 0 then vm
      else
        memcpy
          (memmove (memmove vm (a + p) (a + p + k) ((strAt vm a).length - p - k + 1)) (a + p + k)
            (a + p) ((strAt vm a).length - p - k + 1))
          (a + p) b k := by
  have hlen := length_strAt_delete hd (by omega : p + k ≤ _)
  have hroom : min ((strAt vm a).length - p - k + 1) (vmMemBytes - (a + p + k)) =
      (strAt vm a).length - p - k + 1 := min_eq_left (by omega)
  have hspace : min k (space (memmove vm (a + p) (a + p + k) ((strAt vm a).length - p - k + 1)) a) =
      k := by
    rw [space, hlen]
    omega
  have htail : (strAt vm a).length - k - p = (strAt vm a).length - p - k := Nat.sub_right_comm _ _ _
  rw [opReplaceWith_of_le h memcpy ha hb hp hk (Nat.lt_of_add_right_lt hd) hs hple
    (congrArg (memmove vm (a + p) (a + p + k)) hroom) hspace, hlen, htail]
  rcases Nat.eq_zero_or_pos k with rfl | hpos
  · rw [if_pos rfl, if_pos rfl, Nat.add_zero, memmove_self]
  · rw [if_neg hpos.ne', if_neg hpos.ne']

/-- The first `k` bytes of a string are written over the string at `a`, from position `p` on. -/
lemma mem_opReplace (ha : (vm.reg (ra i)).toNat = a) (hb : (bv vm i).toNat = b)
    (hp : (cvOrImm vm i).toNat = p) (hk : min (strAt vm b).length ((strAt vm a).length - p) = k)
    (hd : a + (strAt vm a).length < vmMemBytes) (hs : b < vmMemBytes)
    (hple : p ≤ (strAt vm a).length) :
    (opReplace h vm i).mem =
      move
        (move (move vm.mem (a + p) (a + p + k) ((strAt vm a).length - p - k + 1)) (a + p + k) (a + p)
          ((strAt vm a).length - p - k + 1))
        (a + p) b k := by
  rw [← opReplaceWith_memmove, opReplaceWith_eq h memmove ha hb hp hk hd hs hple]
  split_ifs with hzero
  · rw [hzero, Nat.add_zero, move_zero, move_self, move_self]
  · rw [mem_memmove, mem_memmove, mem_memmove]

/-- A move writes the window of the old place. -/
lemma move_eq_overlay (mem : ℕ → UInt8) (dest src n : ℕ) :
    move mem dest src n = overlay mem dest (window mem src n) := by
  funext c
  rw [move, overlay, length_window]
  split_ifs with hc
  · rw [getD_window mem src (by omega)]
  · rfl

/-- What is behind the replaced bytes goes down and up again, so only these bytes change. -/
lemma mem_opReplace_eq_overlay (ha : (vm.reg (ra i)).toNat = a) (hb : (bv vm i).toNat = b)
    (hp : (cvOrImm vm i).toNat = p) (hk : min (strAt vm b).length ((strAt vm a).length - p) = k)
    (hd : a + (strAt vm a).length < vmMemBytes) (hs : b < vmMemBytes)
    (hple : p ≤ (strAt vm a).length)
    (hapart : b + k ≤ a + p ∨ a + p + k ≤ b) :
    (opReplace h vm i).mem = overlay vm.mem (a + p) ((strAt vm b).take k) := by
  have hkb : k ≤ (strAt vm b).length := hk ▸ min_le_left _ _
  have hlen : ((strAt vm b).take k).length = k := List.length_take_of_le hkb
  have hback : ∀ c, c < a + p ∨ a + p + k ≤ c →
      move (move vm.mem (a + p) (a + p + k) ((strAt vm a).length - p - k + 1)) (a + p + k) (a + p)
        ((strAt vm a).length - p - k + 1) c = vm.mem c := fun c hc => move_move_of_not_mem hc
  rw [mem_opReplace h ha hb hp hk hd hs hple, move_eq_overlay]
  generalize move (move vm.mem (a + p) (a + p + k) ((strAt vm a).length - p - k + 1)) (a + p + k)
    (a + p) ((strAt vm a).length - p - k + 1) = mem at hback ⊢
  have hsrc : window mem b k = (strAt vm b).take k := by
    rw [← window_take_str hkb]
    exact window_congr fun c _ _ => hback c (by omega)
  rw [hsrc]
  funext c
  rw [overlay, overlay, hlen]
  split_ifs with hc
  · rfl
  · exact hback c (by omega)

lemma strAt_opReplace (ha : (vm.reg (ra i)).toNat = a) (hb : (bv vm i).toNat = b)
    (hp : (cvOrImm vm i).toNat = p) (hk : min (strAt vm b).length ((strAt vm a).length - p) = k)
    (hd : a + (strAt vm a).length < vmMemBytes) (hs : b < vmMemBytes)
    (hple : p ≤ (strAt vm a).length)
    (hapart : b + k ≤ a + p ∨ a + p + k ≤ b) :
    strAt (opReplace h vm i) a =
      (strAt vm a).take p ++ (strAt vm b).take k ++ (strAt vm a).drop (p + k) := by
  have hmem := mem_opReplace_eq_overlay h ha hb hp hk hd hs hple hapart
  have hlen : ((strAt vm b).take k).length = k := List.length_take_of_le (hk ▸ min_le_left _ _)
  have hkd : p + k ≤ (strAt vm a).length := by omega
  refine str_overwrite (by omega) hkd ?_ (zero_not_mem_take_str _ _ _ _) fun c hc => ?_
  · rw [hmem]
    refine List.ext_getElem (by rw [length_window, hlen]) fun j hj _ => ?_
    rw [length_window] at hj
    simp only [window, List.getElem_map, List.getElem_range]
    exact overlay_getElem _ _ _ (by omega)
  · rw [hmem, overlay_of_not_mem]
    omega

lemma length_strAt_opReplace (ha : (vm.reg (ra i)).toNat = a) (hb : (bv vm i).toNat = b)
    (hp : (cvOrImm vm i).toNat = p) (hk : min (strAt vm b).length ((strAt vm a).length - p) = k)
    (hd : a + (strAt vm a).length < vmMemBytes) (hs : b < vmMemBytes)
    (hple : p ≤ (strAt vm a).length)
    (hapart : b + k ≤ a + p ∨ a + p + k ≤ b) :
    (strAt (opReplace h vm i) a).length = (strAt vm a).length := by
  rw [strAt_opReplace h ha hb hp hk hd hs hple hapart, List.length_append, List.length_append,
    List.length_take, List.length_take, List.length_drop]
  omega

end Handlers

/-! ### The handlers, on strings -/

/-- `concat` and `insert` build the right string, cut to the space that is left: if the bytes to be
added do not stand where the handler writes, the string becomes itself with them behind it, or at
the position, and nothing outside the written interval changes. -/
theorem concat_insert (h : Host) (vm : VmState) (i : UInt32) :
    (let a := (bv vm i).toNat
     let b := (cv vm i).toNat
     let d := strAt vm a
     let s := strAt vm b
     let k := min s.length (vmMemBytes - a - d.length - 1)
     a < vmMemBytes → b < vmMemBytes →
       (∀ j < k, b + j ∉ Set.Icc (a + d.length) (a + d.length + k)) →
       Rewrites vm (opConcat h vm i) a (d ++ s.take k) (a + d.length) (a + d.length + k)) ∧
    (let a := (vm.reg (ra i)).toNat
     let b := (bv vm i).toNat
     let d := strAt vm a
     let s := strAt vm b
     let p := min (cvOrImm vm i).toNat d.length
     let k := min s.length (vmMemBytes - a - d.length - 1)
     a < vmMemBytes → b < vmMemBytes →
       (∀ j < k, b + j ∉ Set.Icc (a + p) (a + d.length + k)) →
       Rewrites vm (opInsert h vm i) a (d.take p ++ s.take k ++ d.drop p) (a + p)
         (a + d.length + k)) :=
  ⟨fun hd hs _ => rewrites_opConcat h rfl rfl rfl hd hs,
    fun hd hs hapart => rewrites_opInsert h rfl rfl rfl rfl hd hs hapart⟩

/-- The strings `abc` and, four bytes in front of the end of memory, `c`, with their addresses in
the registers 1 and 2. -/
def twoStrings : VmState :=
  withText (fun r => if r = 1 then 0x3FFFFF0 else 0x3FFFFFC) 0x3FFFFF0
    [97, 98, 99, 0, 0, 0, 0, 0, 0, 0, 0, 0, 99, 0, 0, 0]

/-- The operands of the word that names the registers 1 and 2 and the immediate 1. -/
lemma twoStrings_operands :
    (twoStrings.reg (ra 0x20501)).toNat = 0x3FFFFF0 ∧ (bv twoStrings 0x20501).toNat = 0x3FFFFFC ∧
      (cv twoStrings 0x20501).toNat = 0x3FFFFF0 ∧ (cvOrImm twoStrings 0x20501).toNat = 1 := by
  decide +kernel

lemma strAt_twoStrings :
    strAt twoStrings 0x3FFFFF0 = [97, 98, 99] ∧ strAt twoStrings 0x3FFFFFC = [99] := by
  decide +kernel

/-- `concat` has space for two of three bytes; `insert` puts `c` at position 1. -/
theorem concat_insert_two :
    Rewrites twoStrings (opConcat idleHost twoStrings 0x20501) 0x3FFFFFC [99, 97, 98]
        0x3FFFFFD 0x3FFFFFF ∧
      Rewrites twoStrings (opInsert idleHost twoStrings 0x20501) 0x3FFFFF0 [97, 99, 98, 99]
        0x3FFFFF1 0x3FFFFF4 := by
  obtain ⟨ha, hb, hc, hn⟩ := twoStrings_operands
  obtain ⟨habc, hchar⟩ := strAt_twoStrings
  have h := concat_insert idleHost twoStrings 0x20501
  simp only [ha, hb, hc, hn, habc, hchar] at h
  exact ⟨h.1 (by decide) (by decide) (by decide), h.2 (by decide) (by decide) (by decide)⟩

/-- `replace` writes over a terminated string in place: at every position up to its end, and for
every other string that does not stand where the handler writes, memory is as before but for the
replaced bytes, and the string is as long as before. -/
theorem replace_in_place (h : Host) (vm : VmState) (i : UInt32) :
    let a := (vm.reg (ra i)).toNat
    let b := (bv vm i).toNat
    let pos := (cvOrImm vm i).toNat
    let d := strAt vm a
    let r := strAt vm b
    let k := min r.length (d.length - pos)
    a + d.length < vmMemBytes → b < vmMemBytes → pos ≤ d.length →
      (∀ j < k, b + j ∉ Set.Icc (a + pos) (a + d.length)) →
      (opReplace h vm i).mem = overlay vm.mem (a + pos) (r.take k) ∧
        (strAt (opReplace h vm i) a).length = d.length := by
  intro a b pos d r k hd hs hpos hapart
  have hk : pos + k ≤ d.length := by omega
  have hside := apart_of_not_mem (by omega : a + pos + k ≤ a + d.length) hapart
  exact ⟨mem_opReplace_eq_overlay h rfl rfl rfl rfl hd hs hpos hside,
    length_strAt_opReplace h rfl rfl rfl rfl hd hs hpos hside⟩

/-- The `b` of `abc` is replaced by `c`. -/
theorem replace_in_place_two :
    (opReplace idleHost twoStrings 0x20501).mem = overlay twoStrings.mem 0x3FFFFF1 [99] ∧
      (strAt (opReplace idleHost twoStrings 0x20501) 0x3FFFFF0).length = 3 := by
  obtain ⟨ha, hb, -, hn⟩ := twoStrings_operands
  obtain ⟨habc, hchar⟩ := strAt_twoStrings
  have h := replace_in_place idleHost twoStrings 0x20501
  simp only [ha, hb, hn, habc, hchar] at h
  exact h (by decide) (by decide) (by decide) (by decide)

/-- `delete` removes exactly the requested bytes, in place, if and only if the string is terminated
inside memory, or the position is behind it, or no byte is to be removed. -/
theorem delete_exact_iff (h : Host) (vm : VmState) (i : UInt32)
    (ha : (vm.reg (ra i)).toNat < vmMemBytes) :
    let a := (vm.reg (ra i)).toNat
    let pos := (bv vm i).toNat
    let n := (cvOrImm vm i).toNat
    let d := strAt vm a
    Rewrites vm (opDelete h vm i) a (d.take pos ++ d.drop (pos + n)) (a + pos) (a + d.length) ↔
      a + d.length < vmMemBytes ∨ d.length ≤ pos ∨ n = 0 :=
  rewrites_opDelete_iff h rfl rfl rfl ha

/-- A text in memory, its address in register 1 and a position in the other registers. -/
def deleting (addr pos : UInt32) (text : List UInt8) : VmState :=
  withText (fun r => if r = 1 then addr else pos) addr.toNat text

/-- The `b` of `abc` is deleted. -/
theorem delete_exact_iff_abc :
    Rewrites (deleting 0x3FFFFF0 1 [97, 98, 99]) (opDelete idleHost
      (deleting 0x3FFFFF0 1 [97, 98, 99]) 0x20501) 0x3FFFFF0 [97, 99] 0x3FFFFF1 0x3FFFFF3 := by
  have hstr : strAt (deleting 0x3FFFFF0 1 [97, 98, 99])
      ((deleting 0x3FFFFF0 1 [97, 98, 99]).reg (ra 0x20501)).toNat = [97, 98, 99] := by
    decide +kernel
  have h := delete_exact_iff idleHost (deleting 0x3FFFFF0 1 [97, 98, 99]) 0x20501 (by decide +kernel)
  simp only [hstr] at h
  exact h.2 (.inl (by decide))

/-- From `ab`, which reaches the end of memory, the first byte is deleted: `b` stands at the front,
and `b` still stands behind it. -/
theorem delete_leaves_last_byte :
    ¬∀ (h : Host) (vm : VmState) (i : UInt32), (vm.reg (ra i)).toNat < vmMemBytes →
      let a := (vm.reg (ra i)).toNat
      let pos := (bv vm i).toNat
      let n := (cvOrImm vm i).toNat
      let d := strAt vm a
      Rewrites vm (opDelete h vm i) a (d.take pos ++ d.drop (pos + n)) (a + pos)
        (a + d.length) := by
  intro hall
  have hr := hall idleHost (deleting 0x3FFFFFE 0 [97, 98]) 0x20501 (by decide +kernel)
  exact absurd hr.str (by decide +kernel)

end Vm32
