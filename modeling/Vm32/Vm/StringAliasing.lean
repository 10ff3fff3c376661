/-
# Inserting and replacing with overlapping strings

`insert` and `replace` read the string to be put in after they have moved the bytes behind its
place.  What they read is the string as it was only if nothing was moved onto it, or what was moved
there is the same.  The string is read by a `memcpy`, so it must stand apart from the place itself
as well, or nothing is known about the outcome.

`replace` moves the bytes behind its place down and up again, so in a terminated string only the
second condition is left.  In a string that reaches the end of memory there is no terminator to move
down: `replace` finds no space and puts nothing back.
-/
import Vm32.Vm.StringSplice

namespace Vm32

open BoundedString

/-- A `memcpy` that clears memory where it may do anything. -/
def clearingMemcpy (vm : VmState) (dest src n : ℕ) : VmState :=
  if src + n ≤ dest ∨ dest + n ≤ src then memmove vm dest src n else { vm with mem := fun _ => 0 }

lemma isMemcpy_clearingMemcpy : IsMemcpy clearingMemcpy := fun _ _ _ _ hapart => if_pos hapart

lemma strAt_clearingMemcpy {vm : VmState} {dest src n : ℕ}
    (hover : ¬(src + n ≤ dest ∨ dest + n ≤ src)) (a : ℕ) :
    strAt (clearingMemcpy vm dest src n) a = [] := by
  rw [clearingMemcpy, if_neg hover]
  refine List.eq_nil_iff_forall_not_mem.2 fun x hx => ?_
  obtain ⟨_, _, _, rfl⟩ := mem_window.1 (List.takeWhile_subset _ hx)
  exact zero_not_mem_str _ _ _ hx

/-- Every `memcpy` leaves the same nonempty string if and only if its ranges are apart and a
`memmove` leaves it. -/
lemma forall_memcpy_iff {vm : VmState} {dest src n a : ℕ} {s : List UInt8} (hs : s ≠ []) :
    (∀ memcpy, IsMemcpy memcpy → strAt (memcpy vm dest src n) a = s) ↔
      (src + n ≤ dest ∨ dest + n ≤ src) ∧ strAt (memmove vm dest src n) a = s := by
  constructor
  · intro hall
    refine ⟨?_, hall memmove isMemcpy_memmove⟩
    by_contra hover
    have hclear := hall clearingMemcpy isMemcpy_clearingMemcpy
    rw [strAt_clearingMemcpy hover] at hclear
    exact hs hclear.symm
  · rintro ⟨hapart, hmove⟩ memcpy hm
    rw [hm vm dest src n hapart, hmove]

lemma splice_ne_nil {d s e : List UInt8} {k : ℕ} (hk : k ≤ s.length) (hpos : 0 < k) :
    d ++ s.take k ++ e ≠ [] := by
  refine List.ne_nil_of_length_pos ?_
  rw [List.length_append, List.length_append, List.length_take_of_le hk]
  omega

lemma strAt_of_le (vm : VmState) {a : ℕ} (h : vmMemBytes ≤ a) : strAt vm a = [] := by
  rw [strAt, str, Nat.sub_eq_zero_of_le h, window_zero, List.takeWhile_nil]

section Handlers

variable (h : Host) {vm : VmState} {i : UInt32} {a b p k : ℕ}
  {memcpy : VmState → ℕ → ℕ → ℕ → VmState}

/-! ### `insert` -/

/-- If a byte is inserted, both strings stand in memory. -/
lemma lt_of_insert_pos (hk : min (strAt vm b).length (space vm a) = k) (hpos : 0 < k) :
    a < vmMemBytes ∧ b < vmMemBytes := by
  constructor
  · have hspace : k ≤ space vm a := hk ▸ min_le_right _ _
    have := add_length_add_lt hspace hpos
    omega
  · by_contra hout
    rw [strAt_of_le vm (not_lt.1 hout), List.length_nil, Nat.zero_min] at hk
    exact hpos.ne hk

lemma opInsertWith_of_zero (ha : (vm.reg (ra i)).toNat = a) (hb : (bv vm i).toNat = b)
    (hk : min (strAt vm b).length (space vm a) = 0) : opInsertWith memcpy h vm i = vm := by
  by_cases hout : vmMemBytes ≤ a ∨ vmMemBytes ≤ b
  · subst ha hb
    simp only [opInsertWith, hout, if_true]
  · obtain ⟨hd, hs⟩ := not_or.1 hout
    rw [opInsertWith_eq h memcpy ha hb rfl hk (not_le.1 hd) (not_le.1 hs), if_pos rfl]

/-- Whatever the `memcpy`, `insert` puts in the bytes that stood there before: nothing is put in, or
what is put in stands below its place, or it stands above, and what was moved onto it is the
same. -/
lemma strAt_opInsertWith_iff (ha : (vm.reg (ra i)).toNat = a) (hb : (bv vm i).toNat = b)
    (hp : min (cvOrImm vm i).toNat (strAt vm a).length = p)
    (hk : min (strAt vm b).length (space vm a) = k) :
    (∀ memcpy, IsMemcpy memcpy → strAt (opInsertWith memcpy h vm i) a =
        (strAt vm a).take p ++ (strAt vm b).take k ++ (strAt vm a).drop p) ↔
      k = 0 ∨ b + k ≤ a + p ∨ a + p + k ≤ b ∧
        ∀ j < k, b + j ≤ a + (strAt vm a).length + k → vm.mem (b + j - k) = vm.mem (b + j) := by
  rcases Nat.eq_zero_or_pos k with rfl | hpos
  · refine iff_of_true (fun memcpy _ => ?_) (.inl rfl)
    rw [opInsertWith_of_zero h ha hb hk, List.take_zero, List.append_nil, List.take_append_drop]
  · obtain ⟨hd, hs⟩ := lt_of_insert_pos hk hpos
    have hkb : k ≤ (strAt vm b).length := hk ▸ min_le_left _ _
    have hend := add_length_add_lt (hk ▸ min_le_right _ _) hpos
    have hple : p ≤ (strAt vm a).length := hp ▸ min_le_right _ _
    have hins := fun memcpy => opInsertWith_eq h memcpy ha hb hp hk hd hs
    simp only [if_neg hpos.ne'] at hins
    simp only [hins]
    refine (forall_memcpy_iff (splice_ne_nil hkb hpos)).trans ?_
    refine (and_congr_right' (str_insert_iff hple hkb hend)).trans ?_
    constructor
    · rintro ⟨hbelow | habove, hread⟩
      · exact .inr (.inl hbelow)
      · exact .inr (.inr ⟨habove, fun j hj => hread j hj (by omega)⟩)
    · rintro (hzero | hbelow | ⟨habove, hread⟩)
      · exact absurd hzero hpos.ne'
      · -- the end of the string is not moved so far down
        exact ⟨.inl hbelow, fun j hj hle _ => absurd hle (by omega)⟩
      · exact ⟨.inr habove, fun j hj _ => hread j hj⟩

/-! ### `replace` -/

/-- Nothing is replaced if the addresses are not both in memory, or the position is behind the end
of the string. -/
lemma opReplaceWith_of_outside (ha : (vm.reg (ra i)).toNat = a) (hb : (bv vm i).toNat = b)
    (hp : (cvOrImm vm i).toNat = p)
    (hout : (vmMemBytes ≤ a ∨ vmMemBytes ≤ b) ∨ (strAt vm a).length < p) :
    opReplaceWith memcpy h vm i = vm := by
  subst ha hb hp
  rcases hout with hout | hout
  · simp only [opReplaceWith, hout, if_true]
  · simp only [opReplaceWith, safeStrlenAt_eq, hout, if_true, ite_self]

/-- In a string that reaches the end of memory the bytes behind the replaced ones go down, and
there is no space to put anything back. -/
lemma strAt_opReplaceWith_of_full (ha : (vm.reg (ra i)).toNat = a) (hb : (bv vm i).toNat = b)
    (hp : (cvOrImm vm i).toNat = p) (hk : min (strAt vm b).length ((strAt vm a).length - p) = k)
    (hd : a < vmMemBytes) (hend : a + (strAt vm a).length = vmMemBytes) (hs : b < vmMemBytes)
    (hple : p ≤ (strAt vm a).length) :
    strAt (opReplaceWith memcpy h vm i) a =
      (strAt vm a).take p ++ (strAt vm a).drop (p + k) ++
        (strAt vm a).drop ((strAt vm a).length - k) := by
  have hkd : p + k ≤ (strAt vm a).length := by omega
  have hroom : min ((strAt vm a).length - p - k + 1) (vmMemBytes - (a + p + k)) =
      (strAt vm a).length - p - k := by omega
  have hdel : strAt (memmove vm (a + p) (a + p + k) ((strAt vm a).length - p - k)) a =
      (strAt vm a).take p ++ (strAt vm a).drop (p + k) ++
        (strAt vm a).drop ((strAt vm a).length - k) := str_delete_of_full hend hkd
  have hspace : min k (space (memmove vm (a + p) (a + p + k) ((strAt vm a).length - p - k)) a) =
      0 := by
    rw [space, hdel, List.length_append, List.length_append, List.length_take, List.length_drop,
      List.length_drop]
    omega
  rw [opReplaceWith_of_le h memcpy ha hb hp hk hd hs hple
    (congrArg (memmove vm (a + p) (a + p + k)) hroom) hspace, if_pos rfl, hdel]

/-- In a terminated string `replace` writes the bytes that stood there before if they stand apart
from their place. -/
lemma strAt_opReplaceWith_iff_apart (ha : (vm.reg (ra i)).toNat = a) (hb : (bv vm i).toNat = b)
    (hp : (cvOrImm vm i).toNat = p) (hk : min (strAt vm b).length ((strAt vm a).length - p) = k)
    (hend : a + (strAt vm a).length < vmMemBytes) (hs : b < vmMemBytes)
    (hple : p ≤ (strAt vm a).length) :
    (∀ memcpy, IsMemcpy memcpy → strAt (opReplaceWith memcpy h vm i) a =
        (strAt vm a).take p ++ (strAt vm b).take k ++ (strAt vm a).drop (p + k)) ↔
      k = 0 ∨ b + k ≤ a + p ∨ a + p + k ≤ b := by
  have hkb : k ≤ (strAt vm b).length := hk ▸ min_le_left _ _
  have hrep := fun memcpy => opReplaceWith_eq h memcpy ha hb hp hk hend hs hple
  simp only [hrep]
  rcases Nat.eq_zero_or_pos k with rfl | hpos
  · refine iff_of_true (fun memcpy _ => ?_) (.inl rfl)
    rw [if_pos rfl, List.take_zero, List.append_nil, Nat.add_zero, List.take_append_drop]
  · simp only [if_neg hpos.ne'] at hrep ⊢
    refine (forall_memcpy_iff (splice_ne_nil hkb hpos)).trans ?_
    rw [or_iff_right hpos.ne', and_iff_left_iff_imp, ← hrep memmove, opReplaceWith_memmove]
    exact strAt_opReplace h ha hb hp hk hend hs hple

/-- When nothing is replaced, the string is as it was. -/
lemma strAt_opReplaceWith_of_outside (ha : (vm.reg (ra i)).toNat = a) (hb : (bv vm i).toNat = b)
    (hp : (cvOrImm vm i).toNat = p) (hk : min (strAt vm b).length ((strAt vm a).length - p) = k)
    (hout : (vmMemBytes ≤ a ∨ vmMemBytes ≤ b) ∨ (strAt vm a).length < p) :
    k = 0 ∧ strAt (opReplaceWith memcpy h vm i) a =
      (strAt vm a).take p ++ (strAt vm b).take k ++ (strAt vm a).drop (p + k) := by
  have hzero : k = 0 := by
    rcases hout with (hout | hout) | hout
    · rw [← hk, strAt_of_le vm hout, List.length_nil, Nat.zero_sub, Nat.min_zero]
    · rw [← hk, strAt_of_le vm hout, List.length_nil, Nat.zero_min]
    · omega
  refine ⟨hzero, ?_⟩
  rw [opReplaceWith_of_outside h ha hb hp hout, hzero, List.take_zero, List.append_nil,
    Nat.add_zero, List.take_append_drop]

/-- In a string that reaches the end of memory `replace` is right if the wanted string happens to be
what is left after the deletion. -/
lemma strAt_opReplaceWith_iff (ha : (vm.reg (ra i)).toNat = a) (hb : (bv vm i).toNat = b)
    (hp : (cvOrImm vm i).toNat = p) (hk : min (strAt vm b).length ((strAt vm a).length - p) = k) :
    (∀ memcpy, IsMemcpy memcpy → strAt (opReplaceWith memcpy h vm i) a =
        (strAt vm a).take p ++ (strAt vm b).take k ++ (strAt vm a).drop (p + k)) ↔
      if a + (strAt vm a).length < vmMemBytes then k = 0 ∨ b + k ≤ a + p ∨ a + p + k ≤ b
      else (strAt vm a).drop (p + k) ++ (strAt vm a).drop ((strAt vm a).length - k) =
        (strAt vm b).take k ++ (strAt vm a).drop (p + k) := by
  by_cases hout : (vmMemBytes ≤ a ∨ vmMemBytes ≤ b) ∨ (strAt vm a).length < p
  · have hsame := fun memcpy =>
      @strAt_opReplaceWith_of_outside h vm i a b p k memcpy ha hb hp hk hout
    have hzero := (hsame memmove).1
    refine iff_of_true (fun memcpy _ => (hsame memcpy).2) ?_
    split_ifs
    · exact .inl hzero
    · rw [hzero, Nat.sub_zero, List.drop_length, List.append_nil, List.take_zero, List.nil_append]
  · obtain ⟨hin, hple⟩ := not_or.1 hout
    obtain ⟨hd, hs⟩ := not_or.1 hin
    rw [not_le] at hd hs
    rw [not_lt] at hple
    split_ifs with hend
    · exact strAt_opReplaceWith_iff_apart h ha hb hp hk hend hs hple
    · have hfull := add_length_strAt_le vm hd
      simp only [strAt_opReplaceWith_of_full h ha hb hp hk hd (by omega) hs hple, List.append_assoc,
        List.append_cancel_left_eq]
      exact ⟨fun hall => hall memmove isMemcpy_memmove, fun heq _ _ => heq⟩

end Handlers

/-! ### The outcome of overlapping strings -/

/-- `insert` and `replace` with strings that may overlap, and with any `memcpy`, leave the string
that is determined by the two strings before

* for `insert`, if and only if nothing is inserted, or the inserted bytes stand below their place,
  or they stand above it, and each of them that lies where the rest of the string goes is the same
  as the byte `k` places below;
* for `replace` in a terminated string, if and only if nothing is replaced, or the new bytes stand
  apart from their place; in a string that reaches the end of memory, if and only if the string
  without the replaced bytes and with its last `k` bytes twice is the right one. -/
theorem insert_replace_aliasing_iff (h : Host) (vm : VmState) (i : UInt32) :
    let a := (vm.reg (ra i)).toNat
    let b := (bv vm i).toNat
    let pos := (cvOrImm vm i).toNat
    let d := strAt vm a
    let s := strAt vm b
    (let p := min pos d.length
     let k := min s.length (vmMemBytes - a - d.length - 1)
     (∀ memcpy, IsMemcpy memcpy →
         strAt (opInsertWith memcpy h vm i) a = d.take p ++ s.take k ++ d.drop p) ↔
       k = 0 ∨ b + k ≤ a + p ∨ a + p + k ≤ b ∧
         ∀ j < k, b + j ≤ a + d.length + k → vm.mem (b + j - k) = vm.mem (b + j)) ∧
    (let k := min s.length (d.length - pos)
     (∀ memcpy, IsMemcpy memcpy →
         strAt (opReplaceWith memcpy h vm i) a = d.take pos ++ s.take k ++ d.drop (pos + k)) ↔
       if a + d.length < vmMemBytes then k = 0 ∨ b + k ≤ a + pos ∨ a + pos + k ≤ b
       else d.drop (pos + k) ++ d.drop (d.length - k) = s.take k ++ d.drop (pos + k)) :=
  ⟨strAt_opInsertWith_iff h rfl rfl rfl rfl, strAt_opReplaceWith_iff h rfl rfl rfl rfl⟩

/-- The string `ab` and directly behind its terminator the string `cd`, with their addresses in the
registers 1 and 2. -/
def neighbours : VmState :=
  withText (fun r => if r = 1 then 0x3FFFFF0 else 0x3FFFFF3) 0x3FFFFF0 [97, 98, 0, 99, 100, 0]

/-- The operands of the word that names the registers 1 and 2 and the immediate 0. -/
lemma neighbours_operands :
    (neighbours.reg (ra 0x20500)).toNat = 0x3FFFFF0 ∧ (bv neighbours 0x20500).toNat = 0x3FFFFF3 ∧
      (cvOrImm neighbours 0x20500).toNat = 0 := by
  decide +kernel

lemma strAt_neighbours :
    strAt neighbours 0x3FFFFF0 = [97, 98] ∧ strAt neighbours 0x3FFFFF3 = [99, 100] := by
  decide +kernel

/-- Inserted at the front of `ab`, the string `cd` behind it is read when `ab` and its terminator
have been moved onto it: what is left is `b`, and no `memcpy` helps, since its ranges do not
overlap. -/
theorem insert_loses_neighbour :
    ¬∃ memcpy, IsMemcpy memcpy ∧ ∀ (h : Host) (vm : VmState) (i : UInt32),
      let a := (vm.reg (ra i)).toNat
      let b := (bv vm i).toNat
      let d := strAt vm a
      let s := strAt vm b
      let p := min (cvOrImm vm i).toNat d.length
      let k := min s.length (vmMemBytes - a - d.length - 1)
      a < vmMemBytes → b < vmMemBytes →
        (∃ j < s.length, b + j ∈ Set.Icc (a + p) (a + d.length + k)) →
        strAt (opInsertWith memcpy h vm i) a = d.take p ++ s.take k ++ d.drop p := by
  rintro ⟨memcpy, hm, hall⟩
  obtain ⟨ha, hb, hn⟩ := neighbours_operands
  obtain ⟨hab, hcd⟩ := strAt_neighbours
  have hstr := hall idleHost neighbours 0x20500
  simp only [ha, hb, hn, hab, hcd] at hstr
  have hk : min (strAt neighbours 0x3FFFFF3).length (space neighbours 0x3FFFFF0) = 2 := by
    rw [space, hab, hcd]
    decide
  rw [opInsertWith_eq idleHost memcpy ha hb (hn ▸ Nat.zero_min _) hk (by decide) (by decide),
    hm _ _ _ _ (by decide), hab] at hstr
  exact absurd (hstr (by decide) (by decide) ⟨0, by decide, by decide⟩) (by decide +kernel)

end Vm32
