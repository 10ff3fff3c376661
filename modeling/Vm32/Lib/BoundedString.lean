/-
# Strings in a bounded memory

A memory is a function from addresses to letters, one of which, zero, ends a string.  A string at
an address is what stands there up to the first zero or up to the end of memory.  Memory is read
through windows: a string is the window of its own length, taking and dropping letters moves the
ends of a window, and after a block was moved its new place shows the window of the old one.
-/
import Mathlib.Data.List.TakeWhile
import Mathlib.Tactic

namespace BoundedString

open Function

variable {α : Type*}

/-! ### Windows -/

/-- The `n` letters from the address `a` on. -/
def window (mem : ℕ → α) (a n : ℕ) : List α := (List.range n).map fun i => mem (a + i)

section Windows

variable {mem mem' : ℕ → α} {a n k : ℕ}

@[simp] lemma length_window (mem : ℕ → α) (a n : ℕ) : (window mem a n).length = n := by
  simp [window]

@[simp] lemma window_zero (mem : ℕ → α) (a : ℕ) : window mem a 0 = [] := rfl

lemma window_succ (mem : ℕ → α) (a n : ℕ) :
    window mem a (n + 1) = mem a :: window mem (a + 1) n := by
  simp only [window, List.range_succ_eq_map, List.map_cons, List.map_map, Nat.add_zero]
  congr 1
  refine List.map_congr_left fun i _ => ?_
  simp only [comp_apply, Nat.succ_eq_add_one, Nat.add_assoc, Nat.add_comm 1 i]

lemma window_add (mem : ℕ → α) (a m n : ℕ) :
    window mem a (m + n) = window mem a m ++ window mem (a + m) n := by
  simp [window, List.range_add, Nat.add_assoc]

lemma window_congr (h : ∀ b, a ≤ b → b < a + n → mem b = mem' b) :
    window mem a n = window mem' a n := by
  refine List.map_congr_left fun i hi => ?_
  have := List.mem_range.1 hi
  exact h (a + i) (Nat.le_add_right a i) (by omega)

/-- A window that stands apart from an interval does not show a change inside the interval. -/
lemma window_congr_of_apart {lo hi : ℕ} (hapart : ∀ j < n, a + j ∉ Set.Icc lo hi)
    (h : ∀ b, b < lo ∨ hi < b → mem b = mem' b) : window mem a n = window mem' a n := by
  refine window_congr fun b hb hlt => h b ?_
  have hout := hapart (b - a) (by omega)
  rwa [Nat.add_sub_cancel' hb, Set.mem_Icc, not_and_or, not_le, not_le] at hout

/-- A block that stands apart from an interval is below the front of the interval or above it. -/
lemma apart_of_not_mem {b lo hi : ℕ} (hk : lo + k ≤ hi)
    (hapart : ∀ j < k, b + j ∉ Set.Icc lo hi) : b + k ≤ lo ∨ lo + k ≤ b := by
  by_contra hnot
  rcases le_total lo b with hle | hle
  · exact hapart 0 (by omega) ⟨by omega, by omega⟩
  · exact hapart (lo - b) (by omega) ⟨by omega, by omega⟩

lemma window_eq_window_iff {b : ℕ} :
    window mem a n = window mem' b n ↔ ∀ j < n, mem (a + j) = mem' (b + j) := by
  simp only [window, List.map_inj_left, List.mem_range]

lemma take_window (mem : ℕ → α) (a n k : ℕ) :
    (window mem a n).take k = window mem a (min k n) := by
  rw [window, ← List.map_take, List.take_range]
  rfl

lemma drop_window (mem : ℕ → α) (a n k : ℕ) :
    (window mem a n).drop k = window mem (a + k) (n - k) := by
  rcases le_total n k with hle | hle
  · rw [List.drop_eq_nil_of_le (by simpa using hle), Nat.sub_eq_zero_of_le hle, window_zero]
  · obtain ⟨m, rfl⟩ := Nat.exists_eq_add_of_le hle
    rw [window_add, List.drop_left' (length_window mem a k), Nat.add_sub_cancel_left]

lemma getD_window (mem : ℕ → α) (a : ℕ) (h : k < n) (x : α) :
    (window mem a n).getD k x = mem (a + k) := by
  simp [window, List.getD_eq_getElem?_getD, h]

lemma mem_window {x : α} : x ∈ window mem a n ↔ ∃ b, a ≤ b ∧ b < a + n ∧ mem b = x := by
  simp only [window, List.mem_map, List.mem_range]
  constructor
  · rintro ⟨i, hi, rfl⟩
    exact ⟨a + i, Nat.le_add_right a i, Nat.add_lt_add_left hi a, rfl⟩
  · rintro ⟨b, hle, hlt, rfl⟩
    exact ⟨b - a, by omega, by rw [Nat.add_sub_cancel' hle]⟩

end Windows

/-! ### Moving a block -/

/-- Memory after `n` letters were moved from `src` to `dest`. -/
def move (mem : ℕ → α) (dest src n : ℕ) (a : ℕ) : α :=
  if dest ≤ a ∧ a < dest + n then mem (src + (a - dest)) else mem a

section Move

variable {mem : ℕ → α} {dest src n a b : ℕ}

lemma move_of_lt (h : b < dest) : move mem dest src n b = mem b :=
  if_neg fun hin => absurd hin.1 (not_le.2 h)

lemma move_of_ge (h : dest + n ≤ b) : move mem dest src n b = mem b :=
  if_neg fun hin => absurd hin.2 (not_lt.2 h)

lemma move_of_mem (h₁ : dest ≤ b) (h₂ : b < dest + n) :
    move mem dest src n b = mem (src + (b - dest)) := if_pos ⟨h₁, h₂⟩

@[simp] lemma move_zero (mem : ℕ → α) (dest src : ℕ) : move mem dest src 0 = mem := by
  funext b
  exact if_neg fun hin => absurd hin.2 (not_lt.2 hin.1)

/-- Moving a block to where it is changes nothing. -/
@[simp] lemma move_self (mem : ℕ → α) (dest n : ℕ) : move mem dest dest n = mem := by
  funext b
  rw [move]
  split_ifs with hin
  · rw [Nat.add_sub_cancel' hin.1]
  · rfl

/-- The new place shows the block. -/
lemma window_move {k : ℕ} (h : k ≤ n) : window (move mem dest src n) dest k = window mem src k := by
  refine List.map_congr_left fun i hi => ?_
  have := List.mem_range.1 hi
  rw [move_of_mem (Nat.le_add_right dest i) (by omega), Nat.add_sub_cancel_left]

lemma window_move_of_le {k : ℕ} (h : a + k ≤ dest) :
    window (move mem dest src n) a k = window mem a k :=
  window_congr fun _ _ hlt => move_of_lt (by omega)

lemma window_move_of_ge {k : ℕ} (h : dest + n ≤ a) :
    window (move mem dest src n) a k = window mem a k :=
  window_congr fun _ hle _ => move_of_ge (by omega)

/-- Moving a block down and back again leaves it where it was; only the gap between its two places
is lost. -/
lemma move_move_of_not_mem {k : ℕ} (hb : b < a ∨ a + k ≤ b) :
    move (move mem a (a + k) n) (a + k) a n b = mem b := by
  rcases hb with hb | hb
  · rw [move_of_lt (by omega), move_of_lt hb]
  · rcases lt_or_ge b (a + k + n) with hin | hin
    · rw [move_of_mem hb hin, move_of_mem (by omega) (by omega)]
      congr 1
      omega
    · rw [move_of_ge hin, move_of_ge (by omega)]

end Move

/-! ### Strings -/

section Strings

variable [Zero α] [DecidableEq α]

/-- The string at the address `a` of a memory that ends at `limit`. -/
def str (limit : ℕ) (mem : ℕ → α) (a : ℕ) : List α :=
  (window mem a (limit - a)).takeWhile (· ≠ 0)

variable {limit : ℕ} {mem : ℕ → α} {a n : ℕ} {s : List α}

/-- A window without zeros, up to a zero or to the end of memory, is the string. -/
lemma str_eq_of_window (hwin : window mem a n = s) (hzero : 0 ∉ s) (hle : a + n ≤ limit)
    (hend : a + n < limit → mem (a + n) = 0) : str limit mem a = s := by
  have hsplit : limit - a = n + (limit - (a + n)) := by omega
  have hall : ∀ x ∈ s, decide (x ≠ 0) = true := fun x hx =>
    decide_eq_true fun h => hzero (h ▸ hx)
  rw [str, hsplit, window_add, hwin, List.takeWhile_append_of_pos hall]
  rcases Nat.eq_zero_or_pos (limit - (a + n)) with hrest | hrest
  · simp [hrest]
  · obtain ⟨m, hm⟩ := Nat.exists_eq_succ_of_ne_zero hrest.ne'
    rw [hm, window_succ, hend (by omega)]
    simp

/-- The string is the prefix of what is left of memory. -/
lemma exists_str_append (limit : ℕ) (mem : ℕ → α) (a : ℕ) :
    ∃ rest, window mem a (limit - a) = str limit mem a ++ rest :=
  ⟨_, (List.takeWhile_append_dropWhile).symm⟩

lemma length_str_le (limit : ℕ) (mem : ℕ → α) (a : ℕ) :
    (str limit mem a).length ≤ limit - a := by
  obtain ⟨rest, hrest⟩ := exists_str_append limit mem a
  have hlen := congrArg List.length hrest
  rw [length_window, List.length_append] at hlen
  omega

/-- A string is the window of its length. -/
lemma window_str (limit : ℕ) (mem : ℕ → α) (a : ℕ) :
    window mem a (str limit mem a).length = str limit mem a := by
  obtain ⟨rest, hrest⟩ := exists_str_append limit mem a
  have hle := length_str_le limit mem a
  have htake := congrArg (List.take (str limit mem a).length) hrest
  rwa [take_window, min_eq_left hle, List.take_left] at htake

lemma zero_not_mem_str (limit : ℕ) (mem : ℕ → α) (a : ℕ) : 0 ∉ str limit mem a := by
  intro hmem
  simpa using List.mem_takeWhile_imp hmem

/-- No letter of a string is zero. -/
lemma ne_zero_of_lt_str {b : ℕ} (hle : a ≤ b) (hlt : b < a + (str limit mem a).length) :
    mem b ≠ 0 := by
  intro hzero
  refine zero_not_mem_str limit mem a ?_
  rw [← window_str]
  exact mem_window.2 ⟨b, hle, hlt, hzero⟩

/-- A string that does not reach the end of memory ends in front of a zero. -/
lemma end_str (hlt : a + (str limit mem a).length < limit) :
    mem (a + (str limit mem a).length) = 0 := by
  by_contra hne
  have hnext : window mem a ((str limit mem a).length + 1) =
      str limit mem a ++ [mem (a + (str limit mem a).length)] := by
    rw [window_add, window_str]
    rfl
  obtain ⟨m, hm⟩ : ∃ m, limit - a = (str limit mem a).length + 1 + m :=
    Nat.exists_eq_add_of_le (by omega)
  have hall : ∀ x ∈ window mem a ((str limit mem a).length + 1), decide (x ≠ 0) = true := by
    intro x hx
    rw [hnext, List.mem_append, List.mem_singleton] at hx
    rcases hx with hx | rfl
    · exact decide_eq_true fun h => zero_not_mem_str limit mem a (h ▸ hx)
    · exact decide_eq_true hne
  have hlen : (str limit mem a).length =
      ((str limit mem a).length + 1) + ((window mem (a + ((str limit mem a).length + 1)) m).takeWhile
        (· ≠ 0)).length := by
    conv_lhs => rw [str, hm, window_add, List.takeWhile_append_of_pos hall, List.length_append,
      length_window]
  omega

/-- As long as no letter is zero, the string goes on. -/
lemma le_length_str (hle : a + n ≤ limit) (h : ∀ b, a ≤ b → b < a + n → mem b ≠ 0) :
    n ≤ (str limit mem a).length := by
  by_contra hshort
  have hlt : a + (str limit mem a).length < limit := by omega
  exact h _ (Nat.le_add_right _ _) (by omega) (end_str hlt)

end Strings

/-! ### Editing in place -/

section Edits

variable [Zero α]

/-- Memory with a zero at the address `b`, if this is inside. -/
def terminate (limit : ℕ) (mem : ℕ → α) (b : ℕ) : ℕ → α :=
  if b < limit then update mem b 0 else mem

variable {limit a k n p : ℕ} {mem : ℕ → α} {s : List α}

lemma terminate_of_ne {b c : ℕ} (h : c ≠ b) : terminate limit mem b c = mem c := by
  rw [terminate]
  split_ifs
  · exact update_of_ne h 0 mem
  · rfl

/-- A move and a zero behind it change nothing outside. -/
lemma terminate_move_of_not_mem {dest src b : ℕ} (hb : b < dest ∨ dest + n < b) :
    terminate limit (move mem dest src n) (dest + n) b = mem b := by
  rw [terminate_of_ne (by omega)]
  rcases hb with hb | hb
  · exact move_of_lt hb
  · exact move_of_ge hb.le

variable [DecidableEq α]

/-- A window without zeros becomes a string when a zero is put behind it, and at the end of memory
it needs none. -/
lemma str_terminate (hwin : window mem a n = s) (hzero : 0 ∉ s) (hle : a + n ≤ limit) :
    str limit (terminate limit mem (a + n)) a = s := by
  have hkept : window (terminate limit mem (a + n)) a n = window mem a n :=
    window_congr fun b _ hb => terminate_of_ne hb.ne
  refine str_eq_of_window (hkept.trans hwin) hzero hle fun hlt => ?_
  rw [terminate, if_pos hlt, update_self]

lemma window_take_str (hk : k ≤ (str limit mem a).length) :
    window mem a k = (str limit mem a).take k := by
  conv_rhs => rw [← window_str, take_window, min_eq_left hk]

lemma window_drop_str (limit : ℕ) (mem : ℕ → α) (a k : ℕ) :
    window mem (a + k) ((str limit mem a).length - k) = (str limit mem a).drop k := by
  conv_rhs => rw [← window_str, drop_window]

lemma zero_not_mem_take_str (limit : ℕ) (mem : ℕ → α) (a k : ℕ) : 0 ∉ (str limit mem a).take k :=
  fun hmem => zero_not_mem_str limit mem a (List.mem_of_mem_take hmem)

lemma zero_not_mem_drop_str (limit : ℕ) (mem : ℕ → α) (a k : ℕ) : 0 ∉ (str limit mem a).drop k :=
  fun hmem => zero_not_mem_str limit mem a (List.mem_of_mem_drop hmem)

/-- A part of a string stands behind the parts in front of it. -/
lemma window_of_str_eq {x y z : List α} (h : str limit mem a = x ++ y ++ z) :
    window mem (a + x.length) y.length = y := by
  have hwin := window_str limit mem a
  rw [h, List.length_append, List.length_append, window_add, window_add] at hwin
  obtain ⟨hfront, -⟩ := List.append_inj hwin (by simp)
  exact (List.append_inj hfront (by simp)).2

/-- A zero inside a string cuts it. -/
lemma str_cut (ha : a ≤ limit) (hk : k ≤ (str limit mem a).length) :
    str limit (terminate limit mem (a + k)) a = (str limit mem a).take k := by
  have hle := length_str_le limit mem a
  exact str_terminate (window_take_str hk) (zero_not_mem_take_str limit mem a k) (by omega)

/-- The end of a string moved to its front. -/
lemma str_shift (ha : a ≤ limit) (hk : k ≤ (str limit mem a).length) :
    str limit (terminate limit (move mem a (a + k) ((str limit mem a).length - k))
      (a + ((str limit mem a).length - k))) a = (str limit mem a).drop k := by
  have hle := length_str_le limit mem a
  refine str_terminate ?_ (zero_not_mem_drop_str limit mem a k) (by omega)
  rw [window_move le_rfl, window_drop_str]

/-- A string with the front of another one behind it. -/
lemma str_append {b : ℕ} (hk : k ≤ (str limit mem b).length)
    (hle : a + (str limit mem a).length + k ≤ limit) :
    str limit (terminate limit (move mem (a + (str limit mem a).length) b k)
      (a + (str limit mem a).length + k)) a = str limit mem a ++ (str limit mem b).take k := by
  rw [Nat.add_assoc]
  refine str_terminate ?_ ?_ (by omega)
  · rw [window_add, window_move_of_le le_rfl, window_str, window_move le_rfl, window_take_str hk]
  · rw [List.mem_append]
    rintro (hmem | hmem)
    · exact zero_not_mem_str limit mem a hmem
    · exact zero_not_mem_take_str limit mem b k hmem

/-- A string without the `k` letters from position `p` on: what is behind them is moved over them,
the zero included. -/
lemma str_delete (hlt : a + (str limit mem a).length < limit)
    (hk : p + k ≤ (str limit mem a).length) :
    str limit (move mem (a + p) (a + p + k) ((str limit mem a).length - p - k + 1)) a =
      (str limit mem a).take p ++ (str limit mem a).drop (p + k) := by
  have hfront : window mem a p = (str limit mem a).take p := window_take_str (by omega)
  refine str_eq_of_window (n := p + ((str limit mem a).length - (p + k))) ?_ ?_ (by omega)
    fun _ => ?_
  · rw [window_add, window_move_of_le le_rfl, hfront, window_move (by omega), Nat.add_assoc,
      window_drop_str]
  · rw [List.mem_append]
    rintro (hmem | hmem)
    · exact zero_not_mem_take_str limit mem a p hmem
    · exact zero_not_mem_drop_str limit mem a (p + k) hmem
  · rw [move_of_mem (by omega) (by omega), ← end_str hlt]
    congr 1
    omega

/-- In a string that reaches the end of memory no zero is moved, and its last letters stay. -/
lemma str_delete_of_full (hend : a + (str limit mem a).length = limit)
    (hk : p + k ≤ (str limit mem a).length) :
    str limit (move mem (a + p) (a + p + k) ((str limit mem a).length - p - k)) a =
      (str limit mem a).take p ++ (str limit mem a).drop (p + k) ++
        (str limit mem a).drop ((str limit mem a).length - k) := by
  have hfront : window mem a p = (str limit mem a).take p := window_take_str (by omega)
  have hlast : window mem (a + (p + ((str limit mem a).length - (p + k)))) k =
      (str limit mem a).drop ((str limit mem a).length - k) := by
    rw [← window_drop_str]
    congr 1 <;> omega
  refine str_eq_of_window (n := p + ((str limit mem a).length - (p + k)) + k) ?_ ?_ (by omega)
    fun hlt => absurd hlt (by omega)
  · rw [window_add, window_add, window_move_of_le le_rfl, hfront, window_move (by omega),
      Nat.add_assoc, window_drop_str, window_move_of_ge (by omega), hlast]
  · rw [List.mem_append, List.mem_append]
    rintro ((hmem | hmem) | hmem)
    · exact zero_not_mem_take_str limit mem a p hmem
    · exact zero_not_mem_drop_str limit mem a (p + k) hmem
    · exact zero_not_mem_drop_str limit mem a _ hmem

/-- A string with the front of another one at position `p`: the rest is moved out of the way, the
zero included, and the place is overwritten.  The other string is read after the move, which must
not show there. -/
lemma str_insert_of_window {b : ℕ} (hp : p ≤ (str limit mem a).length)
    (hk : k ≤ (str limit mem b).length) (hlt : a + (str limit mem a).length + k < limit)
    (hsrc : window (move mem (a + p + k) (a + p) ((str limit mem a).length - p + 1)) b k =
      window mem b k) :
    str limit (move (move mem (a + p + k) (a + p) ((str limit mem a).length - p + 1)) (a + p) b k) a
      = (str limit mem a).take p ++ (str limit mem b).take k ++ (str limit mem a).drop p := by
  have hend : mem (a + (str limit mem a).length) = 0 := end_str (by omega)
  refine str_eq_of_window (n := p + k + ((str limit mem a).length - p)) ?_ ?_ (by omega)
    fun _ => ?_
  · rw [window_add, window_add, window_move_of_le le_rfl, window_move_of_le (by omega),
      window_take_str hp, window_move le_rfl, hsrc, window_take_str hk, ← Nat.add_assoc,
      window_move_of_ge le_rfl, window_move (Nat.le_succ _), window_drop_str]
  · rw [List.mem_append, List.mem_append]
    rintro ((hmem | hmem) | hmem)
    · exact zero_not_mem_take_str limit mem a p hmem
    · exact zero_not_mem_take_str limit mem b k hmem
    · exact zero_not_mem_drop_str limit mem a p hmem
  · rw [move_of_ge (by omega), move_of_mem (by omega) (by omega), ← hend]
    congr 1
    omega

/-- The other string stands apart from where the rest goes. -/
lemma str_insert {b : ℕ} (hp : p ≤ (str limit mem a).length)
    (hk : k ≤ (str limit mem b).length) (hlt : a + (str limit mem a).length + k < limit)
    (hapart : ∀ j < k, b + j ∉ Set.Icc (a + p) (a + (str limit mem a).length + k)) :
    str limit (move (move mem (a + p + k) (a + p) ((str limit mem a).length - p + 1)) (a + p) b k) a
      = (str limit mem a).take p ++ (str limit mem b).take k ++ (str limit mem a).drop p := by
  refine str_insert_of_window hp hk hlt (window_congr_of_apart hapart ?_)
  rintro c (hc | hc)
  · exact move_of_lt (by omega)
  · exact move_of_ge (by omega)

/-- The letters that were moved onto the other string before it is read must be those that stood
there. -/
lemma str_insert_iff {b : ℕ} (hp : p ≤ (str limit mem a).length)
    (hk : k ≤ (str limit mem b).length) (hlt : a + (str limit mem a).length + k < limit) :
    str limit (move (move mem (a + p + k) (a + p) ((str limit mem a).length - p + 1)) (a + p) b k) a
        = (str limit mem a).take p ++ (str limit mem b).take k ++ (str limit mem a).drop p ↔
      ∀ j < k, a + p + k ≤ b + j → b + j ≤ a + (str limit mem a).length + k →
        mem (b + j - k) = mem (b + j) := by
  have hread : (∀ j < k, move mem (a + p + k) (a + p) ((str limit mem a).length - p + 1) (b + j) =
      mem (b + j)) ↔ ∀ j < k, a + p + k ≤ b + j → b + j ≤ a + (str limit mem a).length + k →
        mem (b + j - k) = mem (b + j) := by
    refine forall₂_congr fun j _ => ?_
    rw [move]
    split_ifs with hin
    · have hat : a + p + (b + j - (a + p + k)) = b + j - k := by omega
      rw [hat]
      exact ⟨fun heq _ _ => heq, fun heq => heq hin.1 (by omega)⟩
    · exact ⟨fun _ hle hlt => absurd ⟨hle, by omega⟩ hin, fun _ => rfl⟩
  rw [← hread, ← window_eq_window_iff]
  refine ⟨fun hstr => ?_, str_insert_of_window hp hk hlt⟩
  -- between the two parts of the old string stands what was read
  have hmid := window_of_str_eq hstr
  rw [List.length_take_of_le hp, List.length_take_of_le hk, window_move le_rfl] at hmid
  rw [hmid, window_take_str hk]

/-- Letters written over a string, without its zero. -/
lemma str_overwrite {mem' : ℕ → α} (ha : a ≤ limit) (hk : p + k ≤ (str limit mem a).length)
    (hwin : window mem' (a + p) k = s) (hzero : 0 ∉ s)
    (hframe : ∀ b, b < a + p ∨ a + p + k ≤ b → mem' b = mem b) :
    str limit mem' a = (str limit mem a).take p ++ s ++ (str limit mem a).drop (p + k) := by
  have hle := length_str_le limit mem a
  have hfront : window mem' a p = (str limit mem a).take p := by
    rw [← window_take_str (by omega : p ≤ (str limit mem a).length)]
    exact window_congr fun b _ hb => hframe b (.inl hb)
  have hback : window mem' (a + (p + k)) ((str limit mem a).length - (p + k)) =
      (str limit mem a).drop (p + k) := by
    rw [← window_drop_str]
    exact window_congr fun b hb _ => hframe b (.inr (by omega))
  refine str_eq_of_window (n := p + k + ((str limit mem a).length - (p + k))) ?_ ?_ (by omega)
    fun hlt => ?_
  · rw [window_add, window_add, hfront, hwin, hback]
  · rw [List.mem_append, List.mem_append]
    rintro ((hmem | hmem) | hmem)
    · exact zero_not_mem_take_str limit mem a p hmem
    · exact hzero hmem
    · exact zero_not_mem_drop_str limit mem a (p + k) hmem
  · rw [Nat.add_sub_cancel' hk] at hlt ⊢
    rw [hframe _ (.inr (by omega)), end_str hlt]

end Edits

end BoundedString
