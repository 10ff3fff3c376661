/-
# Reading lines of a fixed format

What `printf` writes for a format with constant text and numbers of fixed width can be read back:
the constant text is expected, and a field of the width is read as a number.  A text is read line
by line; a line that holds no newline is found again.
-/
import Vm32.Lib.CText

namespace CText

/-- The rest of a string behind an expected text. -/
def expect : List UInt8 → List UInt8 → Option (List UInt8)
  | [], s => some s
  | _ :: _, [] => none
  | c :: p, d :: s => if c = d then expect p s else none

/-- The number in the next `width` characters, and the rest. -/
def field (base width : ℕ) (s : List UInt8) : Option (ℕ × List UInt8) :=
  if width ≤ s.length ∧ ∀ c ∈ s.take width, digitVal c < base then
    some (numeral base (s.take width), s.drop width)
  else none

/-- The conversion `%0nu`. -/
def zeroPad (n : ℕ) (s : List UInt8) : List UInt8 := List.replicate (n - s.length) 48 ++ s

/-- The conversion `%nu`. -/
def padLeft (n : ℕ) (s : List UInt8) : List UInt8 := List.replicate (n - s.length) 32 ++ s

section Reading

variable {base width : ℕ} {p s t : List UInt8}

@[simp] lemma expect_append : expect p (p ++ s) = some s := by
  induction p with
  | nil => rfl
  | cons c p ih => simpa [expect] using ih

/-- What is expected first is looked at first. -/
lemma expect_append_left {q : List UInt8} : expect (p ++ q) (p ++ s) = expect q s := by
  induction p with
  | nil => rfl
  | cons c p ih => simpa [expect] using ih

/-- Two texts differ at a place that both reach. -/
def Clash (p q : List UInt8) : Prop := ∃ x ∈ p.zip q, x.1 ≠ x.2

instance : DecidableRel Clash := fun p q =>
  inferInstanceAs (Decidable (∃ x ∈ p.zip q, x.1 ≠ x.2))

lemma Clash.expect_eq_none {p q : List UInt8} (h : Clash p q) (s : List UInt8) :
    expect p (q ++ s) = none := by
  induction p generalizing q with
  | nil => simp [Clash] at h
  | cons c p ih =>
    cases q with
    | nil => simp [Clash] at h
    | cons d q =>
      obtain ⟨x, hx, hne⟩ := h
      by_cases hcd : c = d
      · subst hcd
        rw [List.zip_cons_cons, List.mem_cons] at hx
        rcases hx with rfl | hx
        · exact absurd rfl hne
        · simpa [expect] using ih ⟨x, hx, hne⟩
      · simp [expect, hcd]

lemma expect_append_eq_none {q : List UInt8} (h : expect p s = none) :
    expect (p ++ q) s = none := by
  induction p generalizing s with
  | nil => cases h
  | cons c p ih =>
    cases s with
    | nil => rfl
    | cons d s =>
      simp only [List.cons_append, expect] at h ⊢
      split_ifs at h ⊢
      · exact ih h
      · rfl

lemma field_append (hlen : t.length = width) (hdigits : ∀ c ∈ t, digitVal c < base) :
    field base width (t ++ s) = some (numeral base t, s) := by
  subst hlen
  rw [field, List.take_left, List.drop_left, if_pos]
  exact ⟨by simp, hdigits⟩

/-- A field does not reach over a character that is no digit. -/
lemma field_eq_none {c : UInt8} (hlen : t.length < width) (hc : base ≤ digitVal c) :
    field base width (t ++ c :: s) = none := by
  refine if_neg fun h => absurd (h.2 c ?_) (Nat.not_lt.2 hc)
  rw [List.take_append, List.mem_append]
  right
  obtain ⟨k, hk⟩ := Nat.exists_eq_add_of_lt hlen
  rw [hk, show t.length + k + 1 - t.length = k + 1 by omega]
  exact List.mem_cons_self

end Reading

/-! ### Hexadecimal fields -/

section UpperHex

variable {n x : ℕ}

@[simp] lemma length_upperHex : (upperHex n x).length = n := by simp [upperHex]

lemma digitVal_upperHexDigit {d : ℕ} (hd : d < 16) : digitVal (upperHexDigit d) = d := by
  interval_cases d <;> decide

lemma digitVal_of_mem_upperHex {c : UInt8} (hc : c ∈ upperHex n x) : digitVal c < 16 := by
  obtain ⟨i, -, rfl⟩ := List.mem_map.1 hc
  rw [digitVal_upperHexDigit (Nat.mod_lt _ (by decide))]
  exact Nat.mod_lt _ (by decide)

lemma map_digitVal_upperHex :
    ((upperHex n x).map digitVal).reverse = (List.range n).map fun i => x / 16 ^ i % 16 := by
  rw [upperHex, List.map_map, List.map_reverse, List.reverse_reverse]
  exact List.map_congr_left fun i _ => digitVal_upperHexDigit (Nat.mod_lt _ (by decide))

/-- The number in a hexadecimal field. -/
lemma numeral_upperHex : numeral 16 (upperHex n x) = x % 16 ^ n := by
  induction n with
  | zero => simp [numeral, upperHex, Nat.mod_one]
  | succ n ih =>
    rw [numeral, map_digitVal_upperHex] at ih ⊢
    rw [List.range_succ, List.map_append, Nat.ofDigits_append, ih, Nat.mod_pow_succ]
    simp

lemma field_upperHex {s : List UInt8} :
    field 16 n (upperHex n x ++ s) = some (x % 16 ^ n, s) := by
  rw [field_append length_upperHex fun c hc => digitVal_of_mem_upperHex hc, numeral_upperHex]

end UpperHex

/-! ### Lines -/

/-- The text of some lines. -/
def unlines (ls : List (List UInt8)) : List UInt8 := ls.flatMap (· ++ [10])

/-- The lines are found again, and nothing behind the last newline. -/
lemma splitOn_unlines {ls : List (List UInt8)} (hls : ∀ l ∈ ls, 10 ∉ l) :
    (unlines ls).splitOn 10 = ls ++ [[]] := by
  induction ls with
  | nil => rfl
  | cons l ls ih =>
    rw [List.forall_mem_cons] at hls
    have hcons : unlines (l :: ls) = l ++ 10 :: unlines ls := by simp [unlines]
    rw [hcons, List.splitOn_append_cons_self_of_not_mem hls.1, ih hls.2]
    rfl

end CText
