/-
# Text as the C library reads it

Strings are lists of bytes, in the "C" locale.  This file models the functions of `ctype.h`,
`strings.h`, `string.h`, `stdlib.h` and `stdio.h` that a line-oriented reader uses: `isspace`,
`tolower`, `strcasecmp`, `strtok`, `strtol` with automatic base, and `fgets`.  `strtol` reads the
longest numeral at the start of a string behind white space and a sign; `IntLiteral` is the
grammar of the integer literals of C, and the two meet in the lemma `strtol_literal`.
-/
import Mathlib.Tactic
import Mathlib.Data.List.TakeWhile
import Mathlib.Data.Nat.Digits.Lemmas
import Mathlib.Data.UInt

namespace CText

/-- A condition on the characters of a string is decided character by character, also when the
type is finite. -/
instance (priority := high) decidableForallMemList {α : Type*} {p : α → Prop} [DecidablePred p]
    (s : List α) : Decidable (∀ c ∈ s, p c) := List.decidableBAll p s

/-- The bytes of a string constant. -/
def bytes (s : String) : List UInt8 := s.toList.flatMap String.utf8EncodeChar

/-- `isspace`. -/
def isSpace (c : UInt8) : Bool := c == 32 || (9 ≤ c && c ≤ 13)

/-- `tolower`. -/
def toLower (c : UInt8) : UInt8 := if 65 ≤ c && c ≤ 90 then c + 32 else c

/-- `strcasecmp` returns zero. -/
def strcaseEq (s t : List UInt8) : Bool := s.map toLower == t.map toLower

/-- Strings that are equal up to case consist of the same characters up to case. -/
lemma exists_mem_of_strcaseEq {s t : List UInt8} (h : strcaseEq s t) {c : UInt8} (hc : c ∈ t) :
    ∃ d ∈ s, toLower d = toLower c := by
  rw [strcaseEq, beq_iff_eq] at h
  have hmem : toLower c ∈ s.map toLower := by
    rw [h]
    exact List.mem_map_of_mem hc
  exact List.mem_map.1 hmem

lemma isSpace_toLower (c : UInt8) : isSpace (toLower c) = isSpace c := by
  rw [toLower]
  split_ifs with hupper
  · have hc := c.toNat_lt
    rw [Bool.eq_iff_iff]
    simp only [isSpace, Bool.and_eq_true, decide_eq_true_eq, Bool.or_eq_true, beq_iff_eq,
      ← UInt8.toNat_inj, UInt8.le_iff_toNat_le, UInt8.toNat_add, UInt8.reduceToNat] at hupper ⊢
    omega
  · rfl

/-- The string in a buffer ends at the first NUL. -/
def cstr (buf : List UInt8) : List UInt8 := buf.takeWhile (· != 0)

@[simp] lemma cstr_nil : cstr [] = [] := rfl

lemma cstr_cons (c : UInt8) (s : List UInt8) :
    cstr (c :: s) = if c = 0 then [] else c :: cstr s := by
  by_cases hc : c = 0
  · subst hc
    rfl
  · rw [cstr, List.takeWhile_cons_of_pos (by rw [bne_iff_ne]; exact hc), if_neg hc]
    rfl

/-- Without a NUL the string is the whole buffer. -/
lemma cstr_of_not_mem {buf : List UInt8} (h : 0 ∉ buf) : cstr buf = buf := by
  refine List.takeWhile_eq_self_iff.2 fun c hc => ?_
  rw [bne_iff_ne]
  rintro rfl
  exact h hc

/-- NUL is not a space, so it does not matter whether a string is cut at a NUL before or after
leading spaces are skipped. -/
lemma cstr_dropWhile_isSpace (s : List UInt8) :
    (cstr s).dropWhile isSpace = cstr (s.dropWhile isSpace) := by
  induction s with
  | nil => rfl
  | cons c s ih =>
    by_cases hc : c = 0
    · subst hc
      rfl
    · rw [cstr_cons, if_neg hc, List.dropWhile_cons, List.dropWhile_cons, ih]
      by_cases hspace : isSpace c = true
      · rw [if_pos hspace, if_pos hspace]
      · rw [if_neg hspace, if_neg hspace, cstr_cons, if_neg hc]

/-! ### `strtok` -/

/-- The tokens that successive calls of `strtok` return: the nonempty pieces between
delimiters. -/
def tokens (delim : UInt8 → Bool) (s : List UInt8) : List (List UInt8) :=
  (s.splitOnP delim).filter (· != [])

section Tokens

variable {delim : UInt8 → Bool} {s t : List UInt8} {c : UInt8}

@[simp] lemma tokens_nil : tokens delim [] = [] := by simp [tokens]

/-- Leading delimiters are skipped. -/
lemma tokens_cons_delim (hc : delim c) (s : List UInt8) :
    tokens delim (c :: s) = tokens delim s := by
  simp [tokens, List.splitOnP_cons_eq_if_modifyHead, hc]

lemma tokens_append_delims (ht : ∀ x ∈ t, delim x) (s : List UInt8) :
    tokens delim (t ++ s) = tokens delim s := by
  induction t with
  | nil => rfl
  | cons x t ih =>
    rw [List.cons_append, tokens_cons_delim (ht x (by simp))]
    exact ih fun y hy => ht y (by simp [hy])

/-- A delimiter splits the tokens. -/
lemma tokens_append_cons (hc : delim c) (s t : List UInt8) :
    tokens delim (s ++ c :: t) = tokens delim s ++ tokens delim t := by
  rw [tokens, List.splitOnP_append_cons s t hc, List.filter_append]
  rfl

/-- A string without delimiters is a token. -/
lemma tokens_of_no_delim (hs : ∀ x ∈ s, delim x = false) (hne : s ≠ []) :
    tokens delim s = [s] := by
  simp [tokens, List.splitOnP_eq_singleton hs, hne]

/-- What one call of `strtok` does: behind the leading delimiters the token extends to the next
delimiter, and the following call goes on behind it. -/
lemma tokens_first (hc : delim c = false) (s : List UInt8) :
    tokens delim (c :: s) = (c :: s.takeWhile fun x => !delim x) ::
      tokens delim (s.dropWhile fun x => !delim x) := by
  have hpre : ∀ x ∈ c :: s.takeWhile fun x => !delim x, delim x = false := by
    intro x hx
    rcases List.mem_cons.1 hx with rfl | hx
    · exact hc
    · simpa using List.mem_takeWhile_imp hx
  have hsplit : c :: s = (c :: s.takeWhile fun x => !delim x) ++ s.dropWhile fun x => !delim x := by
    rw [List.cons_append, List.takeWhile_append_dropWhile]
  cases hrest : s.dropWhile fun x => !delim x with
  | nil =>
    rw [hrest, List.append_nil] at hsplit
    rw [hsplit, tokens_of_no_delim hpre (by simp), tokens_nil]
  | cons d t =>
    have hd : delim d := by
      have := List.head?_dropWhile_not (fun x => !delim x) s
      simpa [hrest] using this
    rw [hsplit, hrest, tokens_append_cons hd, tokens_of_no_delim hpre (by simp),
      tokens_cons_delim hd]
    rfl

/-- A word with delimiters behind it is the first token. -/
lemma tokens_word_append (hs : ∀ x ∈ s, delim x = false) (hne : s ≠ []) (ht : ∀ x ∈ t, delim x)
    (htne : t ≠ []) (u : List UInt8) : tokens delim (s ++ (t ++ u)) = s :: tokens delim u := by
  obtain ⟨d, t, rfl⟩ := List.exists_cons_of_ne_nil htne
  rw [List.cons_append, tokens_append_cons (ht d List.mem_cons_self), tokens_of_no_delim hs hne,
    tokens_append_delims fun x hx => ht x (List.mem_cons_of_mem d hx)]
  rfl

/-- A string is nothing but delimiters exactly if it has no tokens. -/
lemma tokens_eq_nil_iff : tokens delim s = [] ↔ ∀ x ∈ s, delim x := by
  induction s with
  | nil => simp
  | cons c s ih =>
    cases hc : delim c with
    | true => simp [tokens_cons_delim hc, ih, hc]
    | false => simp [tokens_first hc, hc]

lemma ne_nil_of_mem_tokens {u : List UInt8} (hu : u ∈ tokens delim s) : u ≠ [] := by
  simpa using (List.mem_filter.1 hu).2

/-- The last delimiter of a string. -/
lemma last_delim (delim : UInt8 → Bool) (s : List UInt8) :
    (∀ x ∈ s, delim x = false) ∨
      ∃ a d u, s = a ++ d :: u ∧ delim d = true ∧ ∀ x ∈ u, delim x = false := by
  induction s with
  | nil => exact Or.inl (by simp)
  | cons c s ih =>
    rcases ih with hs | ⟨a, d, u, rfl, hd, hu⟩
    · cases hc : delim c with
      | true => exact Or.inr ⟨[], c, s, rfl, hc, hs⟩
      | false => exact Or.inl (List.forall_mem_cons.2 ⟨hc, hs⟩)
    · exact Or.inr ⟨c :: a, d, u, rfl, hd, hu⟩

/-- A further character is a token of its own or belongs to the last one. -/
lemma tokens_concat (hc : delim c = false) (s : List UInt8) :
    tokens delim (s ++ [c]) = tokens delim s ++ [[c]] ∨
      ∃ pre u, tokens delim s = pre ++ [u] ∧ tokens delim (s ++ [c]) = pre ++ [u ++ [c]] := by
  have hword : ∀ u, (∀ x ∈ u, delim x = false) → tokens delim (u ++ [c]) = [u ++ [c]] := by
    intro u hu
    refine tokens_of_no_delim (fun x hx => ?_) (by simp)
    rcases List.mem_append.1 hx with hx | hx
    · exact hu x hx
    · rw [List.mem_singleton.1 hx, hc]
  rcases last_delim delim s with hs | ⟨a, d, u, rfl, hd, hu⟩
  · by_cases hnil : s = []
    · subst hnil
      exact Or.inl (hword [] hs)
    · exact Or.inr ⟨[], s, tokens_of_no_delim hs hnil, hword s hs⟩
  · rw [List.append_assoc, List.cons_append, tokens_append_cons hd, tokens_append_cons hd,
      hword u hu]
    by_cases hnil : u = []
    · subst hnil
      exact Or.inl (by simp)
    · exact Or.inr ⟨tokens delim a, u, by rw [tokens_of_no_delim hu hnil], rfl⟩

/-- Trailing delimiters do not matter. -/
lemma tokens_append_right (ht : ∀ x ∈ t, delim x) (s : List UInt8) :
    tokens delim (s ++ t) = tokens delim s := by
  cases t with
  | nil => rw [List.append_nil]
  | cons c t =>
    have hnil : tokens delim t = [] :=
      tokens_eq_nil_iff.2 fun x hx => ht x (List.mem_cons_of_mem c hx)
    rw [tokens_append_cons (ht c List.mem_cons_self), hnil, List.append_nil]

/-- Everything that is not a delimiter is in a token. -/
lemma exists_mem_tokens {x : UInt8} (hx : x ∈ s) (hdelim : delim x = false) :
    ∃ u ∈ tokens delim s, x ∈ u := by
  induction hn : s.length using Nat.strong_induction_on generalizing s with
  | _ n ih =>
    cases s with
    | nil => simp at hx
    | cons c s =>
      cases hc : delim c with
      | true =>
        rw [tokens_cons_delim hc]
        rcases List.mem_cons.1 hx with rfl | hx
        · rw [hc] at hdelim
          cases hdelim
        · exact ih _ (by simp [← hn]) hx rfl
      | false =>
        rw [tokens_first hc]
        rw [← List.takeWhile_append_dropWhile (p := fun x => !delim x) (l := s), List.mem_cons,
          List.mem_append, ← or_assoc, ← List.mem_cons] at hx
        rcases hx with hx | hx
        · exact ⟨_, List.mem_cons_self, hx⟩
        · have hlen : (s.dropWhile fun x => !delim x).length < n := by
            rw [← hn, List.length_cons]
            exact Nat.lt_succ_of_le (List.length_dropWhile_le _ s)
          obtain ⟨u, hu, hxu⟩ := ih _ hlen hx rfl
          exact ⟨u, List.mem_cons_of_mem _ hu, hxu⟩

end Tokens

/-! ### `strtol` -/

/-- The value of a digit; 36 for what is not a digit in any base. -/
def digitVal (c : UInt8) : ℕ :=
  if 48 ≤ c && c ≤ 57 then c.toNat - 48
  else if 97 ≤ c && c ≤ 122 then c.toNat - 87
  else if 65 ≤ c && c ≤ 90 then c.toNat - 55
  else 36

/-- The number that is accumulated from the digits, the first one being the most significant. -/
def accumulate (base : ℕ) (digits : List UInt8) : ℕ :=
  digits.foldl (fun n c => n * base + digitVal c) 0

/-- The base that is detected at the start of a numeral: a leading `0x` counts only if a
hexadecimal digit follows. -/
def radix : List UInt8 → ℕ
  | c :: x :: h :: _ =>
    if c = 48 then if (x = 120 ∨ x = 88) ∧ digitVal h < 16 then 16 else 8 else 10
  | c :: _ => if c = 48 then 8 else 10
  | [] => 10

/-- What `strtol` returns: the value, whether `errno` is set, and the rest of the string. -/
structure Strtol where
  value : ℤ
  erange : Bool
  rest : List UInt8
deriving DecidableEq, Repr

/-- The number `z` converted to `long`. -/
def Strtol.ofInt (z : ℤ) (rest : List UInt8) : Strtol where
  value := max (-2 ^ 63) (min z (2 ^ 63 - 1))
  erange := z < -2 ^ 63 || 2 ^ 63 ≤ z
  rest := rest

/-- What `strtol` does behind the sign; `none` if there is no digit. -/
def convert (negative : Bool) (s : List UInt8) : Option Strtol :=
  let base := radix s
  let s := if base = 16 then s.drop 2 else s
  let digits := s.takeWhile fun c => digitVal c < base
  if digits = [] then none
  else
    some (.ofInt (if negative then -accumulate base digits else accumulate base digits)
      (s.dropWhile fun c => digitVal c < base))

/-- `strtol` with base 0 and 64-bit `long`; `none` if there is nothing to convert, in which case
`*end` is the start of the string. -/
def strtol (s : List UInt8) : Option Strtol :=
  let s := s.dropWhile isSpace
  if s.head? = some 45 then convert true (s.drop 1)
  else if s.head? = some 43 then convert false (s.drop 1)
  else convert false s

/-! ### The integer literals of C -/

/-- The number written by a string of digits. -/
def numeral (base : ℕ) (digits : List UInt8) : ℕ := Nat.ofDigits base (digits.map digitVal).reverse

/-- The string is an integer literal without suffix, and this is its value. -/
inductive IntLiteral : List UInt8 → ℕ → Prop
  | decimal {c : UInt8} {ds : List UInt8} (hc : 49 ≤ c ∧ c ≤ 57) (hds : ∀ d ∈ ds, digitVal d < 10) :
    IntLiteral (c :: ds) (numeral 10 (c :: ds))
  | octal {ds : List UInt8} (hds : ∀ d ∈ ds, digitVal d < 8) : IntLiteral (48 :: ds) (numeral 8 ds)
  | hex {x : UInt8} {ds : List UInt8} (hx : x = 120 ∨ x = 88) (hne : ds ≠ [])
    (hds : ∀ d ∈ ds, digitVal d < 16) : IntLiteral (48 :: x :: ds) (numeral 16 ds)

/-- An integer literal behind an optional sign. -/
inductive SignedLiteral : List UInt8 → ℤ → Prop
  | unsigned {s : List UInt8} {n : ℕ} (h : IntLiteral s n) : SignedLiteral s n
  | plus {s : List UInt8} {n : ℕ} (h : IntLiteral s n) : SignedLiteral (43 :: s) n
  | minus {s : List UInt8} {n : ℕ} (h : IntLiteral s n) : SignedLiteral (45 :: s) (-n)

section Literals

variable {s : List UInt8} {n : ℕ}

lemma accumulate_eq_numeral (base : ℕ) (digits : List UInt8) :
    accumulate base digits = numeral base digits := by
  induction digits using List.reverseRecOn with
  | nil => rfl
  | append_singleton ds c ih =>
    rw [accumulate, List.foldl_append]
    change accumulate base ds * base + digitVal c = _
    rw [ih, numeral, numeral, List.map_append, List.reverse_append]
    simp only [List.map_cons, List.map_nil, List.reverse_singleton, List.singleton_append,
      Nat.ofDigits_cons]
    ring

lemma numeral_zero_cons (base : ℕ) (ds : List UInt8) :
    numeral base (48 :: ds) = numeral base ds := by
  rw [numeral, List.map_cons, List.reverse_cons]
  exact Nat.ofDigits_append_zero _

lemma digitVal_lt_ten {c : UInt8} : digitVal c < 10 ↔ 48 ≤ c ∧ c ≤ 57 := by
  simp only [digitVal, Bool.and_eq_true, decide_eq_true_eq, UInt8.le_iff_toNat_le,
    UInt8.reduceToNat]
  split_ifs <;> omega

/-- A literal starts with a digit. -/
lemma IntLiteral.head_digit (h : IntLiteral s n) : ∃ c t, s = c :: t ∧ digitVal c < 10 := by
  cases h with
  | decimal hc _ =>
    exact ⟨_, _, rfl, digitVal_lt_ten.2 ⟨UInt8.le_trans (by decide) hc.1, hc.2⟩⟩
  | octal _ => exact ⟨_, _, rfl, by decide⟩
  | hex _ _ _ => exact ⟨_, _, rfl, by decide⟩

/-- What decides the base. -/
lemma radix_cases (s : List UInt8) :
    (radix s = 16 ∧ ∃ x h t, s = 48 :: x :: h :: t ∧ (x = 120 ∨ x = 88)) ∨
      (radix s = 8 ∧ ∃ t, s = 48 :: t) ∨ radix s = 10 ∧ ∀ t, s ≠ 48 :: t := by
  rcases s with _ | ⟨c, _ | ⟨x, _ | ⟨h, t⟩⟩⟩
  · exact Or.inr (Or.inr ⟨rfl, by simp⟩)
  · by_cases hc : c = 48 <;> simp [radix, hc]
  · by_cases hc : c = 48 <;> simp [radix, hc]
  · by_cases hc : c = 48
    · by_cases hx : (x = 120 ∨ x = 88) ∧ digitVal h < 16
      · simp [radix, hc, hx]
      · simp [radix, hc, hx]
    · simp [radix, hc]

lemma radix_decimal {c : UInt8} (hc : c ≠ 48) (ds : List UInt8) : radix (c :: ds) = 10 := by
  rcases ds with _ | ⟨x, _ | ⟨h, t⟩⟩ <;> simp [radix, hc]

lemma radix_octal {ds : List UInt8} (hds : ∀ d ∈ ds, digitVal d < 8) : radix (48 :: ds) = 8 := by
  rcases ds with _ | ⟨x, _ | ⟨h, t⟩⟩
  · rfl
  · rfl
  · have hx : ¬(x = 120 ∨ x = 88) := by
      rintro (rfl | rfl) <;> exact absurd (hds _ List.mem_cons_self) (by decide)
    simp [radix, hx]

lemma radix_hex {x : UInt8} {ds : List UInt8} (hx : x = 120 ∨ x = 88) (hne : ds ≠ [])
    (hds : ∀ d ∈ ds, digitVal d < 16) : radix (48 :: x :: ds) = 16 := by
  obtain ⟨h, t, rfl⟩ := List.exists_cons_of_ne_nil hne
  simp [radix, hx, hds h List.mem_cons_self]

/-- Behind the prefix there are only digits of the base. -/
lemma convert_of_digits (negative : Bool) {base : ℕ} {body : List UInt8} (hbase : radix s = base)
    (hbody : (if base = 16 then s.drop 2 else s) = body) (hne : body ≠ [])
    (hds : ∀ d ∈ body, digitVal d < base) :
    convert negative s =
      some (.ofInt (if negative then -numeral base body else numeral base body) []) := by
  have hall : ∀ d ∈ body, decide (digitVal d < base) = true := fun d hd => by simpa using hds d hd
  simp only [convert, hbase, hbody, List.takeWhile_eq_self_iff.2 hall,
    List.dropWhile_eq_nil_iff.2 hall, hne, if_false, accumulate_eq_numeral]

/-- A literal is converted up to its end. -/
lemma convert_literal (negative : Bool) (h : IntLiteral s n) :
    convert negative s = some (.ofInt (if negative then -n else n) []) := by
  cases h with
  | @decimal c ds hc hds =>
    have hc48 : c ≠ 48 := by
      rintro rfl
      exact absurd hc.1 (by decide)
    have hc10 : digitVal c < 10 :=
      digitVal_lt_ten.2 ⟨UInt8.le_trans (by decide) hc.1, hc.2⟩
    exact convert_of_digits negative (radix_decimal hc48 ds) rfl (by simp)
      (List.forall_mem_cons.2 ⟨hc10, hds⟩)
  | @octal ds hds =>
    rw [← numeral_zero_cons 8 ds]
    exact convert_of_digits negative (radix_octal hds) rfl (by simp)
      (List.forall_mem_cons.2 ⟨by decide, hds⟩)
  | @hex x ds hx hne hds => exact convert_of_digits negative (radix_hex hx hne hds) rfl hne hds

/-- The part of the string in which digits are looked for. -/
def digitPart (s : List UInt8) : List UInt8 := if radix s = 16 then s.drop 2 else s

/-- What is left is what stands behind the digits. -/
lemma rest_of_convert {negative : Bool} {r : Strtol} (h : convert negative s = some r) :
    digitPart s ≠ [] ∧ r.rest = (digitPart s).dropWhile fun c => digitVal c < radix s := by
  obtain ⟨hne, heq⟩ := Option.ite_none_left_eq_some.1 h
  refine ⟨fun hnil => hne ?_, by rw [← Option.some.inj heq]; rfl⟩
  rw [digitPart] at hnil
  simp only [hnil, List.takeWhile_nil]

/-- Conversely, what is converted up to its end is a literal. -/
lemma literal_of_convert {negative : Bool} {r : Strtol} (h : convert negative s = some r)
    (hrest : r.rest = []) :
    ∃ n : ℕ, IntLiteral s n ∧ r = .ofInt (if negative then -n else n) [] := by
  suffices hlit : ∃ n, IntLiteral s n by
    obtain ⟨n, hn⟩ := hlit
    rw [convert_literal negative hn] at h
    exact ⟨n, hn, (Option.some.inj h).symm⟩
  obtain ⟨hne, hdrop⟩ := rest_of_convert h
  rw [hrest, eq_comm, List.dropWhile_eq_nil_iff] at hdrop
  simp only [decide_eq_true_eq] at hdrop
  rcases radix_cases s with ⟨hbase, x, d, t, rfl, hx⟩ | ⟨hbase, t, rfl⟩ | ⟨hbase, hzero⟩
  · -- a prefix `0x` and hexadecimal digits
    rw [digitPart, if_pos hbase] at hdrop
    rw [hbase] at hdrop
    exact ⟨_, .hex hx (by simp) hdrop⟩
  · -- a leading zero, itself a digit
    rw [digitPart, if_neg (by omega), hbase] at hdrop
    exact ⟨_, .octal fun d hd => hdrop d (List.mem_cons_of_mem _ hd)⟩
  · -- a decimal literal starts with a digit other than zero
    rw [digitPart, if_neg (by omega)] at hdrop hne
    rw [hbase] at hdrop
    obtain ⟨c, t, rfl⟩ := List.exists_cons_of_ne_nil hne
    obtain ⟨hlow, hhigh⟩ := digitVal_lt_ten.1 (hdrop c List.mem_cons_self)
    have hne48 : c ≠ 48 := by
      rintro rfl
      exact hzero t rfl
    refine ⟨_, .decimal ⟨?_, hhigh⟩ fun d hd => hdrop d (List.mem_cons_of_mem _ hd)⟩
    rw [UInt8.le_iff_toNat_le] at hlow ⊢
    rw [Ne, ← UInt8.toNat_inj] at hne48
    simp only [UInt8.reduceToNat] at hlow hne48 ⊢
    omega

lemma isSpace_of_digit {c : UInt8} (hc : digitVal c < 10) : isSpace c = false := by
  obtain ⟨hlow, hhigh⟩ := digitVal_lt_ten.1 hc
  simp only [isSpace, Bool.or_eq_false_iff, beq_eq_false_iff_ne, Bool.and_eq_false_iff,
    decide_eq_false_iff_not, Ne, ← UInt8.toNat_inj, UInt8.le_iff_toNat_le, UInt8.reduceToNat]
    at hlow hhigh ⊢
  omega

/-- Without white space and sign, `strtol` converts at once. -/
lemma strtol_of_digit {c : UInt8} (hc : digitVal c < 10) (t : List UInt8) :
    strtol (c :: t) = convert false (c :: t) := by
  have h45 : c ≠ 45 := by rintro rfl; exact absurd hc (by decide)
  have h43 : c ≠ 43 := by rintro rfl; exact absurd hc (by decide)
  simp [strtol, isSpace_of_digit hc, h45, h43]

lemma strtol_plus (t : List UInt8) : strtol (43 :: t) = convert false t := by
  simp [strtol, isSpace]

lemma strtol_minus (t : List UInt8) : strtol (45 :: t) = convert true t := by
  simp [strtol, isSpace]

/-- `strtol` reads a signed literal up to its end. -/
lemma strtol_literal {z : ℤ} (h : SignedLiteral s z) : strtol s = some (.ofInt z []) := by
  cases h with
  | unsigned h =>
    obtain ⟨c, t, rfl, hc⟩ := h.head_digit
    rw [strtol_of_digit hc]
    exact convert_literal false h
  | plus h =>
    rw [strtol_plus]
    exact convert_literal false h
  | minus h =>
    rw [strtol_minus]
    exact convert_literal true h

/-- A signed literal starts with a digit or a sign. -/
lemma SignedLiteral.head_not_space {z : ℤ} (h : SignedLiteral s z) :
    ∀ c ∈ s.head?, isSpace c = false := by
  intro c hc
  cases h with
  | unsigned h =>
    obtain ⟨d, t, rfl, hd⟩ := h.head_digit
    obtain rfl : d = c := Option.some.inj hc
    exact isSpace_of_digit hd
  | plus _ =>
    obtain rfl : 43 = c := Option.some.inj hc
    decide
  | minus _ =>
    obtain rfl : 45 = c := Option.some.inj hc
    decide

/-- There is no NUL in a literal. -/
lemma IntLiteral.not_mem_zero (h : IntLiteral s n) : 0 ∉ s := by
  cases h with
  | decimal hc hds =>
    rintro (_ | ⟨_, h0⟩)
    · exact absurd hc.1 (by decide)
    · exact absurd (hds 0 h0) (by decide)
  | octal hds =>
    rintro (_ | ⟨_, h0⟩)
    exact absurd (hds 0 h0) (by decide)
  | hex hx _ hds =>
    rintro (_ | ⟨_, _ | ⟨_, h0⟩⟩)
    · exact absurd hx (by decide)
    · exact absurd (hds 0 h0) (by decide)

lemma SignedLiteral.not_mem_zero {z : ℤ} (h : SignedLiteral s z) : 0 ∉ s := by
  cases h with
  | unsigned h => exact h.not_mem_zero
  | plus h =>
    rintro (_ | ⟨_, h0⟩)
    exact h.not_mem_zero h0
  | minus h =>
    rintro (_ | ⟨_, h0⟩)
    exact h.not_mem_zero h0

/-- What `strtol` reads up to its end, without skipping white space, is a signed literal. -/
lemma literal_of_strtol {r : Strtol} (h : strtol s = some r) (hrest : r.rest = [])
    (hspace : ∀ c ∈ s.head?, isSpace c = false) :
    ∃ z, SignedLiteral s z ∧ r = .ofInt z [] := by
  have hdrop : s.dropWhile isSpace = s := by
    cases s with
    | nil => rfl
    | cons c t => rw [List.dropWhile_cons, if_neg (by simp [hspace c rfl])]
  rw [strtol] at h
  simp only [hdrop] at h
  split_ifs at h with hminus hplus
  · obtain ⟨t, rfl⟩ : ∃ t, s = 45 :: t := List.head?_eq_some_iff.1 hminus
    obtain ⟨n, hn, rfl⟩ := literal_of_convert h hrest
    exact ⟨_, .minus hn, rfl⟩
  · obtain ⟨t, rfl⟩ : ∃ t, s = 43 :: t := List.head?_eq_some_iff.1 hplus
    obtain ⟨n, hn, rfl⟩ := literal_of_convert h hrest
    exact ⟨_, .plus hn, rfl⟩
  · obtain ⟨n, hn, rfl⟩ := literal_of_convert h hrest
    exact ⟨_, .unsigned hn, rfl⟩

/-- A space is not a digit in any base. -/
lemma digitVal_of_isSpace {c : UInt8} (hc : isSpace c) : digitVal c = 36 := by
  simp only [isSpace, Bool.or_eq_true, Bool.and_eq_true, decide_eq_true_eq, beq_iff_eq,
    ← UInt8.toNat_inj, UInt8.le_iff_toNat_le, UInt8.reduceToNat] at hc
  simp only [digitVal, Bool.and_eq_true, decide_eq_true_eq, UInt8.le_iff_toNat_le,
    UInt8.reduceToNat]
  split_ifs <;> omega

lemma radix_append_space {x : UInt8} (hx : isSpace x) (s : List UInt8) :
    radix (s ++ [x]) = radix s := by
  have h48 : x ≠ 48 := by
    rintro rfl
    exact absurd hx (by decide)
  have hdigit : ¬digitVal x < 16 := by
    rw [digitVal_of_isSpace hx]
    decide
  rcases s with _ | ⟨a, _ | ⟨b, _ | ⟨c, t⟩⟩⟩
  · simp [radix, h48]
  · simp [radix]
  · simp [radix, hdigit]
  · rfl

/-- The conversion stops at a space. -/
lemma convert_append_space {x : UInt8} (hx : isSpace x) (negative : Bool) (s : List UInt8) :
    (convert negative (s ++ [x])).map (fun r => (r.value, r.erange)) =
      (convert negative s).map fun r => (r.value, r.erange) := by
  have hradix := radix_cases s
  have hbase : radix s ≤ 16 := by omega
  have hstop : decide (digitVal x < radix s) = false := by
    rw [digitVal_of_isSpace hx]
    exact decide_eq_false (by omega)
  have htake : ∀ u : List UInt8, (u ++ [x]).takeWhile (fun c => digitVal c < radix s) =
      u.takeWhile fun c => digitVal c < radix s := by
    intro u
    induction u with
    | nil => simp [hstop]
    | cons c u ih => rw [List.cons_append, List.takeWhile_cons, List.takeWhile_cons, ih]
  have hdrop : radix s = 16 → (s ++ [x]).drop 2 = s.drop 2 ++ [x] := by
    intro h16
    rcases hradix with ⟨-, a, b, t, rfl, -⟩ | ⟨h, -⟩ | ⟨h, -⟩
    · rfl
    · omega
    · omega
  have hpart : (if radix s = 16 then (s ++ [x]).drop 2 else s ++ [x]) =
      (if radix s = 16 then s.drop 2 else s) ++ [x] := by
    split_ifs with h16
    · exact hdrop h16
    · rfl
  simp only [convert, radix_append_space hx, hpart, htake]
  split_ifs <;> rfl

/-- So does `strtol`. -/
lemma strtol_append_space {x : UInt8} (hx : isSpace x) (s : List UInt8) :
    (strtol (s ++ [x])).map (fun r => (r.value, r.erange)) =
      (strtol s).map fun r => (r.value, r.erange) := by
  rw [strtol, strtol, List.dropWhile_append]
  cases hs : s.dropWhile isSpace with
  | nil => simp [hx]
  | cons c t =>
    simp only [List.isEmpty_cons, Bool.false_eq_true, if_false, List.cons_append,
      List.head?_cons, List.drop_one, List.tail_cons]
    split_ifs
    · exact convert_append_space hx true t
    · exact convert_append_space hx false t
    · exact convert_append_space hx false (c :: t)

end Literals

/-! ### Decimal numbers in `printf` -/

/-- The conversion `%u`. -/
def decimal (n : ℕ) : List UInt8 :=
  if n = 0 then [48] else (Nat.digits 10 n).reverse.map fun d => UInt8.ofNat (48 + d)

/-- The conversion `%d`. -/
def decimalInt (z : ℤ) : List UInt8 :=
  if z < 0 then 45 :: decimal z.natAbs else decimal z.natAbs

lemma digitVal_ofNat {d : ℕ} (hd : d < 10) : digitVal (UInt8.ofNat (48 + d)) = d := by
  interval_cases d <;> decide

/-- A printed number is a literal of the same value. -/
lemma decimal_literal (n : ℕ) : IntLiteral (decimal n) n := by
  rw [decimal]
  split_ifs with hn
  · subst hn
    exact @IntLiteral.octal [] (by simp)
  have hlt : ∀ d ∈ Nat.digits 10 n, d < 10 := fun d hd => Nat.digits_lt_base (by norm_num) hd
  have hchar : ∀ d ∈ Nat.digits 10 n, digitVal (UInt8.ofNat (48 + d)) = d := fun d hd =>
    digitVal_ofNat (hlt d hd)
  have hvalue : numeral 10 ((Nat.digits 10 n).reverse.map fun d => UInt8.ofNat (48 + d)) = n := by
    have hback : (Nat.digits 10 n).map (digitVal ∘ fun d => UInt8.ofNat (48 + d)) =
        Nat.digits 10 n := (List.map_congr_left hchar).trans (List.map_id _)
    rw [numeral, List.map_map, List.map_reverse, List.reverse_reverse, hback,
      Nat.ofDigits_digits]
  -- the first digit to be printed is not zero
  have hne : Nat.digits 10 n ≠ [] := Nat.digits_ne_nil_iff_ne_zero.2 hn
  have hlast := List.dropLast_append_getLast hne
  generalize hd : (Nat.digits 10 n).getLast hne = d at hlast
  have hd0 : d ≠ 0 := hd ▸ Nat.getLast_digit_ne_zero 10 hn
  have hd10 : d < 10 := hlt d (hd ▸ List.getLast_mem hne)
  rw [← hlast, List.reverse_append, List.reverse_singleton, List.singleton_append,
    List.map_cons] at hvalue ⊢
  nth_rewrite 2 [← hvalue]
  refine .decimal ?_ ?_
  · interval_cases d <;> first | exact absurd rfl hd0 | decide
  · intro c hc
    obtain ⟨e, he, rfl⟩ := List.mem_map.1 hc
    have hmem : e ∈ Nat.digits 10 n := List.mem_of_mem_dropLast (List.mem_reverse.1 he)
    rw [hchar e hmem]
    exact hlt e hmem

/-- A printed signed number is a signed literal of the same value. -/
lemma decimalInt_literal (z : ℤ) : SignedLiteral (decimalInt z) z := by
  rw [decimalInt]
  split_ifs with hz
  · have := SignedLiteral.minus (decimal_literal z.natAbs)
    rwa [show -(z.natAbs : ℤ) = z by omega] at this
  · have := SignedLiteral.unsigned (decimal_literal z.natAbs)
    rwa [show (z.natAbs : ℤ) = z by omega] at this

lemma length_decimal_le {n k : ℕ} (hk : 0 < k) (hn : n < 10 ^ k) : (decimal n).length ≤ k := by
  rw [decimal]
  split_ifs
  · exact hk
  · rw [List.length_map, List.length_reverse]
    exact (Nat.digits_length_le_iff (by norm_num) n).2 hn

/-- Only digits are printed. -/
lemma digitVal_of_mem_decimal {n : ℕ} {c : UInt8} (hc : c ∈ decimal n) : digitVal c < 10 := by
  rw [decimal] at hc
  split_ifs at hc
  · rw [List.mem_singleton.1 hc]
    decide
  · obtain ⟨d, hd, rfl⟩ := List.mem_map.1 hc
    have hd10 : d < 10 := Nat.digits_lt_base (by norm_num) (List.mem_reverse.1 hd)
    rw [digitVal_ofNat hd10]
    exact hd10

/-- A hexadecimal digit of the conversion `%X`. -/
def upperHexDigit (d : ℕ) : UInt8 := if d < 10 then UInt8.ofNat (48 + d) else UInt8.ofNat (55 + d)

/-- The conversion `%0nX`, for a number of at most `n` digits. -/
def upperHex (n x : ℕ) : List UInt8 :=
  (List.range n).reverse.map fun i => upperHexDigit (x / 16 ^ i % 16)

/-- The conversion `%-ns`. -/
def padRight (n : ℕ) (s : List UInt8) : List UInt8 := s ++ List.replicate (n - s.length) 32

/-! ### `fgets` -/

/-- The contents of a buffer of `size` bytes after each of the calls of `fgets` that read a text,
byte by byte: `room` bytes still fit behind `buf`. -/
def fgetsLoop (size : ℕ) : ℕ → List UInt8 → List UInt8 → List (List UInt8)
  | _, buf, [] => if buf = [] then [] else [buf]
  | room, buf, c :: s =>
    if c = 10 ∨ room ≤ 1 then (buf ++ [c]) :: fgetsLoop size (size - 1) [] s
    else fgetsLoop size (room - 1) (buf ++ [c]) s

/-- The successive results of `fgets` on a text. -/
def fgets (size : ℕ) (s : List UInt8) : List (List UInt8) := fgetsLoop size (size - 1) [] s

section Fgets

variable (size room : ℕ) (buf l s : List UInt8)

/-- Nothing that stands behind a newline is read together with what stands in front of it. -/
lemma fgetsLoop_append_newline :
    fgetsLoop size room buf (l ++ 10 :: s) =
      fgetsLoop size room buf (l ++ [10]) ++ fgetsLoop size (size - 1) [] s := by
  induction l generalizing room buf with
  | nil => simp [fgetsLoop]
  | cons c l ih =>
    simp only [List.cons_append, fgetsLoop]
    split_ifs
    · rw [ih, List.cons_append]
    · exact ih _ _

/-- The buffers of a text are those of its lines, one line after the other. -/
lemma fgets_append_newline : fgets size (l ++ 10 :: s) = fgets size (l ++ [10]) ++ fgets size s :=
  fgetsLoop_append_newline size (size - 1) [] l s

end Fgets

/-- A line that fits is read by one call. -/
lemma fgetsLoop_of_lt {size room : ℕ} {buf l : List UInt8} (hnl : 10 ∉ l) (hlen : l.length ≤ room)
    (hne : buf ++ l ≠ []) : fgetsLoop size room buf l = [buf ++ l] := by
  induction l generalizing room buf with
  | nil =>
    rw [List.append_nil] at hne ⊢
    exact if_neg hne
  | cons c l ih =>
    have hc : c ≠ 10 := fun h => hnl (h ▸ List.mem_cons_self)
    have hl : 10 ∉ l := fun h => hnl (List.mem_cons_of_mem c h)
    rw [List.length_cons] at hlen
    rw [fgetsLoop]
    by_cases hroom : room ≤ 1
    · obtain rfl : l = [] := List.length_eq_zero_iff.1 (by omega)
      rw [if_pos (Or.inr hroom)]
      simp [fgetsLoop]
    · rw [if_neg (by simp [hc, hroom]), ih hl (by omega) (by simp), List.append_assoc]
      rfl

/-- A line shorter than the buffer is read by one call. -/
lemma fgets_line {size : ℕ} {l : List UInt8} (hnl : 10 ∉ l) (hlen : l.length < size)
    (hne : l ≠ []) : fgets size l = [l] := fgetsLoop_of_lt hnl (by omega) hne

end CText
