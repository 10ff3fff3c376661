/-
# Linear probing

The combinatorics of open addressing with linear probing, for a table of `m` slots and a key
whose home slot is `h`: the probe sequence is `h, h + 1, h + 2, ...` modulo `m`, a search
returns the first slot of that sequence with a given property, and a slot is *reached* from
`h` through a set of slots when every slot before it on the sequence belongs to the set.  The
two central facts are that a search that skips only slots of the set ends in a slot that is
reached through it, and that a reached slot is what a search finds when nothing on the way to
it has the property.
-/
import Mathlib.Tactic

namespace LinearProbing

/-- The slot probed at step `i`. -/
def slot (m h i : ℕ) : ℕ := (h + i) % m

/-- The first slot with property `p` among those probed at the `n` steps from step `i` on. -/
def searchFrom (m h : ℕ) (p : ℕ → Bool) : ℕ → ℕ → Option ℕ
  | 0, _ => none
  | n + 1, i => if p (slot m h i) then some (slot m h i) else searchFrom m h p n (i + 1)

/-- The first slot of the whole probe sequence with property `p`. -/
def search (m h : ℕ) (p : ℕ → Bool) : Option ℕ := searchFrom m h p m 0

/-- Slot `j` is on the probe sequence of `h`, and every slot probed before it satisfies
`through`. -/
def Reaches (m h : ℕ) (through : ℕ → Bool) (j : ℕ) : Prop :=
  ∃ d < m, slot m h d = j ∧ ∀ i < d, through (slot m h i) = true

variable {m h : ℕ} {p q : ℕ → Bool} {j : ℕ}

/-! ### The probe sequence -/

lemma slot_lt (hm : 0 < m) (i : ℕ) : slot m h i < m := Nat.mod_lt _ hm

/-- The probe sequence covers the table. -/
lemma exists_slot_eq (hj : j < m) : ∃ d < m, slot m h d = j := by
  have hm : 0 < m := by omega
  refine ⟨(j + (m - h % m)) % m, Nat.mod_lt _ hm, ?_⟩
  have hh : h % m < m := Nat.mod_lt _ hm
  rw [slot, Nat.add_mod_mod, ← Nat.mod_add_mod,
    show h % m + (j + (m - h % m)) = j + m by omega, Nat.add_mod_right, Nat.mod_eq_of_lt hj]

/-- The first `m` steps probe different slots. -/
lemma slot_injOn {d e : ℕ} (hd : d < m) (he : e < m) (hde : slot m h d = slot m h e) :
    d = e := by
  have hmod : d ≡ e [MOD m] := Nat.ModEq.add_left_cancel' h hde
  rwa [Nat.ModEq, Nat.mod_eq_of_lt hd, Nat.mod_eq_of_lt he] at hmod

/-! ### Searching -/

lemma searchFrom_eq_some_iff {n i : ℕ} :
    searchFrom m h p n i = some j ↔
      ∃ d < n, slot m h (i + d) = j ∧ p j = true ∧ ∀ e < d, p (slot m h (i + e)) = false := by
  induction n generalizing i with
  | zero => simp [searchFrom]
  | succ n ih =>
    rw [searchFrom]
    by_cases hp : p (slot m h i) = true
    · rw [if_pos hp]
      constructor
      · intro hj
        obtain rfl : slot m h i = j := Option.some.inj hj
        exact ⟨0, by omega, rfl, hp, by simp⟩
      · -- a later slot would have been passed over
        rintro ⟨d, -, hd, -, hno⟩
        cases d with
        | zero => exact congrArg some hd
        | succ d => exact absurd (hno 0 (by omega)) (by simp [hp])
    · -- the rest of the search is one slot further on
      rw [if_neg hp, ih]
      constructor
      · rintro ⟨d, hd, hslot, hpj, hno⟩
        refine ⟨d + 1, by omega, by rw [← hslot]; congr 1; omega, hpj, ?_⟩
        rintro (_ | e) he
        · simpa using hp
        · have := hno e (by omega)
          rwa [show i + 1 + e = i + (e + 1) by omega] at this
      · rintro ⟨d, hd, hslot, hpj, hno⟩
        cases d with
        | zero => exact absurd (hslot ▸ hpj) hp
        | succ d =>
          refine ⟨d, by omega, by rw [← hslot]; congr 1; omega, hpj, fun e he => ?_⟩
          have := hno (e + 1) (by omega)
          rwa [show i + (e + 1) = i + 1 + e by omega] at this

lemma search_eq_some_iff :
    search m h p = some j ↔
      ∃ d < m, slot m h d = j ∧ p j = true ∧ ∀ e < d, p (slot m h e) = false := by
  simp [search, searchFrom_eq_some_iff]

lemma search_spec (hs : search m h p = some j) : p j = true := by
  obtain ⟨d, -, -, hp, -⟩ := search_eq_some_iff.1 hs
  exact hp

lemma search_lt (hs : search m h p = some j) : j < m := by
  obtain ⟨d, hd, rfl, -, -⟩ := search_eq_some_iff.1 hs
  exact slot_lt (by omega) d

/-- A search fails exactly when no slot has the property. -/
lemma search_eq_none_iff : search m h p = none ↔ ∀ j < m, p j = false := by
  constructor
  · intro hs j hj
    by_contra hp
    obtain ⟨d, hd, hdj⟩ := exists_slot_eq (h := h) hj
    have hex : ∃ d, d < m ∧ p (slot m h d) = true := ⟨d, hd, by rw [hdj]; simpa using hp⟩
    have hfirst := Nat.find_spec hex
    have : search m h p = some (slot m h (Nat.find hex)) := by
      rw [search_eq_some_iff]
      refine ⟨_, hfirst.1, rfl, hfirst.2, fun e he => ?_⟩
      have hmin := Nat.find_min hex he
      have hlt : e < m := lt_trans he hfirst.1
      simpa [hlt] using hmin
    rw [hs] at this
    exact absurd this (by simp)
  · intro hall
    by_contra hne
    obtain ⟨j, hj⟩ := Option.ne_none_iff_exists'.1 hne
    exact absurd (search_spec hj) (by simp [hall j (search_lt hj)])

lemma search_isSome (hj : j < m) (hp : p j = true) : ∃ k, search m h p = some k := by
  refine Option.ne_none_iff_exists'.1 fun hnone => ?_
  exact absurd (search_eq_none_iff.1 hnone j hj) (by simp [hp])

/-! ### Reached slots -/

lemma Reaches.lt (hr : Reaches m h p j) : j < m := by
  obtain ⟨d, hd, rfl, -⟩ := hr
  exact slot_lt (by omega) d

lemma Reaches.mono (hr : Reaches m h p j) (hpq : ∀ i < m, p i = true → q i = true) :
    Reaches m h q j := by
  obtain ⟨d, hd, hj, hall⟩ := hr
  exact ⟨d, hd, hj, fun i hi => hpq _ (slot_lt (by omega) i) (hall i hi)⟩

/-- A search that skips only slots satisfying `q` ends in a slot reached through `q`. -/
lemma reaches_of_search (hs : search m h p = some j)
    (hpq : ∀ i < m, p i = false → q i = true) : Reaches m h q j := by
  obtain ⟨d, hd, hj, -, hno⟩ := search_eq_some_iff.1 hs
  exact ⟨d, hd, hj, fun i hi => hpq _ (slot_lt (by omega) i) (hno i hi)⟩

/-- A slot that is reached through `q` is what the search for `p` finds, when it has the
property and no other slot satisfying `q` does. -/
lemma search_eq_of_reaches (hr : Reaches m h q j) (hp : p j = true)
    (hno : ∀ i < m, i ≠ j → q i = true → p i = false) : search m h p = some j := by
  obtain ⟨d, hd, hj, hall⟩ := hr
  have hm : 0 < m := by omega
  rw [search_eq_some_iff]
  refine ⟨d, hd, hj, hp, fun e he => hno _ (slot_lt hm e) ?_ (hall e he)⟩
  rintro hej
  have : e = d := slot_injOn (by omega) hd (hej.trans hj.symm)
  omega

end LinearProbing
