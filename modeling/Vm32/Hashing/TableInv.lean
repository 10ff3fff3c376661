/-
# The representation invariant of the hash table

A table is well shaped when its size is a power of two, its flags and counters agree, its live
keys are different, cache their hashes and are reached from their home slots through bins in
probe.  This file states the invariant, reads the two searches of the C code as searches of a
linear probe sequence, and shows what storing a pair in a bin and freeing a bin do to it.  The
contents of a table are its list of live bins, up to the order.
-/
import Vm32.Lib.Probe
import Vm32.Hashing.Table

namespace Vm32

open LinearProbing List

variable {K V : Type*} {kt : KeyType K} {t : HashTable K V}

/-- What the table asks of a key type: `cmp` is an equivalence of keys that `hash` respects,
and a copy compares equal to its original. -/
structure KeyType.Lawful (kt : KeyType K) : Prop where
  refl : ∀ a, kt.cmp a a = true
  symm : ∀ a b, kt.cmp a b = true → kt.cmp b a = true
  trans : ∀ a b c, kt.cmp a b = true → kt.cmp b c = true → kt.cmp a c = true
  hash_eq : ∀ a b, kt.cmp a b = true → kt.hash a = kt.hash b
  cmp_cpy : ∀ a, kt.cmp (kt.cpy a) a = true

/-- A key type whose `cmp` is equality and whose `cpy` returns an equal key. -/
lemma KeyType.lawful_of_eq (hcmp : ∀ a b, kt.cmp a b = true ↔ a = b)
    (hcpy : ∀ a, kt.cpy a = a) : kt.Lawful where
  refl a := (hcmp a a).2 rfl
  symm a b h := (hcmp b a).2 ((hcmp a b).1 h).symm
  trans a b c h h' := (hcmp a c).2 (((hcmp a b).1 h).trans ((hcmp b c).1 h'))
  hash_eq a b h := by rw [(hcmp a b).1 h]
  cmp_cpy a := (hcmp _ _).2 (hcpy a)

lemma KeyType.Lawful.hash_cpy (hkt : kt.Lawful) (a : K) : kt.hash (kt.cpy a) = kt.hash a :=
  hkt.hash_eq _ _ (hkt.cmp_cpy a)

lemma cmpKeys_symm (hkt : kt.Lawful) {a b : Option K} (h : cmpKeys kt a b = true) :
    cmpKeys kt b a = true := by
  match a, b, h with
  | some a, some b, h => exact hkt.symm a b h

lemma cmpKeys_trans (hkt : kt.Lawful) {a b c : Option K} (h : cmpKeys kt a b = true)
    (h' : cmpKeys kt b c = true) : cmpKeys kt a c = true := by
  match a, b, c, h, h' with
  | some a, some b, some c, h, h' => exact hkt.trans a b c h h'

/-! ### Bins -/

lemma inProbe_of_active {b : HashBin K V} (ha : isActiveBin b = true) : b.inProbe = true :=
  (Bool.and_eq_true_iff.1 ha).1

lemma nonempty_of_active {b : HashBin K V} (ha : isActiveBin b = true) : b.isEmpty = false :=
  Bool.eq_false_of_not_eq_true' (Bool.and_eq_true_iff.1 ha).2

namespace HashTable

/-- The bins that hold a pair. -/
def live (t : HashTable K V) : List (HashBin K V) := t.bins.filter isActiveBin

lemma bin_eq_getElem {j : ℕ} (hj : j < t.bins.length) : t.bin j = t.bins[j] := by
  simp [bin, hj]

lemma bin_mem {j : ℕ} (hj : j < t.bins.length) : t.bin j ∈ t.bins := by
  rw [bin_eq_getElem hj]
  exact List.getElem_mem hj

lemma active_lt {j : ℕ} (ha : isActiveBin (t.bin j) = true) : j < t.bins.length := by
  by_contra hge
  rw [bin, List.getD_eq_getElem?_getD, List.getElem?_eq_none (not_lt.1 hge)] at ha
  cases ha

/-- The bins after an update of the array. -/
lemma bin_set {j i : ℕ} {b : HashBin K V} {t' : HashTable K V}
    (ht' : t'.bins = t.bins.set j b) (hj : j < t.bins.length) :
    t'.bin i = if i = j then b else t.bin i := by
  rw [bin, bin, ht', List.getD_eq_getElem?_getD, List.getD_eq_getElem?_getD,
    List.getElem?_set]
  by_cases hij : i = j
  · subst hij
    simp [hj]
  · simp [hij, Ne.symm hij]

end HashTable

/-! ### The invariant -/

/-- The array has the length that the table tells, and a bin outside the probe sequences holds no
pair. -/
structure Sized (t : HashTable K V) : Prop where
  bins_length : t.bins.length = t.size.toNat
  empty_of_not_inProbe : ∀ b ∈ t.bins, b.inProbe = false → b.isEmpty = true

lemma Sized.active_of_nonempty (h : Sized t) {b : HashBin K V} (hb : b ∈ t.bins)
    (he : b.isEmpty = false) : isActiveBin b = true := by
  cases hp : b.inProbe with
  | true => rw [isActiveBin, hp, he]; rfl
  | false => rw [h.empty_of_not_inProbe b hb hp] at he; cases he

/-- The array is as large as it may be, and the bins in probe are counted.  Nothing is said of keys,
and nothing of `active`. -/
structure Tallied (t : HashTable K V) : Prop extends Sized t where
  size_pow : ∃ e, 3 ≤ e ∧ t.size.toNat = 2 ^ e
  used_eq : t.used.toNat = t.bins.countP (·.inProbe)

namespace Tallied

lemma size_pos (ht : Tallied t) : 0 < t.size.toNat := by
  obtain ⟨e, -, he⟩ := ht.size_pow
  rw [he]
  positivity

lemma eight_le_size (ht : Tallied t) : 8 ≤ t.size.toNat := by
  obtain ⟨e, he3, he⟩ := ht.size_pow
  rw [he]
  exact le_trans (by norm_num) (Nat.pow_le_pow_right (by norm_num) he3)

/-- The sizes a table can have. -/
lemma size_le (ht : Tallied t) : t.size.toNat ≤ 2 ^ 31 := by
  obtain ⟨e, -, he⟩ := ht.size_pow
  have hlt : t.size.toNat < 2 ^ 32 := t.size.toNat_lt
  rw [he] at hlt ⊢
  have : e < 32 := (Nat.pow_lt_pow_iff_right (by norm_num)).1 hlt
  exact Nat.pow_le_pow_right (by norm_num) (by omega)

lemma exists_index (ht : Tallied t) {b : HashBin K V} (hb : b ∈ t.bins) :
    ∃ j < t.size.toNat, t.bin j = b := by
  obtain ⟨j, hj, hjb⟩ := List.mem_iff_getElem.1 hb
  exact ⟨j, by rw [← ht.bins_length]; exact hj, by rw [HashTable.bin_eq_getElem hj, hjb]⟩

/-- There are at most as many live bins as bins in probe. -/
lemma live_length_le_used (ht : Tallied t) : t.live.length ≤ t.used.toNat := by
  rw [ht.used_eq, HashTable.live, ← List.countP_eq_length_filter]
  exact List.countP_mono_left fun _ _ => inProbe_of_active

end Tallied

/-- The bins in probe are counted, and they are at most half of the bins. -/
structure HalfFull (t : HashTable K V) : Prop extends Tallied t where
  load : 2 * t.used.toNat ≤ t.size.toNat

lemma HalfFull.used_lt_size (ht : HalfFull t) : t.used.toNat < t.size.toNat := by
  have hpos := ht.size_pos
  have hload := ht.load
  omega

/-- The parts of the invariant that every single step of an operation keeps. -/
structure Shape (kt : KeyType K) (t : HashTable K V) : Prop where
  bins_length : t.bins.length = t.size.toNat
  size_pow : ∃ e, 3 ≤ e ∧ t.size.toNat = 2 ^ e
  used_eq : t.used.toNat = t.bins.countP (·.inProbe)
  empty_of_not_inProbe : ∀ b ∈ t.bins, b.inProbe = false → b.isEmpty = true
  cached : ∀ b ∈ t.live, ∃ k, b.key = some k ∧ b.hashKey = kt.hash k
  distinct : t.live.Pairwise fun a b => cmpKeys kt a.key b.key = false
  reached : ∀ j < t.size.toNat, isActiveBin (t.bin j) = true →
    Reaches t.size.toNat (t.bin j).hashKey.toNat (fun i => (t.bin i).inProbe) j

/-- The invariant between operations: the table is well shaped and at most half full. -/
structure TableInv (kt : KeyType K) (t : HashTable K V) : Prop extends Shape kt t where
  load : 2 * t.used.toNat ≤ t.size.toNat

namespace Shape

lemma tallied (ht : Shape kt t) : Tallied t :=
  ⟨⟨ht.bins_length, ht.empty_of_not_inProbe⟩, ht.size_pow, ht.used_eq⟩

lemma bin_mem_live (ht : Shape kt t) {j : ℕ} (hj : j < t.size.toNat)
    (ha : isActiveBin (t.bin j) = true) : t.bin j ∈ t.live := by
  refine List.mem_filter.2 ⟨?_, ha⟩
  exact HashTable.bin_mem (by rw [ht.bins_length]; exact hj)

/-- Two live bins with equal keys are the same bin. -/
lemma index_unique (hkt : kt.Lawful) (ht : Shape kt t) {i j : ℕ} (hi : i < t.size.toNat)
    (hj : j < t.size.toNat) (hai : isActiveBin (t.bin i) = true)
    (haj : isActiveBin (t.bin j) = true)
    (heq : cmpKeys kt (t.bin i).key (t.bin j).key = true) : i = j := by
  have hpw := List.pairwise_iff_getElem.1 (List.pairwise_filter.1 ht.distinct)
  rw [← ht.bins_length] at hi hj
  rw [HashTable.bin_eq_getElem hi] at hai heq
  rw [HashTable.bin_eq_getElem hj] at haj heq
  rcases lt_trichotomy i j with hij | hij | hij
  · exact absurd (hpw i j hi hj hij hai haj) (by simp [heq])
  · exact hij
  · exact absurd (hpw j i hj hi hij haj hai) (by simp [cmpKeys_symm hkt heq])

/-- A live bin with a key equal to `k` caches the hash of `k`. -/
lemma hashKey_eq (hkt : kt.Lawful) (ht : Shape kt t) {b : HashBin K V} (hb : b ∈ t.live)
    {k : K} (hk : cmpKeys kt b.key (some k) = true) : b.hashKey = kt.hash k := by
  obtain ⟨k', hk', hh⟩ := ht.cached b hb
  rw [hk'] at hk
  rw [hh, hkt.hash_eq k' k hk]

end Shape

lemma TableInv.halfFull (ht : TableInv kt t) : HalfFull t := ⟨ht.tallied, ht.load⟩

/-- A half-full table has a bin outside the probe sequences. -/
lemma TableInv.used_lt_size (ht : TableInv kt t) : t.used.toNat < t.size.toNat :=
  ht.halfFull.used_lt_size

/-! ### The two searches -/

section Search

variable {hashKey : UInt32}

/-- On a table whose size is a power of two, the bit mask of `probe` is a remainder. -/
lemma probe_toNat (ht : Tallied t) (i : UInt32) :
    (probe hashKey i t.size).toNat = slot t.size.toNat hashKey.toNat i.toNat := by
  obtain ⟨e, he3, he⟩ := ht.size_pow
  have hlt : t.size.toNat < 2 ^ 32 := t.size.toNat_lt
  have he32 : e ≤ 32 := by
    by_contra hcon
    have : 2 ^ 32 ≤ 2 ^ e := Nat.pow_le_pow_right (by norm_num) (by omega)
    omega
  have hone : (1 : UInt32) ≤ t.size := by
    rw [UInt32.le_iff_toNat_le]
    exact ht.size_pos
  rw [probe, UInt32.toNat_and, UInt32.toNat_sub_of_le _ _ hone, UInt32.toNat_add, slot, he,
    UInt32.toNat_one, Nat.and_two_pow_sub_one_eq_mod,
    Nat.mod_mod_of_dvd _ (Nat.pow_dvd_pow 2 he32)]

lemma probeLoop_eq (ht : Tallied t) (stop : HashBin K V → Bool) (n : ℕ) (i : ℕ)
    (hi : i + n ≤ t.size.toNat) :
    probeLoop t hashKey stop n (UInt32.ofNat i) =
      searchFrom t.size.toNat hashKey.toNat (fun j => stop (t.bin j)) n i := by
  induction n generalizing i with
  | zero => rfl
  | succ n ih =>
    have hlt : t.size.toNat < 2 ^ 32 := t.size.toNat_lt
    have hi' : (UInt32.ofNat i).toNat = i := UInt32.toNat_ofNat_of_lt' (by
      rw [UInt32.size]; omega)
    have hsucc : UInt32.ofNat i + 1 = UInt32.ofNat (i + 1) := by
      rw [UInt32.ofNat_add]; rfl
    simp only [probeLoop, searchFrom, probe_toNat ht, hi', hsucc, ih (i + 1) (by omega)]

lemma findKey_eq (ht : Tallied t) (key : Option K) :
    findKey kt t hashKey key =
      search t.size.toNat hashKey.toNat
        (fun j => !(t.bin j).inProbe || keyInBin kt (t.bin j) hashKey key) :=
  probeLoop_eq ht _ _ 0 (by omega)

lemma findEmpty_eq (ht : Tallied t) :
    findEmpty t hashKey =
      search t.size.toNat hashKey.toNat (fun j => (t.bin j).isEmpty) :=
  probeLoop_eq ht _ _ 0 (by omega)

/-- A table that is not full of bins in probe has a bin outside the probe sequences. -/
lemma exists_not_inProbe (ht : Tallied t) (hused : t.used.toNat < t.size.toNat) :
    ∃ j < t.size.toNat, (t.bin j).inProbe = false := by
  by_contra hno
  have hall : ∀ b ∈ t.bins, b.inProbe = true := fun b hb => by
    obtain ⟨j, hj, rfl⟩ := ht.exists_index hb
    by_contra hp
    exact hno ⟨j, hj, by simpa using hp⟩
  have hcount := ht.used_eq
  rw [List.countP_eq_length.2 hall, ht.bins_length] at hcount
  omega

/-- `find_key` returns a bin: its `assert(false)` is not reached. -/
lemma findKey_isSome (ht : Tallied t) (hused : t.used.toNat < t.size.toNat)
    (hashKey : UInt32) (key : Option K) : ∃ j, findKey kt t hashKey key = some j := by
  obtain ⟨j, hj, hp⟩ := exists_not_inProbe ht hused
  rw [findKey_eq ht]
  exact search_isSome hj (by simp [hp])

/-- `find_empty` returns a bin: its `assert(false)` is not reached. -/
lemma findEmpty_isSome (ht : Tallied t) (hused : t.used.toNat < t.size.toNat)
    (hashKey : UInt32) : ∃ j, findEmpty t hashKey = some j := by
  obtain ⟨j, hj, hp⟩ := exists_not_inProbe ht hused
  rw [findEmpty_eq ht]
  refine search_isSome hj (ht.empty_of_not_inProbe _ (HashTable.bin_mem ?_) hp)
  rwa [ht.bins_length]

/-- `find_key` finds the live bin with the key, if there is one. -/
lemma findKey_of_live (hkt : kt.Lawful) (ht : Shape kt t) {j : ℕ} {k : K}
    (hj : j < t.size.toNat) (ha : isActiveBin (t.bin j) = true)
    (hk : cmpKeys kt (t.bin j).key (some k) = true) :
    findKey kt t (kt.hash k) (some k) = some j := by
  have hhash : (t.bin j).hashKey = kt.hash k :=
    ht.hashKey_eq hkt (ht.bin_mem_live hj ha) hk
  have hr := ht.reached j hj ha
  rw [hhash] at hr
  rw [findKey_eq ht.tallied]
  refine search_eq_of_reaches hr (by simp [keyInBin, ha, hhash, hk]) fun i hi hij hp => ?_
  have hin : keyInBin kt (t.bin i) (kt.hash k) (some k) = false := by
    by_contra hcon
    simp only [keyInBin, Bool.and_eq_true, Bool.not_eq_false] at hcon
    exact hij (ht.index_unique hkt hi hj hcon.1.1 ha
      (cmpKeys_trans hkt hcon.2 (cmpKeys_symm hkt hk)))
  simp [hp, hin]

/-- What `find_key` returns: a bin with the key, or a bin outside the probe sequences when no
live bin has the key. -/
lemma findKey_cases (hkt : kt.Lawful) (ht : Shape kt t) {j : ℕ} {k : K}
    (hj : findKey kt t (kt.hash k) (some k) = some j) :
    j < t.size.toNat ∧
      ((isActiveBin (t.bin j) = true ∧ (t.bin j).inProbe = true ∧
          cmpKeys kt (t.bin j).key (some k) = true) ∨
        ((t.bin j).inProbe = false ∧ ∀ b ∈ t.live, cmpKeys kt b.key (some k) = false)) := by
  have hsearch := hj
  rw [findKey_eq ht.tallied] at hsearch
  refine ⟨search_lt hsearch, ?_⟩
  have hp := search_spec hsearch
  by_cases hin : (t.bin j).inProbe = true
  · refine Or.inl ?_
    simp only [hin, Bool.not_true, Bool.false_or, keyInBin, Bool.and_eq_true] at hp
    exact ⟨hp.1.1, hin, hp.2⟩
  · refine Or.inr ⟨by simpa using hin, fun b hb => ?_⟩
    by_contra hcon
    obtain ⟨hbins, ha⟩ := List.mem_filter.1 hb
    obtain ⟨i, hi, rfl⟩ := ht.tallied.exists_index hbins
    have := findKey_of_live hkt ht hi ha (by simpa using hcon)
    rw [hj] at this
    obtain rfl : j = i := Option.some.inj this
    exact hin (inProbe_of_active ha)

end Search

end Vm32
