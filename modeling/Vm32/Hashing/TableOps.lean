/-
# The operations of the hash table keep its invariant

The mutual recursion of insertion and resizing is taken apart by room: a table that is half the
size it needs never overloads while bins are moved into it, so a growing resize starts no
further one, and a shrinking resize starts at most one growing resize, after which the rest of
the old array has that room.  Every operation is then described by what it does to the list of
live bins and to the counters.
-/
import Vm32.Hashing.TableStep

namespace Vm32

open LinearProbing List

variable {K V : Type*} {kt : KeyType K} {t : HashTable K V}

/-- The bin an insertion of `k` writes. -/
def pairBin (kt : KeyType K) (k : K) (val : Option V) : HashBin K V :=
  ⟨true, false, kt.hash k, some k, val⟩

/-- The table holds a pair whose key equals `k`. -/
def holdsKey (kt : KeyType K) (t : HashTable K V) (k : K) : Bool :=
  t.live.any fun b => cmpKeys kt b.key (some k)

/-- An insertion of `k` stores into a bin that was never used: `find_key` finds no bin with the
key and the bin of `find_empty` is not a tombstone. -/
def takesFreshBin (kt : KeyType K) (t : HashTable K V) (k : K) : Bool :=
  match findKey kt t (kt.hash k) (some k), findEmpty t (kt.hash k) with
  | some j, some j' => !(t.bin j).inProbe && !(t.bin j').inProbe
  | _, _ => false

lemma holdsKey_eq_false_iff {k : K} :
    holdsKey kt t k = false ↔ ∀ b ∈ t.live, cmpKeys kt b.key (some k) = false := by
  simp [holdsKey]

lemma filter_otherKey_of_not_holds {k : K} (hno : holdsKey kt t k = false) :
    t.live.filter (otherKey kt k) = t.live := by
  rw [List.filter_eq_self]
  intro b hb
  simp [otherKey, holdsKey_eq_false_iff.1 hno b hb]

/-! ### Storing the pair -/

/-- What steps 1 and 2 of an insertion of `k` make of the table. -/
structure Inserted (kt : KeyType K) (t : HashTable K V) (k : K) (val : Option V)
    (t' : HashTable K V) : Prop where
  shape : Shape kt t'
  size : t'.size = t.size
  used : t'.used.toNat = t.used.toNat + (if takesFreshBin kt t k then 1 else 0)
  active : t'.active = if holdsKey kt t k then t.active - 1 else t.active + 1
  live : t'.live ~ pairBin kt k val :: t.live.filter (otherKey kt k)

theorem insertPair_spec (hkt : kt.Lawful) (ht : TableInv kt t) (k : K) (val : Option V) :
    ∃ t', insertPair kt t (kt.hash k) (some k) val = .ok t' ∧ Inserted kt t k val t' := by
  have hused : t.used.toNat < t.size.toNat := ht.used_lt_size
  obtain ⟨j, hj⟩ := findKey_isSome ht.tallied hused (kt.hash k) (some k)
  obtain ⟨j', hj'⟩ := findEmpty_isSome ht.tallied hused (kt.hash k)
  obtain ⟨hjlt, ⟨hact, hin, hsame⟩ | ⟨hin, hno⟩⟩ := findKey_cases hkt ht.toShape hj
  · -- the key is in the table: its bin is overwritten
    have hr : Reaches t.size.toNat (kt.hash k).toNat (fun i => (t.bin i).inProbe) j := by
      rw [← ht.toShape.hashKey_eq hkt (ht.toShape.bin_mem_live hjlt hact) hsame]
      exact ht.reached j hjlt hact
    obtain ⟨hshape, hlive⟩ := ht.toShape.store val hkt hused (Or.inl ⟨hact, hsame⟩) hr
    refine ⟨_, by simp [insertPair, hj, hin], hshape, storeInBin_size, ?_, ?_, hlive⟩
    · rw [storeInBin_used_toNat hused]
      simp [takesFreshBin, hj, hj', hin]
    · have hholds : holdsKey kt t k = true :=
        List.any_eq_true.2 ⟨_, ht.toShape.bin_mem_live hjlt hact, hsame⟩
      simp [storeInBin_active, hact, hholds, nonempty_of_active hact]
  · -- the key is not in the table: the first empty bin takes it
    have hsearch := hj'
    rw [findEmpty_eq ht.tallied] at hsearch
    have hempty : (t.bin j').isEmpty = true := search_spec hsearch
    have hna : isActiveBin (t.bin j') = false := by simp [isActiveBin, hempty]
    have hr : Reaches t.size.toNat (kt.hash k).toNat (fun i => (t.bin i).inProbe) j' := by
      refine reaches_of_search hsearch fun i hi hne => ?_
      by_contra hcon
      have hmem := HashTable.bin_mem (t := t) (j := i) (by rw [ht.bins_length]; exact hi)
      simp [ht.empty_of_not_inProbe _ hmem (by simpa using hcon)] at hne
    obtain ⟨hshape, hlive⟩ := ht.toShape.store val hkt hused (Or.inr ⟨hna, hno⟩) hr
    refine ⟨_, by simp [insertPair, hj, hj', hin], hshape, storeInBin_size, ?_, ?_, hlive⟩
    · rw [storeInBin_used_toNat hused]
      simp only [takesFreshBin, hj, hj', hin]
      cases (t.bin j').inProbe <;> rfl
    · simp [storeInBin_active, hna, holdsKey_eq_false_iff.2 hno, hempty]

lemma insertInternal_of_fits {fuel : ℕ} {hashKey : UInt32} {key : Option K} {val : Option V}
    {t' : HashTable K V} (hpair : insertPair kt t hashKey key val = .ok t')
    (hload : overloaded t' = false) : insertInternal kt fuel t hashKey key val = .ok t' := by
  rw [insertInternal, hpair]
  simp [hload]

lemma insertInternal_of_overloaded {fuel : ℕ} {hashKey : UInt32} {key : Option K}
    {val : Option V} {t' : HashTable K V}
    (hpair : insertPair kt t hashKey key val = .ok t') (hload : overloaded t' = true) :
    insertInternal kt (fuel + 1) t hashKey key val =
      resize (insertInternal kt fuel) t' (t'.size * 2) := by
  rw [insertInternal, hpair]
  simp [hload]

/-! ### Moving bins -/

/-- A table without tombstones whose counters are both the number of its live bins. -/
structure Compact (kt : KeyType K) (t : HashTable K V) : Prop extends TableInv kt t where
  used_live : t.used.toNat = t.live.length
  active_live : t.active.toNat = t.live.length

/-- The bins of an old array that are about to be moved into `t`: those that are not empty are
live, cache their hashes, and hold keys different from each other and from those of `t`. -/
structure Movable (kt : KeyType K) (t : HashTable K V) (bins : List (HashBin K V)) : Prop where
  active : ∀ b ∈ bins, b.isEmpty = false → isActiveBin b = true
  cached : ∀ b ∈ bins.filter isActiveBin, ∃ k, b.key = some k ∧ b.hashKey = kt.hash k
  distinct : (t.live ++ bins.filter isActiveBin).Pairwise
    fun a b => cmpKeys kt a.key b.key = false

lemma isActiveBin_of_isEmpty {b : HashBin K V} (he : b.isEmpty = true) :
    isActiveBin b = false := by
  simp [isActiveBin, he]

/-- A live bin is determined by its key and value. -/
lemma pairBin_eq {b : HashBin K V} {k : K} (ha : isActiveBin b = true) (hk : b.key = some k)
    (hh : b.hashKey = kt.hash k) : pairBin kt k b.val = b := by
  obtain ⟨p, e, h, key, v⟩ := b
  simp_all [isActiveBin, pairBin]

/-- The first live bin of an array is not in the table yet. -/
lemma Movable.not_holds {b : HashBin K V} {bins : List (HashBin K V)} {k : K}
    (hm : Movable kt t (b :: bins)) (ha : isActiveBin b = true) (hk : b.key = some k) :
    holdsKey kt t k = false := by
  rw [holdsKey_eq_false_iff]
  intro c hc
  have := (List.pairwise_append.1 hm.distinct).2.2 c hc b (by simp [ha])
  rwa [hk] at this

/-- Moving one bin leaves the rest movable. -/
lemma Movable.tail (hkt : kt.Lawful) {t' : HashTable K V} {b : HashBin K V}
    {bins : List (HashBin K V)} (hm : Movable kt t (b :: bins)) (ha : isActiveBin b = true)
    (hlive : t'.live ~ b :: t.live) : Movable kt t' bins where
  active c hc := hm.active c (List.mem_cons_of_mem _ hc)
  cached c hc := hm.cached c (by
    rw [List.filter_cons_of_pos ha]
    exact List.mem_cons_of_mem _ hc)
  distinct := by
    refine pairwise_perm hkt ?_ hm.distinct
    rw [List.filter_cons_of_pos ha]
    exact (hlive.append_right _).trans perm_middle.symm

lemma Movable.tail_of_empty {b : HashBin K V} {bins : List (HashBin K V)}
    (hm : Movable kt t (b :: bins)) (he : b.isEmpty = true) : Movable kt t bins where
  active c hc := hm.active c (List.mem_cons_of_mem _ hc)
  cached c hc := hm.cached c (by
    rw [List.filter_cons_of_neg (by simp [isActiveBin_of_isEmpty he])]
    exact hc)
  distinct := by
    have := hm.distinct
    rwa [List.filter_cons_of_neg (by simp [isActiveBin_of_isEmpty he])] at this

/-- Storing a bin that is not in a compact table yet: everything stays counted exactly. -/
lemma insertPair_move (hkt : kt.Lawful) (ht : Compact kt t) {b : HashBin K V}
    {bins : List (HashBin K V)} (hm : Movable kt t (b :: bins)) (ha : isActiveBin b = true) :
    ∃ t', insertPair kt t b.hashKey b.key b.val = .ok t' ∧ Shape kt t' ∧ t'.size = t.size ∧
      t'.used.toNat = t'.live.length ∧ t'.active.toNat = t'.live.length ∧
      t'.live ~ b :: t.live := by
  obtain ⟨k, hk, hh⟩ := hm.cached b (by simp [ha])
  have hno := hm.not_holds ha hk
  obtain ⟨t', hok, hins⟩ := insertPair_spec hkt ht.toTableInv k b.val
  have hlive := hins.live
  rw [filter_otherKey_of_not_holds hno, pairBin_eq ha hk hh] at hlive
  have hlen : t'.live.length = t.live.length + 1 := by simp [hlive.length_eq]
  have hle : t'.used.toNat ≤ t.used.toNat + 1 := by
    rw [hins.used]
    split_ifs <;> omega
  have hge := hins.shape.tallied.live_length_le_used
  have hsize : t.size.toNat < 2 ^ 32 := t.size.toNat_lt
  have hused := ht.used_live
  refine ⟨t', by rw [hk, hh, hok], hins.shape, hins.size, by omega, ?_, hlive⟩
  have hload := ht.used_lt_size
  rw [hins.active, hno, if_neg (by simp), UInt32.toNat_add, ht.active_live, hlen]
  exact Nat.mod_eq_of_lt (by simp; omega)

lemma overloaded_eq_false_iff : overloaded t = false ↔ 2 * t.used.toNat ≤ t.size.toNat := by
  simp [overloaded]

/-- Bins moved into a compact table with room for all of them: no resize happens. -/
theorem moveBins_fits (hkt : kt.Lawful) (fuel : ℕ) (bins : List (HashBin K V)) :
    ∀ t : HashTable K V, Compact kt t → Movable kt t bins →
      2 * (t.live.length + (bins.filter isActiveBin).length) ≤ t.size.toNat →
      ∃ t', moveBins (insertInternal kt fuel) t bins = .ok t' ∧ Compact kt t' ∧
        t'.size = t.size ∧ t'.live ~ t.live ++ bins.filter isActiveBin := by
  induction bins with
  | nil =>
    intro t ht _ _
    exact ⟨t, rfl, ht, rfl, by simp⟩
  | cons b bins ih =>
    intro t ht hm hroom
    cases he : b.isEmpty with
    | true =>
      have hna := isActiveBin_of_isEmpty he
      rw [List.filter_cons_of_neg (by simp [hna])] at hroom ⊢
      obtain ⟨t', hok, hrest⟩ := ih t ht (hm.tail_of_empty he) hroom
      exact ⟨t', by simp [moveBins, he, hok], hrest⟩
    | false =>
      have ha := hm.active b (by simp) he
      rw [List.filter_cons_of_pos ha] at hroom ⊢
      obtain ⟨t₁, hok₁, hshape, hsize, hused, hactive, hlive⟩ := insertPair_move hkt ht hm ha
      have hlen : t₁.live.length = t.live.length + 1 := by simp [hlive.length_eq]
      rw [List.length_cons] at hroom
      -- the room that is asked for covers the bin just taken
      have hload : 2 * t₁.used.toNat ≤ t₁.size.toNat := by rw [hused, hsize]; omega
      have hins : insertInternal kt fuel t b.hashKey b.key b.val = .ok t₁ :=
        insertInternal_of_fits hok₁ (overloaded_eq_false_iff.2 hload)
      obtain ⟨t', hok, hcompact, hsize', hlive'⟩ :=
        ih t₁ ⟨⟨hshape, hload⟩, hused, hactive⟩ (hm.tail hkt ha hlive) (by rw [hsize]; omega)
      refine ⟨t', by simp [moveBins, he, hins, hok], hcompact, hsize'.trans hsize, ?_⟩
      exact hlive'.trans ((hlive.append_right _).trans perm_middle.symm)

/-! ### Resizing -/

lemma clearedTable_live (t : HashTable K V) (m : UInt32) : (clearedTable t m).live = [] := by
  simp [clearedTable, HashTable.live, HashBin.fresh, isActiveBin]

lemma clearedTable_sized (t : HashTable K V) (m : UInt32) : Sized (clearedTable t m) := by
  refine ⟨List.length_replicate, fun b hb _ => ?_⟩
  rw [List.eq_of_mem_replicate hb]
  rfl

lemma clearedTable_tallied (t : HashTable K V) {m : UInt32}
    (hm : ∃ e, 3 ≤ e ∧ m.toNat = 2 ^ e) : Tallied (clearedTable t m) := by
  refine ⟨clearedTable_sized t m, hm, ?_⟩
  simp [clearedTable, HashBin.fresh, List.countP_replicate]

lemma clearedTable_compact (t : HashTable K V) {m : UInt32}
    (hm : ∃ e, 3 ≤ e ∧ m.toNat = 2 ^ e) : Compact kt (clearedTable t m) := by
  have hlive := clearedTable_live t m
  have htally := clearedTable_tallied t hm
  have hzero : (clearedTable t m).used.toNat = (clearedTable t m).live.length := by
    rw [hlive]
    rfl
  refine ⟨⟨⟨htally.bins_length, hm, htally.used_eq, htally.empty_of_not_inProbe, by simp [hlive],
    by simp [hlive], fun j hj ha => ?_⟩, Nat.zero_le _⟩, hzero, hzero⟩
  have hmem : (clearedTable t m).bin j ∈ (clearedTable t m).live :=
    List.mem_filter.2 ⟨HashTable.bin_mem (by rwa [htally.bins_length]), ha⟩
  rw [hlive] at hmem
  cases hmem

/-- The bins of a well-shaped table are movable into a fresh array. -/
lemma Shape.movable (ht : Shape kt t) (m : UInt32) :
    Movable kt (clearedTable t m) t.bins where
  active _ hb he := ht.tallied.active_of_nonempty hb he
  cached := ht.cached
  distinct := by
    rw [clearedTable_live, List.nil_append]
    exact ht.distinct

/-- A resize that makes the table at least twice as large as its contents. -/
theorem resize_fits (hkt : kt.Lawful) (ht : Shape kt t) (fuel : ℕ) {m : UInt32}
    (hm : ∃ e, 3 ≤ e ∧ m.toNat = 2 ^ e) (hroom : 2 * t.live.length ≤ m.toNat) :
    ∃ t', resize (insertInternal kt fuel) t m = .ok t' ∧ Compact kt t' ∧ t'.size = m ∧
      t'.live ~ t.live := by
  obtain ⟨t', hok, hcompact, hsize, hlive⟩ :=
    moveBins_fits hkt fuel t.bins (clearedTable t m) (clearedTable_compact t hm) (ht.movable m)
      (by rw [clearedTable_live]; simpa [HashTable.live, clearedTable] using hroom)
  rw [clearedTable_live, List.nil_append] at hlive
  exact ⟨t', hok, hcompact, hsize, hlive⟩

/-- Twice the largest size does not fit into 32 bits. -/
lemma double_size_of_full {m : UInt32} (hfull : m.toNat = 2 ^ 31) : m * 2 = 0 := by
  rw [← UInt32.toNat_inj, UInt32.toNat_mul, hfull]
  rfl

/-- Twice a power of two that still fits into 32 bits. -/
lemma double_size {m : UInt32} (hm : ∃ e, 3 ≤ e ∧ m.toNat = 2 ^ e)
    (hfit : m.toNat < 2 ^ 31) :
    (m * 2).toNat = 2 * m.toNat ∧ ∃ e, 3 ≤ e ∧ (m * 2).toNat = 2 ^ e := by
  have hmul : (m * 2).toNat = 2 * m.toNat := by
    rw [UInt32.toNat_mul, show (2 : UInt32).toNat = 2 from rfl, Nat.mul_comm,
      Nat.mod_eq_of_lt (by omega)]
  obtain ⟨e, he3, he⟩ := hm
  exact ⟨hmul, e + 1, by omega, by rw [hmul, he, pow_succ]; ring⟩

/-- Bins moved into a compact table that is at least as large as the contents: at most one
growing resize happens on the way. -/
theorem moveBins_shrink (hkt : kt.Lawful) (fuel : ℕ) (bins : List (HashBin K V)) :
    ∀ t : HashTable K V, Compact kt t → Movable kt t bins → t.size.toNat < 2 ^ 31 →
      t.live.length + (bins.filter isActiveBin).length ≤ t.size.toNat →
      ∃ t', moveBins (insertInternal kt (fuel + 1)) t bins = .ok t' ∧ Compact kt t' ∧
        (t'.size = t.size ∨ t'.size = t.size * 2) ∧
        t'.live ~ t.live ++ bins.filter isActiveBin := by
  induction bins with
  | nil =>
    intro t ht _ _ _
    exact ⟨t, rfl, ht, Or.inl rfl, by simp⟩
  | cons b bins ih =>
    intro t ht hm hfit hroom
    cases he : b.isEmpty with
    | true =>
      have hna := isActiveBin_of_isEmpty he
      rw [List.filter_cons_of_neg (by simp [hna])] at hroom ⊢
      obtain ⟨t', hok, hrest⟩ := ih t ht (hm.tail_of_empty he) hfit hroom
      exact ⟨t', by simp [moveBins, he, hok], hrest⟩
    | false =>
      have ha := hm.active b (by simp) he
      rw [List.filter_cons_of_pos ha] at hroom ⊢
      obtain ⟨t₁, hok₁, hshape, hsize, hused, hactive, hlive⟩ := insertPair_move hkt ht hm ha
      have hlen : t₁.live.length = t.live.length + 1 := by simp [hlive.length_eq]
      rw [List.length_cons] at hroom
      have hlive₁ := (hlive.append_right (bins.filter isActiveBin)).trans perm_middle.symm
      cases hload : overloaded t₁ with
      | false =>
        have hins : insertInternal kt (fuel + 1) t b.hashKey b.key b.val = .ok t₁ :=
          insertInternal_of_fits hok₁ hload
        obtain ⟨t', hok, hcompact, hsize', hlive'⟩ :=
          ih t₁ ⟨⟨hshape, overloaded_eq_false_iff.1 hload⟩, hused, hactive⟩
            (hm.tail hkt ha hlive) (by rw [hsize]; exact hfit) (by rw [hsize]; omega)
        rw [hsize] at hsize'
        exact ⟨t', by simp [moveBins, he, hins, hok], hcompact, hsize', hlive'.trans hlive₁⟩
      | true =>
        -- the nested growth: from here on the table has twice the room
        obtain ⟨hdouble, hpow⟩ := double_size hshape.size_pow (by rw [hsize]; exact hfit)
        obtain ⟨t₂, hok₂, hcompact₂, hsize₂, hlive₂⟩ :=
          resize_fits hkt hshape fuel hpow (by rw [hdouble, hsize]; omega)
        have hins : insertInternal kt (fuel + 1) t b.hashKey b.key b.val = .ok t₂ := by
          rw [insertInternal_of_overloaded hok₁ hload, hok₂]
        have hlen₂ : t₂.live.length = t.live.length + 1 := by rw [hlive₂.length_eq, hlen]
        obtain ⟨t', hok, hcompact, hsize', hlive'⟩ :=
          moveBins_fits hkt (fuel + 1) bins t₂ hcompact₂ (hm.tail hkt ha (hlive₂.trans hlive))
            (by rw [hsize₂, hdouble, hsize]; omega)
        refine ⟨t', by simp [moveBins, he, hins, hok], hcompact, Or.inr ?_, ?_⟩
        · rw [hsize', hsize₂, hsize]
        · exact hlive'.trans ((hlive₂.append_right _).trans hlive₁)

/-- A resize that leaves at least as many bins as contents. -/
theorem resize_shrink (hkt : kt.Lawful) (ht : Shape kt t) (fuel : ℕ) {m : UInt32}
    (hm : ∃ e, 3 ≤ e ∧ m.toNat = 2 ^ e) (hfit : m.toNat < 2 ^ 31)
    (hroom : t.live.length ≤ m.toNat) :
    ∃ t', resize (insertInternal kt (fuel + 1)) t m = .ok t' ∧ Compact kt t' ∧
      (t'.size = m ∨ t'.size = m * 2) ∧ t'.live ~ t.live := by
  obtain ⟨t', hok, hcompact, hsize, hlive⟩ :=
    moveBins_shrink hkt fuel t.bins (clearedTable t m) (clearedTable_compact t hm) (ht.movable m)
      hfit (by rw [clearedTable_live]; simpa [HashTable.live, clearedTable] using hroom)
  rw [clearedTable_live, List.nil_append] at hlive
  exact ⟨t', hok, hcompact, hsize, hlive⟩

/-- Half of a power of two that is larger than the minimal size. -/
lemma half_size {m : UInt32} (hm : ∃ e, 3 ≤ e ∧ m.toNat = 2 ^ e) (hmin : 8 < m.toNat) :
    (m / 2).toNat = m.toNat / 2 ∧ ∃ e, 3 ≤ e ∧ (m / 2).toNat = 2 ^ e := by
  have hhalf : (m / 2).toNat = m.toNat / 2 := UInt32.toNat_div _ _
  obtain ⟨e, he3, he⟩ := hm
  have he4 : 4 ≤ e := by
    by_contra hcon
    obtain rfl : e = 3 := by omega
    omega
  refine ⟨hhalf, e - 1, by omega, ?_⟩
  rw [hhalf, he, show e = e - 1 + 1 by omega, pow_succ]
  simp

/-! ### The operations of the interface -/

/-- The insertion of `k` asks for a growth from `2 ^ 31` bins, which overflows `size`. -/
def growthOverflows (kt : KeyType K) (t : HashTable K V) (k : K) : Bool :=
  takesFreshBin kt t (kt.cpy k) && t.size.toNat == 2 ^ 31 && t.used.toNat == 2 ^ 30

lemma otherKey_cpy (hkt : kt.Lawful) (k : K) :
    (otherKey kt (kt.cpy k) : HashBin K V → Bool) = otherKey kt k := by
  funext b
  have hcpy : cmpKeys kt (some (kt.cpy k)) (some k) = true := hkt.cmp_cpy k
  have hiff : cmpKeys kt b.key (some (kt.cpy k)) = true ↔ cmpKeys kt b.key (some k) = true :=
    ⟨fun h => cmpKeys_trans hkt h hcpy,
      fun h => cmpKeys_trans hkt h (cmpKeys_symm hkt hcpy)⟩
  simp [otherKey, Bool.eq_iff_iff.2 hiff]

/-- A load above one half is reached by taking a fresh bin only. -/
lemma Inserted.overloaded_iff (ht : TableInv kt t) {k : K} {val : Option V}
    {t' : HashTable K V} (hins : Inserted kt t k val t') :
    overloaded t' = true ↔
      takesFreshBin kt t k = true ∧ t.size.toNat < 2 * (t.used.toNat + 1) := by
  have hload := ht.load
  rw [overloaded, decide_eq_true_iff, hins.size, hins.used]
  cases takesFreshBin kt t k with
  | false => simpa using hload
  | true => simp

/-- An insertion, unless its growth overflows: either the pair is stored, or it is stored and
the table is rebuilt at twice the size. -/
theorem hashTableInsert_spec (hkt : kt.Lawful) (vt : ValueType V) (ht : TableInv kt t) (k : K)
    (v : Option V) (hfit : growthOverflows kt t k = false) :
    ∃ t', hashTableInsert kt vt t k v = .ok t' ∧ TableInv kt t' ∧
      t'.live ~ pairBin kt (kt.cpy k) (v.map vt.cpy) :: t.live.filter (otherKey kt k) ∧
      (Inserted kt t (kt.cpy k) (v.map vt.cpy) t' ∨
        (takesFreshBin kt t (kt.cpy k) = true ∧ t.size.toNat < 2 * (t.used.toNat + 1) ∧
          t'.size.toNat = 2 * t.size.toNat ∧ Compact kt t')) := by
  obtain ⟨t₁, hok₁, hins⟩ := insertPair_spec hkt ht (kt.cpy k) (v.map vt.cpy)
  rw [hkt.hash_cpy] at hok₁
  have hlive := hins.live
  rw [otherKey_cpy hkt] at hlive
  cases hload : overloaded t₁ with
  | false =>
    refine ⟨t₁, ?_, ⟨hins.shape, overloaded_eq_false_iff.1 hload⟩, hlive, Or.inl hins⟩
    exact insertInternal_of_fits hok₁ hload
  | true =>
    obtain ⟨hfresh, hfull⟩ := (hins.overloaded_iff ht).1 hload
    -- at `2 ^ 31` bins this growth would be the overflowing one
    have hsmall : t.size.toNat < 2 ^ 31 := by
      have hle := ht.tallied.size_le
      have h2 := ht.load
      rcases hle.lt_or_eq with hlt | heq
      · exact hlt
      · simp only [growthOverflows, hfresh, heq, Bool.true_and, beq_self_eq_true,
          beq_eq_false_iff_ne] at hfit
        omega
    obtain ⟨hdouble, hpow⟩ := double_size hins.shape.size_pow (by rw [hins.size]; exact hsmall)
    rw [hins.size] at hdouble
    have hlen : t₁.live.length ≤ t.size.toNat := by
      have h1 := hins.shape.tallied.live_length_le_used
      have h2 := ht.load
      have h8 := ht.tallied.eight_le_size
      rw [hins.used, if_pos hfresh] at h1
      omega
    obtain ⟨t', hok, hcompact, hsize, hlive'⟩ :=
      resize_fits hkt hins.shape 1 hpow (by rw [hins.size, hdouble]; omega)
    refine ⟨t', ?_, hcompact.toTableInv, hlive'.trans hlive, Or.inr ⟨hfresh, hfull, ?_, hcompact⟩⟩
    · rw [hashTableInsert, resizeDepth, insertInternal_of_overloaded hok₁ hload, hok]
    · rw [hsize, hins.size, hdouble]

/-- No bin is found in an array of size zero. -/
lemma insertPair_zero (kt : KeyType K) (hsize : t.size = 0) (hashKey : UInt32) (key : Option K)
    (val : Option V) : insertPair kt t hashKey key val = .error .assertFailed := by
  have hfind : findKey kt t hashKey key = none := by simp [findKey, hsize, probeLoop]
  rw [insertPair, hfind]

/-- Nothing can be moved into an array of size zero. -/
lemma moveBins_zero (fuel : ℕ) (hsize : t.size = 0) {bins : List (HashBin K V)}
    (hne : ∃ b ∈ bins, b.isEmpty = false) :
    moveBins (insertInternal kt fuel) t bins = .error .assertFailed := by
  induction bins with
  | nil => simp at hne
  | cons b bins ih =>
    cases he : b.isEmpty with
    | true =>
      obtain ⟨c, hc, hce⟩ := hne
      rcases List.mem_cons.1 hc with rfl | hc
      · simp [he] at hce
      · simp [moveBins, he, ih ⟨c, hc, hce⟩]
    | false => simp [moveBins, he, insertInternal, insertPair_zero kt hsize]

/-- An insertion whose growth overflows ends in the `assert(false)` of `find_key`: the new size
is `2 ^ 31 * 2 = 0`. -/
theorem hashTableInsert_overflow (hkt : kt.Lawful) (vt : ValueType V) (ht : TableInv kt t)
    (k : K) (v : Option V) (hover : growthOverflows kt t k = true) :
    hashTableInsert kt vt t k v = .error .assertFailed := by
  simp only [growthOverflows, Bool.and_eq_true, beq_iff_eq] at hover
  obtain ⟨⟨hfresh, hsize⟩, hused⟩ := hover
  obtain ⟨t₁, hok₁, hins⟩ := insertPair_spec hkt ht (kt.cpy k) (v.map vt.cpy)
  rw [hkt.hash_cpy] at hok₁
  have hload : overloaded t₁ = true := (hins.overloaded_iff ht).2 ⟨hfresh, by omega⟩
  have hzero : t₁.size * 2 = 0 := double_size_of_full (by rw [hins.size, hsize])
  rw [hashTableInsert, resizeDepth, insertInternal_of_overloaded hok₁ hload, hzero]
  refine moveBins_zero 1 rfl ⟨pairBin kt (kt.cpy k) (v.map vt.cpy), ?_, rfl⟩
  have hmem := hins.live.mem_iff.2 List.mem_cons_self
  exact (List.mem_filter.1 hmem).1

/-- A deletion always succeeds: either the bin of the key is freed, or it is freed and the table
is rebuilt. -/
theorem hashTableDelete_spec (hkt : kt.Lawful) (ht : TableInv kt t) (k : K) :
    ∃ t', hashTableDelete kt t k = .ok t' ∧ TableInv kt t' ∧
      t'.live ~ t.live.filter (otherKey kt k) ∧
      ((t'.size = t.size ∧ t'.used = t.used ∧
          t'.active = if holdsKey kt t k then t.active - 1 else t.active) ∨
        (t'.size.toNat ≤ t.size.toNat ∧ Compact kt t')) := by
  obtain ⟨j, hj⟩ :=
    findKey_isSome ht.tallied ht.used_lt_size (kt.hash k) (some k)
  obtain ⟨hjlt, hcases⟩ := findKey_cases hkt ht.toShape hj
  have hbin : IsTarget kt t k j := by
    rcases hcases with ⟨ha, -, hk⟩ | ⟨hin, hno⟩
    · exact Or.inl ⟨ha, hk⟩
    · exact Or.inr ⟨by simp [isActiveBin, hin], hno⟩
  obtain ⟨hshape, hlive⟩ := ht.toShape.free hkt hjlt hbin
  have hactive : (freeBin t j).active = if holdsKey kt t k then t.active - 1 else t.active := by
    rw [freeBin_active]
    rcases hbin with ⟨ha, hk⟩ | ⟨hna, hno⟩
    · have hholds : holdsKey kt t k = true :=
        List.any_eq_true.2 ⟨_, ht.toShape.bin_mem_live hjlt ha, hk⟩
      rw [if_pos ha, if_pos hholds]
    · rw [hna, holdsKey_eq_false_iff.2 hno]
  cases hunder : underloaded (freeBin t j) with
  | false =>
    refine ⟨freeBin t j, by simp [hashTableDelete, hj, hunder], ⟨hshape, ?_⟩, hlive,
      Or.inl ⟨freeBin_size, freeBin_used, hactive⟩⟩
    rw [freeBin_size, freeBin_used]
    exact ht.load
  | true =>
    have hunder' := hunder
    simp only [underloaded, Bool.and_eq_true, decide_eq_true_iff, freeBin_size] at hunder'
    obtain ⟨hhalf, hpow⟩ := half_size ht.size_pow (UInt32.lt_iff_toNat_lt.1 hunder'.1)
    have hle := ht.tallied.size_le
    -- half of the bins are enough for the live ones, but they may fill more than half of these
    have hroom : (freeBin t j).live.length ≤ t.size.toNat / 2 := by
      have h1 := ht.tallied.live_length_le_used
      have h2 := ht.load
      have h3 := List.length_filter_le (otherKey kt k) t.live
      rw [hlive.length_eq]
      omega
    obtain ⟨t', hok, hcompact, hsize, hlive'⟩ :=
      resize_shrink hkt hshape 1 hpow (by omega) (by rw [hhalf]; exact hroom)
    refine ⟨t', ?_, hcompact.toTableInv, hlive'.trans hlive, Or.inr ⟨?_, hcompact⟩⟩
    · simp only [hashTableDelete, hj, hunder, if_true, freeBin_size]
      exact hok
    · rcases hsize with hsize | hsize
      · rw [hsize]
        omega
      · rw [hsize, (double_size hpow (by omega)).1]
        omega

end Vm32
