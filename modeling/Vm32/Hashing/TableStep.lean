/-
# Storing and freeing

The two writes to the bin array, `store_in_bin` and `free_bin`, keep the table well shaped, and
what they do to its contents is said by one permutation: the live bins afterwards are those with
another key, together with the stored one.  The first two steps of an insertion and the first
step of a deletion follow.
-/
import Vm32.Hashing.TableInv

namespace Vm32

open LinearProbing List

variable {K V : Type*} {kt : KeyType K} {t t' : HashTable K V}

/-- The bin holds a key other than `k`. -/
def otherKey (kt : KeyType K) (k : K) (b : HashBin K V) : Bool := !cmpKeys kt b.key (some k)

/-- The live bins after bin `j` was overwritten by `b`, when `j` was the only live bin that
could fail `keep`. -/
lemma live_set {j : ℕ} {b : HashBin K V} {keep : HashBin K V → Bool}
    (ht' : t'.bins = t.bins.set j b) (hj : j < t.bins.length)
    (hown : isActiveBin (t.bin j) = true → keep (t.bin j) = false)
    (hothers : ∀ i < t.bins.length, i ≠ j → isActiveBin (t.bin i) = true →
      keep (t.bin i) = true) :
    t'.live ~ (if isActiveBin b then [b] else []) ++ t.live.filter keep := by
  -- both lists are compared with the array without bin `j`
  have hnew : t'.live ~ (b :: t.bins.eraseIdx j).filter isActiveBin := by
    rw [HashTable.live, ht']
    exact (List.set_perm_cons_eraseIdx hj b).filter _
  have hold : t.live.filter keep ~ (t.bins.eraseIdx j).filter isActiveBin := by
    have hperm := ((List.getElem_cons_eraseIdx_perm hj).symm.filter isActiveBin).filter keep
    refine hperm.trans (Perm.of_eq ?_)
    have hhead : (isActiveBin t.bins[j] && keep t.bins[j]) = false := by
      rw [← HashTable.bin_eq_getElem hj]
      cases ha : isActiveBin (t.bin j) with
      | false => rfl
      | true => simp [hown ha]
    rw [List.filter_filter, List.filter_cons_of_neg (by simpa [Bool.and_comm] using hhead)]
    refine List.filter_congr fun c hc => ?_
    obtain ⟨i, hi, hij, rfl⟩ := List.mem_eraseIdx_iff_getElem.1 hc
    cases ha : isActiveBin t.bins[i] with
    | false => simp
    | true =>
      have := hothers i hi hij (by rw [HashTable.bin_eq_getElem hi, ha])
      rw [HashTable.bin_eq_getElem hi] at this
      simp [this]
  refine hnew.trans ?_
  rw [List.filter_cons]
  split_ifs with hb
  · exact (hold.symm.cons b)
  · exact hold.symm

/-- Bin `j` is the live bin of key `k`, or it is not live and there is no live bin of `k`. -/
def IsTarget (kt : KeyType K) (t : HashTable K V) (k : K) (j : ℕ) : Prop :=
  (isActiveBin (t.bin j) = true ∧ cmpKeys kt (t.bin j).key (some k) = true) ∨
    (isActiveBin (t.bin j) = false ∧ ∀ c ∈ t.live, cmpKeys kt c.key (some k) = false)

/-- The same for the bins of a well-shaped table, when `j` is where key `k` is or would be. -/
lemma Shape.live_set (hkt : kt.Lawful) (ht : Shape kt t) {j : ℕ} {b : HashBin K V} {k : K}
    (ht' : t'.bins = t.bins.set j b) (hj : j < t.size.toNat)
    (hbin : IsTarget kt t k j) :
    t'.live ~ (if isActiveBin b then [b] else []) ++ t.live.filter (otherKey kt k) := by
  refine Vm32.live_set ht' (by rwa [ht.bins_length]) (fun ha => ?_) fun i hi hij ha => ?_
  · rcases hbin with ⟨-, hk⟩ | ⟨hna, -⟩
    · simp [otherKey, hk]
    · simp [hna] at ha
  · rw [ht.bins_length] at hi
    rcases hbin with ⟨haj, hk⟩ | ⟨-, hno⟩
    · by_contra hcon
      simp only [otherKey, Bool.not_eq_true', Bool.not_eq_false] at hcon
      exact hij (ht.index_unique hkt hi hj ha haj
        (cmpKeys_trans hkt hcon (cmpKeys_symm hkt hk)))
    · simp [otherKey, hno _ (ht.bin_mem_live hi ha)]

/-- Adding a bin for `k` to bins with other keys keeps the keys different. -/
lemma pairwise_cons_other (hkt : kt.Lawful) {k : K} {b : HashBin K V}
    {l : List (HashBin K V)} (hb : b.key = some k)
    (hl : l.Pairwise fun a c => cmpKeys kt a.key c.key = false) :
    (b :: l.filter (otherKey kt k)).Pairwise fun a c => cmpKeys kt a.key c.key = false := by
  refine List.pairwise_cons.2 ⟨fun c hc => ?_, hl.filter _⟩
  by_contra hcon
  have hother := (List.mem_filter.1 hc).2
  rw [hb] at hcon
  simp [otherKey, cmpKeys_symm hkt (by simpa using hcon)] at hother

lemma pairwise_perm (hkt : kt.Lawful) {l l' : List (HashBin K V)} (hp : l' ~ l)
    (hl : l.Pairwise fun a c => cmpKeys kt a.key c.key = false) :
    l'.Pairwise fun a c => cmpKeys kt a.key c.key = false := by
  refine (hp.pairwise_iff fun {x y} hxy => ?_).2 hl
  by_contra hcon
  simp [cmpKeys_symm hkt (by simpa using hcon)] at hxy

lemma freeBin_active {j : ℕ} :
    (freeBin t j).active = if isActiveBin (t.bin j) then t.active - 1 else t.active := by
  simp only [freeBin]
  split_ifs <;> rfl

/-! ### `store_in_bin` -/

section Store

variable {j : ℕ} {hashKey : UInt32} {key : Option K} {val : Option V}

@[simp] lemma storeInBin_bins (t : HashTable K V) (j : ℕ) (hashKey : UInt32) (key : Option K)
    (val : Option V) :
    (storeInBin t j hashKey key val).bins = t.bins.set j ⟨true, false, hashKey, key, val⟩ := by
  simp only [storeInBin, freeBin]
  split_ifs <;> simp

@[simp] lemma storeInBin_size : (storeInBin t j hashKey key val).size = t.size := by
  simp only [storeInBin, freeBin]
  split_ifs <;> rfl

lemma storeInBin_used :
    (storeInBin t j hashKey key val).used = t.used + (if (t.bin j).inProbe then 0 else 1) := by
  simp only [storeInBin, freeBin]
  split_ifs <;> rfl

/-- The count of bins in probe does not overflow. -/
lemma storeInBin_used_toNat (hused : t.used.toNat < t.size.toNat) :
    (storeInBin t j hashKey key val).used.toNat =
      t.used.toNat + (if (t.bin j).inProbe then 0 else 1) := by
  have hlt : t.size.toNat < 2 ^ 32 := t.size.toNat_lt
  rw [storeInBin_used, UInt32.toNat_add]
  split_ifs
  · exact Nat.mod_eq_of_lt (by simp; omega)
  · exact Nat.mod_eq_of_lt (by simp; omega)

lemma Sized.storeInBin (h : Sized t) : Sized (storeInBin t j hashKey key val) := by
  refine ⟨by rw [storeInBin_bins, List.length_set, storeInBin_size, h.bins_length],
    fun b hb hp => ?_⟩
  rw [storeInBin_bins] at hb
  rcases List.mem_or_eq_of_mem_set hb with hb | rfl
  · exact h.empty_of_not_inProbe b hb hp
  · cases hp

/-- Storing a pair keeps the count of bins in probe. -/
lemma Tallied.storeInBin (ht : Tallied t) (hused : t.used.toNat < t.size.toNat)
    (hj : j < t.size.toNat) : Tallied (storeInBin t j hashKey key val) := by
  have hlen : j < t.bins.length := by rwa [ht.bins_length]
  refine ⟨ht.toSized.storeInBin, by simpa using ht.size_pow, ?_⟩
  rw [storeInBin_used_toNat hused, ht.used_eq, storeInBin_bins, List.countP_set hlen,
    HashTable.bin_eq_getElem hlen]
  have hle : (if t.bins[j].inProbe = true then 1 else 0) ≤ t.bins.countP (·.inProbe) := by
    split_ifs with hp
    · exact List.countP_pos_iff.2 ⟨_, List.getElem_mem hlen, hp⟩
    · exact Nat.zero_le _
  simp only [if_true]
  split_ifs at hle ⊢ <;> omega

/-- The count of live bins after a pair was stored: one is added for an empty target, one is
taken away for a live target, which is freed on the way. -/
lemma storeInBin_active :
    (storeInBin t j hashKey key val).active =
      if isActiveBin (t.bin j) then t.active + (if (t.bin j).isEmpty then 1 else 0) - 1
      else t.active + (if (t.bin j).isEmpty then 1 else 0) := by
  simp only [storeInBin, freeBin_active]
  rfl

/-- Storing a pair keeps the table well shaped, in a bin that is reached from the home slot of
the key and is either the live bin of the key or an empty bin when there is none. -/
theorem Shape.store (val : Option V) (hkt : kt.Lawful) (ht : Shape kt t) {k : K}
    (hused : t.used.toNat < t.size.toNat)
    (hbin : IsTarget kt t k j)
    (hr : Reaches t.size.toNat (kt.hash k).toNat (fun i => (t.bin i).inProbe) j) :
    Shape kt (storeInBin t j (kt.hash k) (some k) val) ∧
      (storeInBin t j (kt.hash k) (some k) val).live ~
        ⟨true, false, kt.hash k, some k, val⟩ :: t.live.filter (otherKey kt k) := by
  have hj : j < t.bins.length := by rw [ht.bins_length]; exact hr.lt
  have hlive := ht.live_set hkt
    (storeInBin_bins t j (kt.hash k) (some k) val)
    hr.lt hbin
  simp only [isActiveBin, Bool.not_false, Bool.and_self, if_true, List.singleton_append]
    at hlive
  have hbin' := fun i => HashTable.bin_set (i := i)
    (storeInBin_bins t j (kt.hash k) (some k) val) hj
  -- no bin leaves a probe sequence
  have hprobe : ∀ i < t.size.toNat, (t.bin i).inProbe = true →
      ((storeInBin t j (kt.hash k) (some k) val).bin i).inProbe = true := by
    intro i _ hp
    rw [hbin' i]
    split_ifs
    · rfl
    · exact hp
  have htally : Tallied (storeInBin t j (kt.hash k) (some k) val) :=
    ht.tallied.storeInBin hused hr.lt
  refine ⟨?_, hlive⟩
  constructor
  case bins_length => exact htally.bins_length
  case size_pow => exact htally.size_pow
  case used_eq => exact htally.used_eq
  case empty_of_not_inProbe => exact htally.empty_of_not_inProbe
  case cached =>
    intro b hb
    rcases List.mem_cons.1 (hlive.mem_iff.1 hb) with rfl | hb
    · exact ⟨k, rfl, rfl⟩
    · exact ht.cached b (List.mem_filter.1 hb).1
  case distinct => exact pairwise_perm hkt hlive (pairwise_cons_other hkt rfl ht.distinct)
  case reached =>
    intro i hi ha
    rw [storeInBin_size] at hi ⊢
    rw [hbin' i] at ha ⊢
    split_ifs at ha ⊢ with hij
    · subst hij
      exact hr.mono hprobe
    · exact (ht.reached i hi ha).mono hprobe

end Store

/-! ### `free_bin` -/

section Free

variable {j : ℕ}

@[simp] lemma freeBin_size : (freeBin t j).size = t.size := by
  simp only [freeBin]
  split_ifs <;> rfl

@[simp] lemma freeBin_used : (freeBin t j).used = t.used := by
  simp only [freeBin]
  split_ifs <;> rfl

lemma freeBin_of_not_active (hj : isActiveBin (t.bin j) = false) : freeBin t j = t := by
  simp [freeBin, hj]

lemma freeBin_bins (ha : isActiveBin (t.bin j) = true) :
    (freeBin t j).bins = t.bins.set j { t.bin j with isEmpty := true } := by
  simp [freeBin, ha]

lemma Sized.freeBin (h : Sized t) (j : ℕ) : Sized (freeBin t j) := by
  cases ha : isActiveBin (t.bin j) with
  | false => rwa [freeBin_of_not_active ha]
  | true =>
    refine ⟨by rw [freeBin_bins ha, List.length_set, freeBin_size, h.bins_length],
      fun b hb hp => ?_⟩
    rw [freeBin_bins ha] at hb
    rcases List.mem_or_eq_of_mem_set hb with hb | rfl
    · exact h.empty_of_not_inProbe b hb hp
    · rfl

/-- A freed bin stays in probe. -/
lemma Tallied.freeBin (ht : Tallied t) (j : ℕ) : Tallied (freeBin t j) := by
  refine ⟨ht.toSized.freeBin j, by simpa using ht.size_pow, ?_⟩
  cases ha : isActiveBin (t.bin j) with
  | false => rw [freeBin_of_not_active ha, ht.used_eq]
  | true =>
    have hlen : j < t.bins.length := HashTable.active_lt ha
    have hin : (t.bin j).inProbe = true := inProbe_of_active ha
    have hpos : 0 < t.bins.countP (·.inProbe) :=
      List.countP_pos_iff.2 ⟨_, HashTable.bin_mem hlen, hin⟩
    rw [freeBin_used, ht.used_eq, freeBin_bins ha, List.countP_set hlen,
      ← HashTable.bin_eq_getElem hlen, hin]
    simp
    omega

/-- Freeing the bin of `k`, or a bin that is not live when there is none, keeps the table well
shaped and removes `k`. -/
theorem Shape.free (hkt : kt.Lawful) (ht : Shape kt t) {k : K} (hj : j < t.size.toNat)
    (hbin : IsTarget kt t k j) :
    Shape kt (freeBin t j) ∧ (freeBin t j).live ~ t.live.filter (otherKey kt k) := by
  cases ha : isActiveBin (t.bin j) with
  | false =>
    rw [freeBin_of_not_active ha]
    have hno : ∀ c ∈ t.live, cmpKeys kt c.key (some k) = false := by
      rcases hbin with ⟨ha', -⟩ | ⟨-, hno⟩
      · simp [ha] at ha'
      · exact hno
    refine ⟨ht, Perm.of_eq (List.filter_eq_self.2 fun c hc => ?_).symm⟩
    simp [otherKey, hno c hc]
  | true =>
    have hlen : j < t.bins.length := by rwa [ht.bins_length]
    have hlive := ht.live_set hkt (freeBin_bins ha) hj hbin
    simp only [isActiveBin, Bool.not_true, Bool.and_false, Bool.false_eq_true, if_false,
      List.nil_append] at hlive
    have hbin' := fun i => HashTable.bin_set (i := i) (freeBin_bins ha) hlen
    -- the freed bin becomes a tombstone: it stays in the probe sequences through it
    have hprobe : ∀ i, ((freeBin t j).bin i).inProbe = (t.bin i).inProbe := by
      intro i
      rw [hbin' i]
      split_ifs with hij
      · rw [hij]
      · rfl
    have htally := ht.tallied.freeBin j
    refine ⟨?_, hlive⟩
    constructor
    case bins_length => exact htally.bins_length
    case size_pow => exact htally.size_pow
    case used_eq => exact htally.used_eq
    case empty_of_not_inProbe => exact htally.empty_of_not_inProbe
    case cached =>
      intro b hb
      exact ht.cached b (List.mem_filter.1 (hlive.mem_iff.1 hb)).1
    case distinct => exact pairwise_perm hkt hlive (ht.distinct.filter _)
    case reached =>
      intro i hi hai
      rw [freeBin_size] at hi ⊢
      rw [hbin' i] at hai ⊢
      simp only [hprobe]
      split_ifs at hai ⊢ with hij
      · simp [isActiveBin] at hai
      · exact ht.reached i hi hai

end Free

end Vm32
