/-
# When the invariant of the hash table holds

Sizes are 32 bits wide and double, so the one thing that can go wrong is the growth from
`2 ^ 31` bins: the new size is `0`, and the `assert(false)` of `find_key` is reached while the
first pair is moved.  Up to that step every operation keeps the invariant and both searches
return.
-/
import Vm32.Hashing.TableCount

namespace Vm32

open LabelledRun List

variable {K V : Type*} {kt : KeyType K} {vt : ValueType V} {t t' : HashTable K V}

/-! ### The searches of a run -/

/-- Every operation of the run returns a table that satisfies the invariant and on which both
searches return a bin, whatever they look for. -/
def Sound (kt : KeyType K) (vt : ValueType V) (ops : List (MapOp K V)) : Prop :=
  ∀ pre, pre <+: ops → ∃ t, tableRun kt vt pre = .ok t ∧ TableInv kt t ∧
    (∀ k, ∃ j, findKey kt t (kt.hash k) (some k) = some j) ∧
    ∀ h, ∃ j, findEmpty t h = some j

/-- No operation of the run asks for a growth from `2 ^ 31` bins. -/
def NoOverflow (kt : KeyType K) (vt : ValueType V) (ops : List (MapOp K V)) : Prop :=
  ∀ pre op, pre ++ [op] <+: ops → ∀ t, tableRun kt vt pre = .ok t → opOverflows kt t op = false

/-- Under the invariant both searches return. -/
lemma TableInv.searches_return (ht : TableInv kt t) :
    (∀ k, ∃ j, findKey kt t (kt.hash k) (some k) = some j) ∧
      ∀ h, ∃ j, findEmpty t h = some j :=
  ⟨fun k => findKey_isSome ht.tallied ht.used_lt_size (kt.hash k) (some k),
    fun hashKey => findEmpty_isSome ht.tallied ht.used_lt_size hashKey⟩

/-- A run without an overflowing growth returns. -/
theorem tableRun_ok_of_noOverflow (hkt : kt.Lawful) (ops : List (MapOp K V))
    (hno : NoOverflow kt vt ops) : ∃ t, tableRun kt vt ops = .ok t := by
  induction ops using List.reverseRecOn with
  | nil => exact ⟨_, rfl⟩
  | append_singleton ops op ih =>
    obtain ⟨t, hok⟩ := ih fun pre op' hpre =>
      hno pre op' (hpre.trans (List.prefix_append _ _))
    have hfit := hno ops op (List.prefix_refl _) t hok
    obtain ⟨t', hok', -⟩ := tableStep_spec hkt vt (tableRun_inv hkt ops t hok) hfit
    exact ⟨t', by rw [tableRun_snoc, hok, hok']⟩

/-- The invariant holds in every state of a run, and both searches return, exactly if no
growth of the run overflows. -/
theorem sound_iff_noOverflow (hkt : kt.Lawful) (ops : List (MapOp K V)) :
    Sound kt vt ops ↔ NoOverflow kt vt ops := by
  constructor
  · intro hsound pre op hpre t hok
    obtain ⟨t', hok', -⟩ := hsound _ hpre
    rw [tableRun_snoc, hok] at hok'
    exact opOverflows_of_ok hkt (tableRun_inv hkt pre t hok) hok'
  · intro hno pre hpre
    obtain ⟨t, hok⟩ := tableRun_ok_of_noOverflow hkt pre fun pre' op hpre' =>
      hno pre' op (hpre'.trans hpre)
    have hinv := tableRun_inv hkt pre t hok
    exact ⟨t, hok, hinv, hinv.searches_return⟩

/-- Overwriting, deleting and inserting again under CRC-32. -/
theorem sound_iff_noOverflow_uint32 :
    Sound uint32KeyType (ptrValueType ℕ) [.insert 1 10, .insert 1 11, .delete 1, .insert 2 20] ↔
      NoOverflow uint32KeyType (ptrValueType ℕ)
        [.insert 1 10, .insert 1 11, .delete 1, .insert 2 20] :=
  sound_iff_noOverflow uint32KeyType_lawful _

/-! ### The run that overflows -/

/-- Without tombstones, a key that is not there takes a bin that was never used. -/
lemma Compact.takesFreshBin (hkt : kt.Lawful) (ht : Compact kt t) {k : K}
    (hno : holdsKey kt t k = false) : takesFreshBin kt t k = true := by
  obtain ⟨j, hj⟩ :=
    findKey_isSome ht.tallied ht.used_lt_size (kt.hash k) (some k)
  obtain ⟨j', hj'⟩ := findEmpty_isSome ht.tallied ht.used_lt_size (kt.hash k)
  have hin : (t.bin j).inProbe = false := by
    obtain ⟨hjlt, ⟨ha, -, hk⟩ | ⟨hin, -⟩⟩ := findKey_cases hkt ht.toShape hj
    · simp [holdsKey_eq_false_iff.1 hno _ (ht.toShape.bin_mem_live hjlt ha)] at hk
    · exact hin
  have hin' : (t.bin j').inProbe = false := by
    have hsearch := hj'
    rw [findEmpty_eq ht.tallied] at hsearch
    have hempty : (t.bin j').isEmpty = true := LinearProbing.search_spec hsearch
    have hmem : t.bin j' ∈ t.bins :=
      HashTable.bin_mem (by rw [ht.bins_length]; exact LinearProbing.search_lt hsearch)
    -- as many bins are in probe as are live, so every bin in probe is live
    have hsub : t.live <+ t.bins.filter (·.inProbe) :=
      List.monotone_filter_right _ fun _ => inProbe_of_active
    have heq : t.live = t.bins.filter (·.inProbe) := hsub.eq_of_length (by
      rw [← List.countP_eq_length_filter, ← ht.used_eq, ht.used_live])
    by_contra hcon
    have hlive : t.bin j' ∈ t.live := by
      rw [heq]
      exact List.mem_filter.2 ⟨hmem, by simpa using hcon⟩
    simp [HashTable.live, isActiveBin, hempty] at hlive
  simp [Vm32.takesFreshBin, hj, hj', hin, hin']

/-- Inserting a key that is not there into a table without tombstones. -/
lemma Compact.insert (hkt : kt.Lawful) (vt : ValueType V) (ht : Compact kt t) {k : K}
    (v : Option V) (hno : holdsKey kt t (kt.cpy k) = false) (hfit : t.used.toNat < 2 ^ 30) :
    ∃ t', hashTableInsert kt vt t k v = .ok t' ∧ Compact kt t' ∧
      t'.used.toNat = t.used.toNat + 1 := by
  have hgrow : growthOverflows kt t k = false := by
    rw [growthOverflows, beq_eq_false_iff_ne.2 hfit.ne, Bool.and_false]
  obtain ⟨t', hok, hinv, hlive, hcase⟩ := hashTableInsert_spec hkt vt ht.toTableInv k v hgrow
  have hlen : t'.live.length = t.used.toNat + 1 := by
    rw [← otherKey_cpy hkt] at hlive
    rw [length_live_insert hkt ht.toShape hlive, hno, if_neg Bool.false_ne_true, ht.used_live]
  rcases hcase with hins | ⟨-, -, -, hcompact⟩
  · have hused : t'.used.toNat = t.used.toNat + 1 := by
      rw [hins.used, if_pos (ht.takesFreshBin hkt hno)]
    have hc : Counted t' := Counted.insert hkt ht.toTableInv ht.active_live hno hok
    exact ⟨t', hok, ⟨hinv, hused.trans hlen.symm, hc⟩, hused⟩
  · exact ⟨t', hok, hcompact, by rw [hcompact.used_live, hlen]⟩

/-- The insertion of the keys `0, …, n - 1`, in order. -/
def distinctInserts (n : ℕ) : List (MapOp UInt32 ℕ) :=
  (List.range n).map fun i => .insert (UInt32.ofNat i) i

lemma distinctInserts_succ (n : ℕ) :
    distinctInserts (n + 1) = distinctInserts n ++ [.insert (UInt32.ofNat n) n] := by
  simp [distinctInserts, List.range_succ]

/-- Later keys are not bound yet. -/
lemma bound_distinctInserts {n m : ℕ} (hnm : n ≤ m) (hm : m < 2 ^ 32) :
    MapOp.bound (distinctInserts n) (UInt32.ofNat m) = none := by
  induction n with
  | zero => rfl
  | succ n ih =>
    have hne : UInt32.ofNat n ≠ UInt32.ofNat m := fun heq => by
      have := congrArg UInt32.toNat heq
      rw [UInt32.toNat_ofNat_of_lt' (by rw [UInt32.size]; omega),
        UInt32.toNat_ofNat_of_lt' (by rw [UInt32.size]; omega)] at this
      omega
    rw [distinctInserts_succ, MapOp.bound_snoc, MapOp.key_insert, if_neg hne, ih (by omega)]

/-- The table after up to `2 ^ 30` insertions of different keys. -/
lemma tableRun_distinctInserts {n : ℕ} (hn : n ≤ 2 ^ 30) :
    ∃ t, tableRun uint32KeyType (ptrValueType ℕ) (distinctInserts n) = .ok t ∧
      Compact uint32KeyType t ∧ t.used.toNat = n := by
  induction n with
  | zero => exact ⟨_, rfl, hashTableCreate_compact, rfl⟩
  | succ n ih =>
    obtain ⟨t, hok, hcompact, hused⟩ := ih (by omega)
    have hno : holdsKey uint32KeyType t (UInt32.ofNat n) = false := by
      rw [holdsKey_eq_bound (fun _ _ => beq_iff_eq) (fun _ => rfl) _ t hok,
        bound_distinctInserts le_rfl (by omega), Option.isSome_none]
    obtain ⟨t', hok', hcompact', hused'⟩ :=
      hcompact.insert uint32KeyType_lawful (ptrValueType ℕ) (some n) hno (by omega)
    refine ⟨t', ?_, hcompact', by omega⟩
    rw [distinctInserts_succ, tableRun_snoc, hok]
    exact hok'

/-- The insertion of `2 ^ 30 + 1` different keys does not return: the last one grows the table
to size `0`. -/
theorem not_sound_distinctInserts :
    tableRun uint32KeyType (ptrValueType ℕ) (distinctInserts (2 ^ 30 + 1)) =
        .error .assertFailed ∧
      ¬ Sound uint32KeyType (ptrValueType ℕ) (distinctInserts (2 ^ 30 + 1)) := by
  obtain ⟨t, hok, hcompact, hused⟩ := tableRun_distinctInserts (n := 2 ^ 30) le_rfl
  have hno : holdsKey uint32KeyType t (UInt32.ofNat (2 ^ 30)) = false := by
    rw [holdsKey_eq_bound (fun _ _ => beq_iff_eq) (fun _ => rfl) _ t hok,
      bound_distinctInserts le_rfl (by norm_num), Option.isSome_none]
  have hsize : t.size.toNat = 2 ^ 31 := by
    have hle := hcompact.tallied.size_le
    have hload := hcompact.load
    omega
  have hover : growthOverflows uint32KeyType t (UInt32.ofNat (2 ^ 30)) = true := by
    rw [growthOverflows, hsize, hused]
    simp only [beq_self_eq_true, Bool.and_true]
    exact hcompact.takesFreshBin uint32KeyType_lawful hno
  have hrun : tableRun uint32KeyType (ptrValueType ℕ) (distinctInserts (2 ^ 30 + 1)) =
      .error .assertFailed := by
    rw [distinctInserts_succ, tableRun_snoc, hok]
    exact hashTableInsert_overflow uint32KeyType_lawful _ hcompact.toTableInv _ _ hover
  refine ⟨hrun, fun hsound => ?_⟩
  obtain ⟨t', hok', -⟩ := hsound _ (List.prefix_refl _)
  rw [hrun] at hok'
  cases hok'

end Vm32
