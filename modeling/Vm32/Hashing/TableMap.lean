/-
# The hash table is a finite map

The lookup of a key depends on the live bins only, so the descriptions of the operations turn
into the equations of a map.  Every run of insertions and deletions from an empty table then
agrees with the map that the log of the operations describes.
-/
import Vm32.Lib.BindingLog
import Vm32.Lib.Runs
import Vm32.Hashing.TableOps

namespace Vm32

open LabelledRun List

variable {K V : Type*} {kt : KeyType K} {vt : ValueType V} {t t' : HashTable K V}

/-! ### Lookups -/

/-- A lookup returns the value of the live bin with the key. -/
lemma hashTableLookup_of_live (hkt : kt.Lawful) (ht : Shape kt t) {b : HashBin K V} {k : K}
    (hb : b ∈ t.live) (hk : cmpKeys kt b.key (some k) = true) :
    hashTableLookup kt t k = b.val := by
  obtain ⟨hbins, ha⟩ := List.mem_filter.1 hb
  obtain ⟨j, hj, rfl⟩ := ht.tallied.exists_index hbins
  have hin : (t.bin j).inProbe = true := inProbe_of_active ha
  simp [hashTableLookup, findKey_of_live hkt ht hj ha hk, hin]

/-- A lookup of a key that no live bin holds returns `NULL`. -/
lemma hashTableLookup_of_not_holds (hkt : kt.Lawful) (ht : Shape kt t) {k : K}
    (hno : holdsKey kt t k = false) : hashTableLookup kt t k = none := by
  rw [hashTableLookup]
  cases hj : findKey kt t (kt.hash k) (some k) with
  | none => rfl
  | some j =>
    obtain ⟨hjlt, ⟨ha, -, hk⟩ | ⟨hin, -⟩⟩ := findKey_cases hkt ht hj
    · simp [holdsKey_eq_false_iff.1 hno _ (ht.bin_mem_live hjlt ha)] at hk
    · simp [hin]

/-- Tables with the same live bins give the same lookups. -/
lemma hashTableLookup_congr (hkt : kt.Lawful) (ht : Shape kt t) (ht' : Shape kt t') {k : K}
    (hlive : ∀ b, cmpKeys kt b.key (some k) = true → (b ∈ t'.live ↔ b ∈ t.live)) :
    hashTableLookup kt t' k = hashTableLookup kt t k := by
  cases hh : holdsKey kt t k with
  | true =>
    obtain ⟨b, hb, hk⟩ := List.any_eq_true.1 hh
    rw [hashTableLookup_of_live hkt ht hb hk,
      hashTableLookup_of_live hkt ht' ((hlive b hk).2 hb) hk]
  | false =>
    rw [hashTableLookup_of_not_holds hkt ht hh,
      hashTableLookup_of_not_holds hkt ht' (holdsKey_eq_false_iff.2 fun b hb => ?_)]
    by_contra hcon
    have hk : cmpKeys kt b.key (some k) = true := by simpa using hcon
    simp [holdsKey_eq_false_iff.1 hh b ((hlive b hk).1 hb)] at hk

/-- The keys other than `k` keep their values when only `k` is written. -/
lemma mem_otherKey_iff (hkt : kt.Lawful) {k k' : K} (hne : kt.cmp k k' = false)
    {b : HashBin K V} {l : List (HashBin K V)} (hb : cmpKeys kt b.key (some k') = true) :
    b ∈ l.filter (otherKey kt k) ↔ b ∈ l := by
  rw [List.mem_filter, and_iff_left_iff_imp]
  intro _
  by_contra hcon
  simp only [otherKey, Bool.not_eq_true', Bool.not_eq_false] at hcon
  have : cmpKeys kt (some k) (some k') = true :=
    cmpKeys_trans hkt (cmpKeys_symm hkt hcon) hb
  simp [cmpKeys, hne] at this

/-- The lookups after `k` was bound to `v`. -/
lemma lookup_after_insert (hkt : kt.Lawful) (ht : Shape kt t) (ht' : Shape kt t') {k : K}
    {v : Option V}
    (hlive : t'.live ~ pairBin kt (kt.cpy k) v :: t.live.filter (otherKey kt k)) (k' : K) :
    hashTableLookup kt t' k' = if kt.cmp k k' then v else hashTableLookup kt t k' := by
  split_ifs with hk
  · refine hashTableLookup_of_live (b := pairBin kt (kt.cpy k) v) hkt ht' ?_ ?_
    · exact hlive.mem_iff.2 List.mem_cons_self
    · exact hkt.trans _ _ _ (hkt.cmp_cpy k) hk
  · have hne : kt.cmp k k' = false := by simpa using hk
    refine hashTableLookup_congr hkt ht ht' fun b hb => ?_
    rw [hlive.mem_iff, List.mem_cons, mem_otherKey_iff hkt hne hb, or_iff_right]
    rintro rfl
    exact hk (hkt.trans _ _ _ (hkt.symm _ _ (hkt.cmp_cpy k)) hb)

/-- The lookups after `k` was removed. -/
lemma lookup_after_delete (hkt : kt.Lawful) (ht : Shape kt t) (ht' : Shape kt t') {k : K}
    (hlive : t'.live ~ t.live.filter (otherKey kt k)) (k' : K) :
    hashTableLookup kt t' k' = if kt.cmp k k' then none else hashTableLookup kt t k' := by
  split_ifs with hk
  · refine hashTableLookup_of_not_holds hkt ht' (holdsKey_eq_false_iff.2 fun b hb => ?_)
    have hother := (List.mem_filter.1 (hlive.mem_iff.1 hb)).2
    by_contra hcon
    have : cmpKeys kt b.key (some k) = true :=
      cmpKeys_trans hkt (b := some k') (by simpa using hcon) (hkt.symm _ _ hk)
    simp [otherKey, this] at hother
  · have hne : kt.cmp k k' = false := by simpa using hk
    refine hashTableLookup_congr hkt ht ht' fun b hb => ?_
    rw [hlive.mem_iff, mem_otherKey_iff hkt hne hb]

/-! ### Runs -/

/-- One operation on a table; a fault is final. -/
def tableStep (kt : KeyType K) (vt : ValueType V) :
    Except HashFault (HashTable K V) → MapOp K V → Except HashFault (HashTable K V)
  | .error e, _ => .error e
  | .ok t, .insert k v => hashTableInsert kt vt t k (some v)
  | .ok t, .delete k => hashTableDelete kt t k

/-- The table after the operations `ops` on a new table. -/
def tableRun (kt : KeyType K) (vt : ValueType V) (ops : List (MapOp K V)) :
    Except HashFault (HashTable K V) :=
  run (tableStep kt vt) (.ok hashTableCreate) ops

@[simp] lemma tableRun_nil :
    tableRun kt vt ([] : List (MapOp K V)) = .ok hashTableCreate := rfl

lemma tableRun_snoc (ops : List (MapOp K V)) (op : MapOp K V) :
    tableRun kt vt (ops ++ [op]) = tableStep kt vt (tableRun kt vt ops) op := by
  rw [tableRun, run_append]
  rfl

/-- If a run ends in a table, so does the run over the earlier operations. -/
lemma tableRun_prefix {ops : List (MapOp K V)} {op : MapOp K V}
    (hok : tableRun kt vt (ops ++ [op]) = .ok t') :
    ∃ t, tableRun kt vt ops = .ok t ∧ tableStep kt vt (.ok t) op = .ok t' := by
  rw [tableRun_snoc] at hok
  cases ht : tableRun kt vt ops with
  | error e => simp [ht, tableStep] at hok
  | ok t => exact ⟨t, rfl, by rw [← ht, hok]⟩

lemma hashTableCreate_compact : Compact kt (hashTableCreate : HashTable K V) :=
  clearedTable_compact _ ⟨3, le_rfl, rfl⟩

/-- The operation asks for a growth that overflows. -/
def opOverflows (kt : KeyType K) (t : HashTable K V) : MapOp K V → Bool
  | .insert k _ => growthOverflows kt t k
  | .delete _ => false

/-- What the new table's live bins are, by the operation. -/
def opLive (kt : KeyType K) (vt : ValueType V) (l : List (HashBin K V)) :
    MapOp K V → List (HashBin K V)
  | .insert k v => pairBin kt (kt.cpy k) (some (vt.cpy v)) :: l.filter (otherKey kt k)
  | .delete k => l.filter (otherKey kt k)

/-- One operation whose growth, if any, does not overflow. -/
theorem tableStep_spec (hkt : kt.Lawful) (vt : ValueType V) (ht : TableInv kt t)
    {op : MapOp K V} (hfit : opOverflows kt t op = false) :
    ∃ t', tableStep kt vt (.ok t) op = .ok t' ∧ TableInv kt t' ∧
      t'.live ~ opLive kt vt t.live op := by
  cases op with
  | insert k v =>
    obtain ⟨t', hok, hinv, hlive, -⟩ := hashTableInsert_spec hkt vt ht k (some v) hfit
    exact ⟨t', hok, hinv, hlive⟩
  | delete k =>
    obtain ⟨t', hok, hinv, hlive, -⟩ := hashTableDelete_spec hkt ht k
    exact ⟨t', hok, hinv, hlive⟩

/-- An operation that returns did not overflow. -/
lemma opOverflows_of_ok (hkt : kt.Lawful) (ht : TableInv kt t) {op : MapOp K V}
    (hok : tableStep kt vt (.ok t) op = .ok t') : opOverflows kt t op = false := by
  cases op with
  | delete k => rfl
  | insert k v =>
    by_contra hcon
    have := hashTableInsert_overflow hkt vt ht k (some v) (by simpa [opOverflows] using hcon)
    rw [show tableStep kt vt (.ok t) (.insert k v) = hashTableInsert kt vt t k (some v) from rfl,
      this] at hok
    cases hok

/-- Only a table of `2 ^ 31` bins overflows. -/
lemma opOverflows_of_small {op : MapOp K V} (hsmall : t.size.toNat < 2 ^ 31) :
    opOverflows kt t op = false := by
  cases op with
  | delete k => rfl
  | insert k v =>
    rw [opOverflows, growthOverflows, beq_eq_false_iff_ne.2 hsmall.ne, Bool.and_false,
      Bool.false_and]

/-- What one operation that returns does. -/
lemma tableStep_ok (hkt : kt.Lawful) (ht : TableInv kt t) {op : MapOp K V}
    (hok : tableStep kt vt (.ok t) op = .ok t') :
    TableInv kt t' ∧ t'.live ~ opLive kt vt t.live op := by
  obtain ⟨t'', hok', hinv, hlive⟩ := tableStep_spec hkt vt ht (opOverflows_of_ok hkt ht hok)
  rw [hok] at hok'
  cases hok'
  exact ⟨hinv, hlive⟩

/-- An operation that returns at most doubles the size. -/
lemma tableStep_size_le (hkt : kt.Lawful) (ht : TableInv kt t) {op : MapOp K V}
    (hok : tableStep kt vt (.ok t) op = .ok t') : t'.size.toNat ≤ 2 * t.size.toNat := by
  have hfit := opOverflows_of_ok hkt ht hok
  cases op with
  | insert k v =>
    obtain ⟨t'', hok', -, -, hsize⟩ := hashTableInsert_spec hkt vt ht k (some v) hfit
    cases hok.symm.trans hok'
    rcases hsize with hins | ⟨-, -, hsize, -⟩
    · rw [hins.size]
      omega
    · exact hsize.le
  | delete k =>
    obtain ⟨t'', hok', -, -, hsize⟩ := hashTableDelete_spec hkt ht k
    cases hok.symm.trans hok'
    rcases hsize with ⟨hsize, -, -⟩ | ⟨hsize, -⟩
    · rw [hsize]
      omega
    · omega

/-- Every table a run returns satisfies the invariant. -/
theorem tableRun_inv (hkt : kt.Lawful) (ops : List (MapOp K V)) :
    ∀ t, tableRun kt vt ops = .ok t → TableInv kt t := by
  induction ops using List.reverseRecOn with
  | nil =>
    intro t hok
    cases hok
    exact hashTableCreate_compact.toTableInv
  | append_singleton ops op ih =>
    intro t' hok
    obtain ⟨t, hok', hstep⟩ := tableRun_prefix hok
    exact (tableStep_ok hkt (ih t hok') hstep).1

section FiniteMap

variable [DecidableEq K]

/-- The lookups after one operation that returns, for keys compared by equality. -/
lemma lookup_tableStep (hkt : kt.Lawful) (hcmp : ∀ a b, kt.cmp a b = true ↔ a = b)
    (ht : TableInv kt t) {op : MapOp K V} (hok : tableStep kt vt (.ok t) op = .ok t') (k : K) :
    hashTableLookup kt t' k =
      if op.key = k then op.value.map vt.cpy else hashTableLookup kt t k := by
  obtain ⟨hinv, hlive⟩ := tableStep_ok hkt ht hok
  cases op with
  | insert k' v =>
    rw [lookup_after_insert hkt ht.toShape hinv.toShape hlive]
    by_cases hk : k' = k <;> simp [hcmp, hk]
  | delete k' =>
    rw [lookup_after_delete hkt ht.toShape hinv.toShape hlive]
    by_cases hk : k' = k <;> simp [hcmp, hk]

/-- A run that returns agrees with the log of its operations. -/
theorem lookup_tableRun (hkt : kt.Lawful) (hcmp : ∀ a b, kt.cmp a b = true ↔ a = b)
    (ops : List (MapOp K V)) :
    ∀ t, tableRun kt vt ops = .ok t →
      ∀ k, hashTableLookup kt t k = (MapOp.bound ops k).map vt.cpy := by
  induction ops using List.reverseRecOn with
  | nil =>
    intro t hok k
    cases hok
    refine hashTableLookup_of_not_holds hkt hashTableCreate_compact.toShape ?_
    rw [holdsKey_eq_false_iff]
    simp [hashTableCreate, clearedTable_live]
  | append_singleton ops op ih =>
    intro t' hok k
    obtain ⟨t, hok', hstep⟩ := tableRun_prefix hok
    rw [lookup_tableStep hkt hcmp (tableRun_inv hkt ops t hok') hstep k, MapOp.bound_snoc,
      ih t hok' k]
    split_ifs <;> rfl

/-- The tables of the run stay below `2 ^ 31` bins. -/
def StaysSmall (kt : KeyType K) (vt : ValueType V) (ops : List (MapOp K V)) : Prop :=
  ∀ pre, pre <+: ops → ∀ t, tableRun kt vt pre = .ok t → t.size.toNat < 2 ^ 31

omit [DecidableEq K] in
/-- A run that stays small returns. -/
theorem tableRun_ok_of_staysSmall (hkt : kt.Lawful) (ops : List (MapOp K V))
    (hsmall : StaysSmall kt vt ops) : ∃ t, tableRun kt vt ops = .ok t := by
  induction ops using List.reverseRecOn with
  | nil => exact ⟨_, rfl⟩
  | append_singleton ops op ih =>
    obtain ⟨t, hok⟩ := ih fun pre hpre => hsmall pre (hpre.trans (List.prefix_append _ _))
    have hfit : opOverflows kt t op = false :=
      opOverflows_of_small (hsmall ops (List.prefix_append _ _) t hok)
    obtain ⟨t', hok', -⟩ := tableStep_spec hkt vt (tableRun_inv hkt ops t hok) hfit
    exact ⟨t', by rw [tableRun_snoc, hok, hok']⟩

omit [DecidableEq K] in
/-- A short run stays small: an operation at most doubles the size. -/
lemma tableRun_size_le (hkt : kt.Lawful) (ops : List (MapOp K V)) :
    ∀ t, tableRun kt vt ops = .ok t → t.size.toNat ≤ 8 * 2 ^ ops.length := by
  induction ops using List.reverseRecOn with
  | nil =>
    intro t hok
    cases hok
    exact le_rfl
  | append_singleton ops op ih =>
    intro t' hok
    obtain ⟨t, hok', hstep⟩ := tableRun_prefix hok
    have hle := ih t hok'
    have hdouble := tableStep_size_le hkt (tableRun_inv hkt ops t hok') hstep
    rw [List.length_append, List.length_singleton, pow_succ]
    omega

omit [DecidableEq K] in
lemma staysSmall_of_length (hkt : kt.Lawful) {ops : List (MapOp K V)}
    (hlen : ops.length < 28) : StaysSmall kt vt ops := by
  intro pre hpre t hok
  have hpow : 2 ^ pre.length ≤ 2 ^ 27 :=
    Nat.pow_le_pow_right (by norm_num) (by have := hpre.length_le; omega)
  have hle := tableRun_size_le hkt pre t hok
  omega

/-- The hash table implements a finite map: over every run of insertions and deletions that
stays below `2 ^ 31` bins, whatever the hash function, a lookup gives the value of the last
insertion of the key unless it was deleted since, and `contains` says whether there is one. -/
theorem hashTable_finite_map (hcmp : ∀ a b, kt.cmp a b = true ↔ a = b)
    (hcpy : ∀ a, kt.cpy a = a) (ops : List (MapOp K V)) (hsmall : StaysSmall kt vt ops) :
    ∃ t, tableRun kt vt ops = .ok t ∧ ∀ k,
      hashTableLookup kt t k = (MapOp.bound ops k).map vt.cpy ∧
      hashTableContains kt t k = (MapOp.bound ops k).isSome := by
  have hkt := KeyType.lawful_of_eq hcmp hcpy
  obtain ⟨t, hok⟩ := tableRun_ok_of_staysSmall hkt ops hsmall
  refine ⟨t, hok, fun k => ?_⟩
  have hlookup := lookup_tableRun hkt hcmp ops t hok k
  exact ⟨hlookup, by rw [hashTableContains, hlookup, Option.isSome_map]⟩

end FiniteMap

lemma uint32KeyType_lawful : uint32KeyType.Lawful :=
  KeyType.lawful_of_eq (fun _ _ => beq_iff_eq) fun _ => rfl

/-- A key written twice and a key that was deleted, under CRC-32. -/
theorem hashTable_finite_map_uint32 :
    let ops : List (MapOp UInt32 ℕ) := [.insert 1 10, .insert 2 20, .insert 1 11, .delete 2]
    ∃ t, tableRun uint32KeyType (ptrValueType ℕ) ops = .ok t ∧ ∀ k,
      hashTableLookup uint32KeyType t k = (MapOp.bound ops k).map (ptrValueType ℕ).cpy ∧
      hashTableContains uint32KeyType t k = (MapOp.bound ops k).isSome :=
  hashTable_finite_map (fun _ _ => beq_iff_eq) (fun _ => rfl) _
    (staysSmall_of_length uint32KeyType_lawful (by decide))

end Vm32
