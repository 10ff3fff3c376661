/-
# The element count of the hash table

`active` is adjusted by `store_in_bin` before the old pair is freed, and freed pairs are counted
down once more by `free_bin`.  A store into an empty bin is counted once and a rehashed pair is
counted once, but a store over a live key is counted down: the bin it goes to is not empty, so
nothing is added, and the pair it replaces is subtracted.
-/
import Vm32.Hashing.TableMap

namespace Vm32

open LabelledRun List

variable {K V : Type*} {kt : KeyType K} {vt : ValueType V} {t t' : HashTable K V}

/-! ### The live bins of a run -/

/-- At most one element of a list can satisfy a predicate that its elements exclude from each
other. -/
lemma countP_le_one {α : Type*} {p : α → Bool} {R : α → α → Prop} {l : List α}
    (hl : l.Pairwise R) (hp : ∀ a b, p a = true → p b = true → ¬ R a b) : l.countP p ≤ 1 := by
  induction l with
  | nil => simp
  | cons a l ih =>
    obtain ⟨hhead, htail⟩ := List.pairwise_cons.1 hl
    cases ha : p a with
    | false =>
      rw [List.countP_cons_of_neg (by simp [ha])]
      exact ih htail
    | true =>
      have hzero : l.countP p = 0 :=
        List.countP_eq_zero.2 fun b hb hpb => hp a b ha hpb (hhead b hb)
      rw [List.countP_cons_of_pos ha, hzero]

/-- Dropping the bins of key `k` drops at most one bin, the one that holds it. -/
lemma length_filter_otherKey (hkt : kt.Lawful) (ht : Shape kt t) (k : K) :
    (t.live.filter (otherKey kt k)).length + (if holdsKey kt t k then 1 else 0) =
      t.live.length := by
  have hsplit := List.length_eq_countP_add_countP
    (fun b : HashBin K V => cmpKeys kt b.key (some k)) (l := t.live)
  have hother : (t.live.filter (otherKey kt k)).length =
      t.live.countP fun b => decide (¬ cmpKeys kt b.key (some k) = true) := by
    rw [← List.countP_eq_length_filter]
    exact List.countP_congr fun b _ => by simp [otherKey]
  -- live keys are pairwise different, so at most one bin holds `k`
  have hone : t.live.countP (fun b => cmpKeys kt b.key (some k)) =
      if holdsKey kt t k then 1 else 0 := by
    have hle := countP_le_one (p := fun b => cmpKeys kt b.key (some k)) ht.distinct
      fun a b ha hb => by simp [cmpKeys_trans hkt ha (cmpKeys_symm hkt hb)]
    split_ifs with hholds
    · obtain ⟨b, hb, hk⟩ := List.any_eq_true.1 hholds
      have := List.countP_pos_iff (p := fun b => cmpKeys kt b.key (some k)).2 ⟨b, hb, hk⟩
      omega
    · rw [List.countP_eq_zero]
      intro b hb hk
      simp [holdsKey_eq_false_iff.1 (by simpa using hholds) b hb] at hk
  omega

/-- Deleting a key leaves the number of live bins, less one if the key was there. -/
lemma length_live_delete (hkt : kt.Lawful) (ht : Shape kt t) {k : K}
    (hlive : t'.live ~ t.live.filter (otherKey kt k)) :
    t'.live.length = t.live.length - if holdsKey kt t k then 1 else 0 := by
  have := length_filter_otherKey hkt ht k
  rw [hlive.length_eq]
  omega

/-- Inserting a key adds one to the number of live bins, unless the key was there. -/
lemma length_live_insert (hkt : kt.Lawful) (ht : Shape kt t) {k : K} {b : HashBin K V}
    (hlive : t'.live ~ b :: t.live.filter (otherKey kt k)) :
    t'.live.length = t.live.length + if holdsKey kt t k then 0 else 1 := by
  have := length_filter_otherKey hkt ht k
  rw [hlive.length_eq, List.length_cons]
  split_ifs at this ⊢ <;> omega

section Count

variable [DecidableEq K]

lemma any_filter_otherKey (hcmp : ∀ a b, kt.cmp a b = true ↔ a = b) (l : List (HashBin K V))
    (k k' : K) :
    ((l.filter (otherKey kt k)).any fun b => cmpKeys kt b.key (some k')) =
      if k = k' then false else l.any fun b => cmpKeys kt b.key (some k') := by
  rw [List.any_filter]
  split_ifs with hk
  · subst hk
    rw [List.any_eq_false]
    intro b _
    cases hb : cmpKeys kt b.key (some k) <;> simp [otherKey, hb]
  · refine List.any_congr rfl fun b => ?_
    obtain ⟨_, _, _, key, _⟩ := b
    cases key with
    | none => simp [otherKey, cmpKeys]
    | some c =>
      by_cases hc : c = k'
      · have hck : kt.cmp c k = false := by
          rw [← Bool.not_eq_true, hcmp]
          exact fun h => hk (h.symm.trans hc)
        simp [otherKey, cmpKeys, hck]
      · have hck' : kt.cmp c k' = false := by rwa [← Bool.not_eq_true, hcmp]
        simp [cmpKeys, hck']

/-- The live bins hold exactly the keys that the log binds. -/
lemma holdsKey_eq_bound (hcmp : ∀ a b, kt.cmp a b = true ↔ a = b) (hcpy : ∀ a, kt.cpy a = a)
    (ops : List (MapOp K V)) :
    ∀ t, tableRun kt vt ops = .ok t → ∀ k, holdsKey kt t k = (MapOp.bound ops k).isSome := by
  have hkt := KeyType.lawful_of_eq hcmp hcpy
  induction ops using List.reverseRecOn with
  | nil =>
    intro t hok k
    cases hok
    rw [MapOp.bound_nil, Option.isSome_none, holdsKey_eq_false_iff]
    simp [hashTableCreate, clearedTable_live]
  | append_singleton ops op ih =>
    intro t' hok k
    obtain ⟨t, hok', hstep⟩ := tableRun_prefix hok
    have hlive := (tableStep_ok hkt (tableRun_inv hkt ops t hok') hstep).2
    have hold := ih t hok' k
    rw [MapOp.bound_snoc, holdsKey, hlive.any_eq]
    rw [holdsKey] at hold
    cases op with
    | insert k' v =>
      rw [opLive, List.any_cons, any_filter_otherKey hcmp, hold]
      by_cases hk : k' = k
      · simp [hk, pairBin, cmpKeys, hcpy, (hcmp k k).2 rfl]
      · have : kt.cmp k' k = false := by rwa [← Bool.not_eq_true, hcmp]
        simp [hk, pairBin, cmpKeys, hcpy, this]
    | delete k' =>
      rw [opLive, any_filter_otherKey hcmp, hold]
      by_cases hk : k' = k <;> simp [hk]

/-- There are as many live bins as keys that the log binds. -/
theorem length_live_tableRun (hcmp : ∀ a b, kt.cmp a b = true ↔ a = b)
    (hcpy : ∀ a, kt.cpy a = a) (ops : List (MapOp K V)) :
    ∀ t, tableRun kt vt ops = .ok t → t.live.length = (MapOp.boundKeys ops).card := by
  have hkt := KeyType.lawful_of_eq hcmp hcpy
  induction ops using List.reverseRecOn with
  | nil =>
    intro t hok
    cases hok
    simp [hashTableCreate, clearedTable_live]
  | append_singleton ops op ih =>
    intro t' hok
    obtain ⟨t, hok', hstep⟩ := tableRun_prefix hok
    have hinv := tableRun_inv hkt ops t hok'
    have hlive := (tableStep_ok hkt hinv hstep).2
    have hlen := ih t hok'
    have hmem : ∀ k, holdsKey kt t k = true ↔ k ∈ MapOp.boundKeys ops := fun k => by
      rw [holdsKey_eq_bound hcmp hcpy ops t hok' k, MapOp.mem_boundKeys,
        Option.isSome_iff_ne_none]
    cases op with
    | insert k v =>
      -- a key that is already live adds no bin
      rw [length_live_insert hkt hinv.toShape hlive, hlen, MapOp.boundKeys_snoc_insert,
        Finset.card_insert_eq_ite]
      simp only [hmem]
      split_ifs <;> rfl
    | delete k =>
      rw [length_live_delete hkt hinv.toShape hlive, hlen, MapOp.boundKeys_snoc_delete,
        Finset.card_erase_eq_ite]
      simp only [hmem]
      split_ifs <;> rfl

end Count

/-! ### The counter -/

/-- The counter is the number of live bins. -/
def Counted (t : HashTable K V) : Prop := t.active.toNat = t.live.length

lemma live_length_lt (ht : TableInv kt t) : t.live.length + 1 < 2 ^ 32 := by
  have h1 := ht.tallied.live_length_le_used
  have h2 := ht.load
  have h3 := ht.tallied.size_le
  omega

lemma active_sub_one (h : 0 < t.active.toNat) : (t.active - 1).toNat = t.active.toNat - 1 := by
  have hone : (1 : UInt32) ≤ t.active := by
    rw [UInt32.le_iff_toNat_le, UInt32.toNat_one]
    exact h
  rw [UInt32.toNat_sub_of_le _ _ hone, UInt32.toNat_one]

/-- A deletion keeps the counter exact. -/
lemma Counted.delete (hkt : kt.Lawful) (ht : TableInv kt t) (hc : Counted t) {k : K}
    (hok : hashTableDelete kt t k = .ok t') : Counted t' := by
  obtain ⟨t'', hok', hinv, hlive, hcase⟩ := hashTableDelete_spec hkt ht k
  cases hok.symm.trans hok'
  -- without a resize the counter follows the bin, and a resize counts anew
  rcases hcase with ⟨-, -, hactive⟩ | ⟨-, hcompact⟩
  · have hsplit := length_filter_otherKey hkt ht.toShape k
    rw [Counted] at hc
    rw [Counted, hactive, length_live_delete hkt ht.toShape hlive]
    split_ifs at hsplit ⊢
    · rw [active_sub_one (by omega), hc]
    · exact hc
  · exact hcompact.active_live

/-- An insertion of a key that is not there keeps the counter exact. -/
lemma Counted.insert (hkt : kt.Lawful) (ht : TableInv kt t) (hc : Counted t) {k : K}
    {v : Option V} (hnew : holdsKey kt t (kt.cpy k) = false)
    (hok : hashTableInsert kt vt t k v = .ok t') : Counted t' := by
  have hfit : growthOverflows kt t k = false := by
    by_contra hcon
    rw [hashTableInsert_overflow hkt vt ht k v (by simpa using hcon)] at hok
    cases hok
  obtain ⟨t'', hok', hinv, -, hcase⟩ := hashTableInsert_spec hkt vt ht k v hfit
  cases hok.symm.trans hok'
  rcases hcase with hins | ⟨-, -, -, hcompact⟩
  · have hlt := live_length_lt ht
    rw [Counted] at hc
    rw [Counted, hins.active, hnew, if_neg Bool.false_ne_true, UInt32.toNat_add, hc,
      length_live_insert hkt ht.toShape hins.live, hnew, UInt32.toNat_one,
      if_neg Bool.false_ne_true]
    exact Nat.mod_eq_of_lt hlt
  · exact hcompact.active_live

/-- An insertion of a key that is there overwrites its bin. -/
lemma takesFreshBin_of_holds (hkt : kt.Lawful) (ht : Shape kt t) {k : K}
    (hholds : holdsKey kt t k = true) : takesFreshBin kt t k = false := by
  obtain ⟨b, hb, hk⟩ := List.any_eq_true.1 hholds
  obtain ⟨hbins, ha⟩ := List.mem_filter.1 hb
  obtain ⟨j, hj, rfl⟩ := ht.tallied.exists_index hbins
  have hin : (t.bin j).inProbe = true := inProbe_of_active ha
  rw [takesFreshBin, findKey_of_live hkt ht hj ha hk]
  cases findEmpty t (kt.hash k) <;> simp [hin]

/-- An insertion of a key that is there counts down. -/
lemma Counted.overwrite (hkt : kt.Lawful) (vt : ValueType V) (ht : TableInv kt t)
    (hc : Counted t) {k : K} {v : Option V} (hholds : holdsKey kt t (kt.cpy k) = true) :
    ∃ t', hashTableInsert kt vt t k v = .ok t' ∧ ¬ Counted t' := by
  have hfresh := takesFreshBin_of_holds hkt ht.toShape hholds
  obtain ⟨t', hok, -, -, hins | ⟨hcon, -⟩⟩ :=
    hashTableInsert_spec hkt vt ht k v (by rw [growthOverflows, hfresh]; rfl)
  · refine ⟨t', hok, fun hc' => ?_⟩
    have hpos : 0 < t.live.length := by
      rw [List.length_pos_iff]
      rintro hnil
      simp [holdsKey, hnil] at hholds
    -- `free_bin` has counted the old pair down, and nothing counts the new one
    rw [Counted] at hc hc'
    rw [hins.active, if_pos hholds, active_sub_one (by omega),
      length_live_insert hkt ht.toShape hins.live, if_pos hholds] at hc'
    omega
  · simp [hfresh] at hcon

section Count

variable [DecidableEq K]

/-- Every insertion of the run is of a key that is not bound at that point. -/
def OnlyNewKeys (ops : List (MapOp K V)) : Prop :=
  ∀ pre k v, pre ++ [.insert k v] <+: ops → k ∉ MapOp.boundKeys pre

lemma onlyNewKeys_snoc {ops : List (MapOp K V)} {op : MapOp K V} :
    OnlyNewKeys (ops ++ [op]) ↔
      OnlyNewKeys ops ∧ ∀ k v, op = .insert k v → k ∉ MapOp.boundKeys ops := by
  constructor
  · intro h
    refine ⟨fun pre k v hpre => h pre k v (hpre.trans (List.prefix_append _ _)), ?_⟩
    rintro k v rfl
    exact h ops k v (List.prefix_refl _)
  · rintro ⟨hops, hop⟩ pre k v hpre
    rcases List.prefix_concat_iff.1 hpre with heq | hpre
    · obtain ⟨rfl, hlast⟩ := List.append_inj' heq rfl
      exact hop k v (List.singleton_inj.1 hlast).symm
    · exact hops pre k v hpre

/-- From an exact counter, a step that returns leaves it exact unless it overwrites. -/
lemma counted_tableStep_iff (hcmp : ∀ a b, kt.cmp a b = true ↔ a = b)
    (hcpy : ∀ a, kt.cpy a = a) {ops : List (MapOp K V)} {op : MapOp K V}
    (hok : tableRun kt vt ops = .ok t) (hstep : tableStep kt vt (.ok t) op = .ok t')
    (hc : Counted t) :
    Counted t' ↔ ∀ k v, op = .insert k v → k ∉ MapOp.boundKeys ops := by
  have hkt := KeyType.lawful_of_eq hcmp hcpy
  have hinv := tableRun_inv hkt ops t hok
  have hmem : ∀ k, holdsKey kt t k = true ↔ k ∈ MapOp.boundKeys ops := fun k => by
    rw [holdsKey_eq_bound hcmp hcpy ops t hok k, MapOp.mem_boundKeys,
      Option.isSome_iff_ne_none]
  cases op with
  | delete k => exact iff_of_true (hc.delete hkt hinv hstep) (by simp)
  | insert k v =>
    cases hholds : holdsKey kt t k with
    | true =>
      obtain ⟨t'', hok', hbad⟩ :=
        hc.overwrite (v := some v) hkt vt hinv (by rw [hcpy, hholds])
      cases hok'.symm.trans hstep
      exact iff_of_false hbad fun h => h k v rfl ((hmem k).1 hholds)
    | false =>
      refine iff_of_true (hc.insert hkt hinv (by rw [hcpy, hholds]) hstep) ?_
      rintro k' v' ⟨⟩ hk
      simp [(hmem k).2 hk] at hholds

/-- The counter is exact in every state of a run exactly if no insertion overwrites. -/
lemma counted_tableRun_iff (hcmp : ∀ a b, kt.cmp a b = true ↔ a = b)
    (hcpy : ∀ a, kt.cpy a = a) (ops : List (MapOp K V)) :
    ∀ t, tableRun kt vt ops = .ok t →
      ((∀ pre, pre <+: ops → ∀ t', tableRun kt vt pre = .ok t' → Counted t') ↔
        OnlyNewKeys ops) := by
  induction ops using List.reverseRecOn with
  | nil =>
    intro t _
    refine iff_of_true ?_ ?_
    · intro pre hpre t' hok'
      rw [List.prefix_nil.1 hpre] at hok'
      cases hok'
      have hcompact : Compact kt (hashTableCreate : HashTable K V) := hashTableCreate_compact
      exact hcompact.active_live
    · intro pre k v hpre
      simp at hpre
  | append_singleton ops op ih =>
    intro t' hok
    obtain ⟨t, hok', hstep⟩ := tableRun_prefix hok
    rw [onlyNewKeys_snoc, ← ih t hok']
    constructor
    · intro hall
      have hops : ∀ pre, pre <+: ops → ∀ t', tableRun kt vt pre = .ok t' → Counted t' :=
        fun pre hpre => hall pre (hpre.trans (List.prefix_append _ _))
      refine ⟨hops, ?_⟩
      rw [← counted_tableStep_iff hcmp hcpy hok' hstep (hops _ (List.prefix_refl _) t hok')]
      exact hall _ (List.prefix_refl _) t' hok
    · -- a prefix is the whole run or a prefix of the run before
      rintro ⟨hops, hop⟩ pre hpre t'' hok''
      rcases List.prefix_concat_iff.1 hpre with rfl | hpre
      · cases hok.symm.trans hok''
        exact (counted_tableStep_iff hcmp hcpy hok' hstep
          (hops _ (List.prefix_refl _) t hok')).2 hop
      · exact hops pre hpre t'' hok''

/-- `active` is the number of bound keys in every state of a run exactly if the run never
inserts a key that is bound already. -/
theorem active_eq_card_iff (hcmp : ∀ a b, kt.cmp a b = true ↔ a = b)
    (hcpy : ∀ a, kt.cpy a = a) (ops : List (MapOp K V)) (hok : tableRun kt vt ops = .ok t) :
    (∀ pre, pre <+: ops → ∀ t', tableRun kt vt pre = .ok t' →
      (hashTableSize t').toNat = (MapOp.boundKeys pre).card) ↔ OnlyNewKeys ops := by
  rw [← counted_tableRun_iff hcmp hcpy ops t hok]
  refine forall_congr' fun pre => imp_congr_right fun _ => forall_congr' fun t' =>
    imp_congr_right fun hok' => ?_
  rw [Counted, length_live_tableRun hcmp hcpy pre t' hok', hashTableSize]

end Count

/-- A run without overwrites: a deleted key may come back. -/
theorem active_eq_card_iff_reinsert :
    ∃ t, tableRun uint32KeyType (ptrValueType ℕ) [.insert 1 10, .delete 1, .insert 1 11] = .ok t ∧
      ((∀ pre, pre <+: [.insert 1 10, .delete 1, .insert 1 11] →
        ∀ t', tableRun uint32KeyType (ptrValueType ℕ) pre = .ok t' →
          (hashTableSize t').toNat = (MapOp.boundKeys pre).card) ↔
        OnlyNewKeys ([.insert 1 10, .delete 1, .insert 1 11] : List (MapOp UInt32 ℕ))) := by
  obtain ⟨t, ht⟩ : ∃ t, tableRun uint32KeyType (ptrValueType ℕ)
      [.insert 1 10, .delete 1, .insert 1 11] = .ok t :=
    tableRun_ok_of_staysSmall uint32KeyType_lawful _
      (staysSmall_of_length uint32KeyType_lawful
        (by decide))
  exact ⟨t, ht, active_eq_card_iff (fun _ _ => beq_iff_eq) (fun _ => rfl) _ ht⟩

/-- Inserting one key twice leaves a table that counts no key. -/
theorem active_after_overwrite :
    ∃ t, tableRun uint32KeyType (ptrValueType ℕ) [.insert 1 10, .insert 1 11] = .ok t ∧
      hashTableSize t = 0 ∧
      (MapOp.boundKeys ([.insert 1 10, .insert 1 11] : List (MapOp UInt32 ℕ))).card = 1 :=
  ⟨_, rfl, by decide, by decide⟩

end Vm32
