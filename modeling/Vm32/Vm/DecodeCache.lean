/-
# The cache of decoded instructions

`decoded_cache` is a hash table from addresses to decoded instructions that is only ever looked
up and, on a miss below the end of memory, inserted into.  It therefore never overwrites, never
deletes, and holds at most one entry for each address of the memory, so its growth never
overflows.  The structure carries these facts, and an insertion into it is total.
-/
import Vm32.Hashing.TableBound

namespace Vm32

open List

/-- `VM_MEM_BYTES`. -/
def vmMemBytes : ℕ := 64 * 1024 * 1024

/-- `decoded_instr_t`. -/
structure DecodedInstr where
  rawInstr : UInt32
  opcode : UInt8
  ra : UInt8
  rb : UInt8
  rc : UInt8
  immediate : UInt32
  hasImmediate : Bool
deriving DecidableEq, Repr

/-- The table behind `vm->decoded_cache`: no tombstones, keys at which a whole word is in memory,
and no `NULL` values. -/
structure DecodeCache where
  table : HashTable UInt32 DecodedInstr
  compact : Compact uint32KeyType table
  key_lt : ∀ b ∈ table.live, ∀ k, b.key = some k → k.toNat < vmMemBytes - 3
  val_ne : ∀ b ∈ table.live, b.val ≠ none

namespace DecodeCache

/-- The table that `vm_tables_init` creates. -/
def empty : DecodeCache where
  table := hashTableCreate
  compact := hashTableCreate_compact
  key_lt := by simp [hashTableCreate, clearedTable_live]
  val_ne := by simp [hashTableCreate, clearedTable_live]

/-- `hash_table_lookup` on the cache. -/
def lookup (c : DecodeCache) (addr : UInt32) : Option DecodedInstr :=
  hashTableLookup uint32KeyType c.table addr

/-- There are at most as many entries as addresses. -/
lemma live_length_le (c : DecodeCache) : c.table.live.length ≤ vmMemBytes := by
  have hkeys : ∀ b ∈ c.table.live, ∃ k, b.key = some k ∧ k.toNat < vmMemBytes - 3 := fun b hb => by
    obtain ⟨k, hk, -⟩ := c.compact.cached b hb
    exact ⟨k, hk, c.key_lt b hb k hk⟩
  have hnodup : (c.table.live.map fun b => (b.key.getD 0).toNat).Nodup := by
    refine List.pairwise_map.2 (c.compact.distinct.imp_of_mem fun {a b} ha hb hne heq => ?_)
    obtain ⟨k, hk, -⟩ := hkeys a ha
    obtain ⟨k', hk', -⟩ := hkeys b hb
    rw [hk, hk'] at hne heq
    obtain rfl : k = k' := UInt32.toNat_inj.1 heq
    simp [cmpKeys, uint32KeyType] at hne
  have hsub : (c.table.live.map fun b => (b.key.getD 0).toNat) ⊆ List.range vmMemBytes := by
    intro n hn
    obtain ⟨b, hb, rfl⟩ := List.mem_map.1 hn
    obtain ⟨k, hk, hlt⟩ := hkeys b hb
    rw [hk, List.mem_range]
    exact hlt.trans_le (Nat.sub_le _ _)
  simpa using (hnodup.subperm hsub).length_le

/-- A key that is not found is not there. -/
lemma not_holds_of_lookup {c : DecodeCache} {addr : UInt32} (hnone : c.lookup addr = none) :
    holdsKey uint32KeyType c.table addr = false := by
  by_contra hcon
  obtain ⟨b, hb, hk⟩ := List.any_eq_true.1 (by simpa using hcon : holdsKey _ _ _ = true)
  refine c.val_ne b hb ?_
  rw [← hnone, lookup]
  exact (hashTableLookup_of_live uint32KeyType_lawful c.compact.toShape hb hk).symm

/-- What the insertion of a missing address into the cache's table gives. -/
lemma insert_spec (c : DecodeCache) {addr : UInt32} (dec : DecodedInstr)
    (hnone : c.lookup addr = none) (hlt : addr.toNat < vmMemBytes - 3) :
    ∃ table, hashTableInsert uint32KeyType (ptrValueType _) c.table addr (some dec) = .ok table ∧
      Compact uint32KeyType table ∧
      (∀ b ∈ table.live, ∀ k, b.key = some k → k.toNat < vmMemBytes - 3) ∧
      (∀ b ∈ table.live, b.val ≠ none) ∧
      ∀ a, hashTableLookup uint32KeyType table a =
        if a = addr then some dec else c.lookup a := by
  -- the addresses of memory are too few to fill the table
  have hfit : c.table.used.toNat < 2 ^ 30 := by
    rw [c.compact.used_live]
    exact c.live_length_le.trans_lt (by norm_num [vmMemBytes])
  obtain ⟨table, hok, hcompact, -⟩ :=
    c.compact.insert uint32KeyType_lawful (ptrValueType _) (some dec)
      (not_holds_of_lookup hnone) hfit
  have hstep : tableStep uint32KeyType (ptrValueType _) (.ok c.table) (.insert addr dec) =
      .ok table := hok
  have hinv := tableStep_ok uint32KeyType_lawful c.compact.toTableInv hstep
  have hlive : table.live ~ pairBin uint32KeyType addr (some dec) ::
      c.table.live.filter (otherKey uint32KeyType addr) := hinv.2
  refine ⟨table, hok, hcompact, fun b hb k hk => ?_, fun b hb => ?_, fun a => ?_⟩
  · rcases List.mem_cons.1 (hlive.mem_iff.1 hb) with rfl | hb
    · obtain rfl : addr = k := Option.some.inj hk
      exact hlt
    · exact c.key_lt b (List.mem_filter.1 hb).1 k hk
  · rcases List.mem_cons.1 (hlive.mem_iff.1 hb) with rfl | hb
    · simp [pairBin]
    · exact c.val_ne b (List.mem_filter.1 hb).1
  · rw [lookup_after_insert uint32KeyType_lawful c.compact.toShape hcompact.toShape hlive]
    simp only [uint32KeyType, beq_iff_eq, eq_comm (a := a), lookup]

/-- `hash_table_insert` of a missing address into the cache. -/
def insert (c : DecodeCache) (addr : UInt32) (dec : DecodedInstr)
    (hnone : c.lookup addr = none) (hlt : addr.toNat < vmMemBytes - 3) : DecodeCache :=
  match h : hashTableInsert uint32KeyType (ptrValueType _) c.table addr (some dec) with
  | .ok table =>
    { table := table
      compact := by
        obtain ⟨table', hok, hcompact, -⟩ := c.insert_spec dec hnone hlt
        cases h.symm.trans hok
        exact hcompact
      key_lt := by
        obtain ⟨table', hok, -, hkey, -⟩ := c.insert_spec dec hnone hlt
        cases h.symm.trans hok
        exact hkey
      val_ne := by
        obtain ⟨table', hok, -, -, hval, -⟩ := c.insert_spec dec hnone hlt
        cases h.symm.trans hok
        exact hval }
  | .error _ => c

@[simp] lemma lookup_empty (addr : UInt32) : empty.lookup addr = none := by
  refine hashTableLookup_of_not_holds uint32KeyType_lawful hashTableCreate_compact.toShape ?_
  rw [holdsKey_eq_false_iff]
  simp [hashTableCreate, clearedTable_live]

lemma lookup_insert {c : DecodeCache} {addr : UInt32} {dec : DecodedInstr}
    (hnone : c.lookup addr = none) (hlt : addr.toNat < vmMemBytes - 3) (a : UInt32) :
    (c.insert addr dec hnone hlt).lookup a = if a = addr then some dec else c.lookup a := by
  obtain ⟨table, hok, -, -, -, hlookup⟩ := c.insert_spec dec hnone hlt
  have htable : (c.insert addr dec hnone hlt).table = table := by
    rw [insert]
    split
    · next h => cases h.symm.trans hok; rfl
    · next h => cases h.symm.trans hok
  rw [lookup, htable, hlookup]

/-- The addresses that are found are addresses of words in memory. -/
lemma lt_of_lookup {c : DecodeCache} {addr : UInt32} {dec : DecodedInstr}
    (hsome : c.lookup addr = some dec) : addr.toNat < vmMemBytes - 3 := by
  cases hh : holdsKey uint32KeyType c.table addr with
  | true =>
    obtain ⟨b, hb, hk⟩ := List.any_eq_true.1 hh
    obtain ⟨k, hk', -⟩ := c.compact.cached b hb
    rw [hk'] at hk
    obtain rfl : k = addr := eq_of_beq hk
    exact c.key_lt b hb k hk'
  | false =>
    rw [lookup, hashTableLookup_of_not_holds uint32KeyType_lawful c.compact.toShape hh] at hsome
    cases hsome

end DecodeCache

end Vm32
