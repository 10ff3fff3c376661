/-
# The hash table of `hashing.c`

Open addressing with linear probing and lazy deletion.  A bin that was ever used keeps its
`in_probe` flag until the next resize, so that the probe sequences through it stay connected;
`is_empty` says whether it holds a pair at present.  Pointers to keys and values are `Option`s:
`none` is `NULL`, which is what `calloc` leaves in a fresh bin.

`hash_table_insert_internal`, `resize` and `init_table` call each other.  The recursion is cut
by a bound on the nesting of `resize`; a call that reaches the bound, or one of the two
`assert(false)`, ends in a `HashFault`.
-/
import Vm32.Hashing.Checksum

namespace Vm32

/-- `key_type_t`, without the destructor: what `del` is called with is recorded by the table. -/
structure KeyType (K : Type*) where
  hash : K → UInt32
  cmp : K → K → Bool
  cpy : K → K

/-- `value_type_t`, without the destructor. -/
structure ValueType (V : Type*) where
  cpy : V → V

/-- `hash_bin_t`. -/
structure HashBin (K V : Type*) where
  inProbe : Bool
  isEmpty : Bool
  hashKey : UInt32
  key : Option K
  val : Option V

/-- `hash_table_t`.  `freed` lists the keys and values handed to the two `del` functions so
far, in order. -/
structure HashTable (K V : Type*) where
  bins : List (HashBin K V)
  size : UInt32
  used : UInt32
  active : UInt32
  freed : List (Option K × Option V)

/-- The ways in which a table operation can fail to return. -/
inductive HashFault
  /-- An `assert(false)` of `find_key` or `find_empty`. -/
  | assertFailed
  /-- More nested calls of `resize` than the model follows. -/
  | outOfFuel
deriving DecidableEq, Repr

variable {K V : Type*}

/-- A bin as `init_table` leaves it. -/
def HashBin.fresh : HashBin K V := ⟨false, true, 0, none, none⟩

/-- `is_active_bin`. -/
def isActiveBin (bin : HashBin K V) : Bool := bin.inProbe && !bin.isEmpty

/-- The bin at index `j`. -/
def HashTable.bin (table : HashTable K V) (j : ℕ) : HashBin K V := table.bins.getD j .fresh

/-- `key_type->cmp` on key pointers; it is called on keys of active bins only. -/
def cmpKeys (kt : KeyType K) : Option K → Option K → Bool
  | some a, some b => kt.cmp a b
  | _, _ => false

/-- `key_in_bin`. -/
def keyInBin (kt : KeyType K) (bin : HashBin K V) (hashKey : UInt32) (key : Option K) : Bool :=
  isActiveBin bin && bin.hashKey == hashKey && cmpKeys kt bin.key key

/-! ### Searching -/

/-- `probe`. -/
def probe (hashKey i m : UInt32) : UInt32 := (hashKey + i) &&& (m - 1)

/-- The loop of `find_key` and `find_empty`, from step `i` on with `n` steps to go. -/
def probeLoop (table : HashTable K V) (hashKey : UInt32) (stop : HashBin K V → Bool) :
    ℕ → UInt32 → Option ℕ
  | 0, _ => none
  | n + 1, i =>
    let j := (probe hashKey i table.size).toNat
    if stop (table.bin j) then some j else probeLoop table hashKey stop n (i + 1)

/-- `find_key`: the bin with the key, or the first bin outside the probe sequences. -/
def findKey (kt : KeyType K) (table : HashTable K V) (hashKey : UInt32) (key : Option K) :
    Option ℕ :=
  probeLoop table hashKey (fun bin => !bin.inProbe || keyInBin kt bin hashKey key)
    table.size.toNat 0

/-- `find_empty`. -/
def findEmpty (table : HashTable K V) (hashKey : UInt32) : Option ℕ :=
  probeLoop table hashKey (fun bin => bin.isEmpty) table.size.toNat 0

/-! ### Bins -/

/-- `free_bin`. -/
def freeBin (table : HashTable K V) (j : ℕ) : HashTable K V :=
  let bin := table.bin j
  if isActiveBin bin then
    { table with
      bins := table.bins.set j { bin with isEmpty := true }
      active := table.active - 1
      freed := table.freed ++ [(bin.key, bin.val)] }
  else table

/-- `store_in_bin`: the counters are adjusted before the old pair is freed. -/
def storeInBin (table : HashTable K V) (j : ℕ) (hashKey : UInt32) (key : Option K)
    (val : Option V) : HashTable K V :=
  let bin := table.bin j
  let counted :=
    { table with
      active := table.active + (if bin.isEmpty then 1 else 0)
      used := table.used + (if bin.inProbe then 0 else 1) }
  let freed := freeBin counted j
  { freed with bins := freed.bins.set j ⟨true, false, hashKey, key, val⟩ }

/-! ### Initialisation, resizing and insertion -/

/-- The type of `hash_table_insert_internal`, which `init_table` calls back. -/
abbrev InsertInternal (K V : Type*) :=
  HashTable K V → UInt32 → Option K → Option V → Except HashFault (HashTable K V)

/-- The table with a fresh bin array, before `init_table` moves anything into it. -/
def clearedTable (table : HashTable K V) (size : UInt32) : HashTable K V :=
  { table with bins := List.replicate size.toNat .fresh, size := size, used := 0, active := 0 }

/-- The loop of `init_table` over the bins of the old array. -/
def moveBins (insertInternal : InsertInternal K V) (table : HashTable K V) :
    List (HashBin K V) → Except HashFault (HashTable K V)
  | [] => .ok table
  | bin :: bins =>
    if bin.isEmpty then moveBins insertInternal table bins
    else
      match insertInternal table bin.hashKey bin.key bin.val with
      | .ok table' => moveBins insertInternal table' bins
      | .error e => .error e

/-- `init_table`; `old` lists the bins between `old_bins_begin` and `old_bins_end`. -/
def initTable (insertInternal : InsertInternal K V) (table : HashTable K V) (size : UInt32)
    (old : List (HashBin K V)) : Except HashFault (HashTable K V) :=
  moveBins insertInternal (clearedTable table size) old

/-- `resize`. -/
def resize (insertInternal : InsertInternal K V) (table : HashTable K V) (newSize : UInt32) :
    Except HashFault (HashTable K V) :=
  initTable insertInternal table newSize table.bins

/-- Steps 1 and 2 of `hash_table_insert_internal`: find the bin and store the pair. -/
def insertPair (kt : KeyType K) (table : HashTable K V) (hashKey : UInt32) (key : Option K)
    (val : Option V) : Except HashFault (HashTable K V) :=
  match findKey kt table hashKey key with
  | none => .error .assertFailed
  | some j =>
    if (table.bin j).inProbe then .ok (storeInBin table j hashKey key val)
    else
      match findEmpty table hashKey with
      | none => .error .assertFailed
      | some j' => .ok (storeInBin table j' hashKey key val)

/-- The load check of `hash_table_insert_internal`, `used / size > LOAD_FACTOR_MAX`. -/
def overloaded (table : HashTable K V) : Bool := table.size.toNat < 2 * table.used.toNat

/-- `hash_table_insert_internal`, following `fuel` nested calls of `resize`. -/
def insertInternal (kt : KeyType K) : ℕ → InsertInternal K V
  | fuel, table, hashKey, key, val =>
    match insertPair kt table hashKey key val with
    | .error e => .error e
    | .ok table' =>
      if overloaded table' then
        match fuel with
        | 0 => .error .outOfFuel
        | fuel + 1 => resize (insertInternal kt fuel) table' (table'.size * 2)
      else .ok table'

/-- The nesting of `resize` that the model follows from an operation of the interface: a
shrinking resize can start a growing one, and that one starts none. -/
def resizeDepth : ℕ := 2

/-! ### The interface -/

/-- `MIN_TABLE_SIZE`. -/
def minTableSize : UInt32 := 8

/-- `hash_table_create`. -/
def hashTableCreate : HashTable K V :=
  clearedTable ⟨[], 0, 0, 0, []⟩ minTableSize

/-- `hash_table_insert`. -/
def hashTableInsert (kt : KeyType K) (vt : ValueType V) (table : HashTable K V) (key : K)
    (value : Option V) : Except HashFault (HashTable K V) :=
  insertInternal kt resizeDepth table (kt.hash key) (some (kt.cpy key)) (value.map vt.cpy)

/-- `hash_table_lookup`; an unmet `assert` is `NULL` here. -/
def hashTableLookup (kt : KeyType K) (table : HashTable K V) (key : K) : Option V :=
  match findKey kt table (kt.hash key) (some key) with
  | none => none
  | some j => if (table.bin j).inProbe then (table.bin j).val else none

/-- The load check of `hash_table_delete`, `active / size < LOAD_FACTOR_MIN`. -/
def underloaded (table : HashTable K V) : Bool :=
  minTableSize < table.size && 8 * table.active.toNat < table.size.toNat

/-- `hash_table_delete`. -/
def hashTableDelete (kt : KeyType K) (table : HashTable K V) (key : K) :
    Except HashFault (HashTable K V) :=
  match findKey kt table (kt.hash key) (some key) with
  | none => .error .assertFailed
  | some j =>
    let table' := freeBin table j
    if underloaded table' then
      resize (insertInternal kt resizeDepth) table' (table'.size / 2)
    else .ok table'

/-- `hash_table_contains`. -/
def hashTableContains (kt : KeyType K) (table : HashTable K V) (key : K) : Bool :=
  (hashTableLookup kt table key).isSome

/-- `hash_table_size`. -/
def hashTableSize (table : HashTable K V) : UInt32 := table.active

/-- `hash_table_destroy`, up to the freeing of the arrays. -/
def hashTableDestroy (table : HashTable K V) : HashTable K V :=
  (List.range table.size.toNat).foldl freeBin table

/-! ### Ready-made types -/

/-- `uint32_key_type`. -/
def uint32KeyType : KeyType UInt32 where
  hash k := crc32 (uint32Bytes k)
  cmp a b := a == b
  cpy k := k

/-- `ptr_value_type`: the pointer itself is stored. -/
def ptrValueType (V : Type*) : ValueType V where
  cpy v := v

end Vm32
