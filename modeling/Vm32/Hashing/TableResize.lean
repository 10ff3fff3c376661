/-
# The resize recursion

An insertion can resize the table, and a resize inserts.  Here the operations report each call of
`hash_table_insert_internal` and of `resize`, with the depth at which it happens.  In a table that
is at most half full a growing resize finds twice the room that it needs, so it starts no further
one; a shrinking resize may start one growing resize, and then what is left of the old array finds
the room of the old size.  The argument counts bins in probe only: it holds with every key type, and
whatever the counter `active` says.
-/
import Vm32.Hashing.TableBound
import Vm32.Hashing.TableOwnership
import Vm32.Lib.Logged

namespace Vm32

open LabelledRun Logged

variable {K V : Type*} {kt : KeyType K} {vt : ValueType V} {t : HashTable K V}

/-! ### Reporting operations -/

/-- A call, at a depth of nested calls of `resize`. -/
inductive TableEvent (K V : Type*)
  /-- `hash_table_insert_internal` on a table of this size. -/
  | insert (level : ℕ) (size : UInt32) (key : Option K) (val : Option V)
  /-- `resize` to this size. -/
  | resize (level : ℕ) (newSize : UInt32)

/-- The type of the reporting `hash_table_insert_internal`. -/
abbrev InsertLogged (K V : Type*) :=
  HashTable K V → UInt32 → Option K → Option V →
    Logged (TableEvent K V) (Except HashFault (HashTable K V))

/-- The loop of `init_table`. -/
def moveBinsLogged (insert : InsertLogged K V) (table : HashTable K V) :
    List (HashBin K V) → Logged (TableEvent K V) (Except HashFault (HashTable K V))
  | [] => pure (.ok table)
  | bin :: bins =>
    if bin.isEmpty then moveBinsLogged insert table bins
    else do
      match ← insert table bin.hashKey bin.key bin.val with
      | .ok table' => moveBinsLogged insert table' bins
      | .error e => pure (.error e)

/-- `resize`. -/
def resizeLogged (insert : InsertLogged K V) (level : ℕ) (table : HashTable K V)
    (newSize : UInt32) : Logged (TableEvent K V) (Except HashFault (HashTable K V)) := do
  tell (.resize level newSize)
  moveBinsLogged insert (clearedTable table newSize) table.bins

/-- `hash_table_insert_internal`. -/
def insertInternalLogged (kt : KeyType K) : ℕ → ℕ → InsertLogged K V
  | fuel, level, table, hashKey, key, val => do
    tell (.insert level table.size key val)
    match insertPair kt table hashKey key val with
    | .error e => pure (.error e)
    | .ok table' =>
      if overloaded table' then
        match fuel with
        | 0 => pure (.error .outOfFuel)
        | fuel + 1 =>
          resizeLogged (insertInternalLogged kt fuel (level + 1)) level table' (table'.size * 2)
      else pure (.ok table')

/-- `hash_table_insert`. -/
def hashTableInsertLogged (kt : KeyType K) (vt : ValueType V) (fuel : ℕ) (table : HashTable K V)
    (key : K) (value : Option V) : Logged (TableEvent K V) (Except HashFault (HashTable K V)) :=
  insertInternalLogged kt fuel 0 table (kt.hash key) (some (kt.cpy key)) (value.map vt.cpy)

/-- `hash_table_delete`. -/
def hashTableDeleteLogged (kt : KeyType K) (fuel : ℕ) (table : HashTable K V) (key : K) :
    Logged (TableEvent K V) (Except HashFault (HashTable K V)) :=
  match findKey kt table (kt.hash key) (some key) with
  | none => pure (.error .assertFailed)
  | some j =>
    let table' := freeBin table j
    if underloaded table' then
      resizeLogged (insertInternalLogged kt fuel 1) 0 table' (table'.size / 2)
    else pure (.ok table')

/-! ### Reporting changes nothing -/

lemma value_moveBinsLogged {insert : InsertLogged K V} {insert' : InsertInternal K V}
    (hinsert : ∀ t hashKey key val,
      (insert t hashKey key val).value = insert' t hashKey key val)
    (t : HashTable K V) (bins : List (HashBin K V)) :
    (moveBinsLogged insert t bins).value = moveBins insert' t bins := by
  induction bins generalizing t with
  | nil => rfl
  | cons b bins ih =>
    rw [moveBinsLogged, moveBins]
    split_ifs
    · exact ih t
    · rw [value_bind, hinsert]
      cases insert' t b.hashKey b.key b.val with
      | ok t' => exact ih t'
      | error e => rfl

lemma value_insertInternalLogged (kt : KeyType K) (fuel level : ℕ) (t : HashTable K V)
    (hashKey : UInt32) (key : Option K) (val : Option V) :
    (insertInternalLogged kt fuel level t hashKey key val).value =
      insertInternal kt fuel t hashKey key val := by
  induction fuel generalizing level t hashKey key val with
  | zero =>
    rw [insertInternalLogged, insertInternal, value_bind]
    cases insertPair kt t hashKey key val with
    | error e => rfl
    | ok t' => simp only [value_ite, value_pure]
  | succ fuel ih =>
    rw [insertInternalLogged, insertInternal, value_bind]
    cases insertPair kt t hashKey key val with
    | error e => rfl
    | ok t' =>
      simp only [value_ite, value_pure]
      split_ifs
      · exact value_moveBinsLogged (ih (level + 1)) _ _
      · rfl

lemma value_hashTableInsertLogged (t : HashTable K V) (k : K) (v : Option V) :
    (hashTableInsertLogged kt vt resizeDepth t k v).value = hashTableInsert kt vt t k v :=
  value_insertInternalLogged kt resizeDepth 0 t _ _ _

lemma value_hashTableDeleteLogged (t : HashTable K V) (k : K) :
    (hashTableDeleteLogged kt resizeDepth t k).value = hashTableDelete kt t k := by
  rw [hashTableDeleteLogged, hashTableDelete]
  cases findKey kt t (kt.hash k) (some k) with
  | none => rfl
  | some j =>
    simp only [value_ite, value_pure]
    split_ifs
    · exact value_moveBinsLogged (value_insertInternalLogged kt resizeDepth 1) _ _
    · rfl

/-- What the reporting operation returns with any bound on the nesting, the operation returns. -/
lemma hashTableInsert_of_logged {k : K} {v : Option V} {result : Except HashFault (HashTable K V)}
    {log : List (TableEvent K V)}
    (h : ∀ fuel, hashTableInsertLogged kt vt (fuel + 1) t k v = ⟨result, log⟩) :
    hashTableInsert kt vt t k v = result := by
  rw [← value_hashTableInsertLogged, resizeDepth, h]

lemma hashTableDelete_of_logged {k : K} {result : Except HashFault (HashTable K V)}
    {log : List (TableEvent K V)}
    (h : ∀ fuel, hashTableDeleteLogged kt (fuel + 1) t k = ⟨result, log⟩) :
    hashTableDelete kt t k = result := by
  rw [← value_hashTableDeleteLogged, resizeDepth, h]

/-! ### At most half full -/

/-- The counter `active` plays no part. -/
lemma HalfFull.withActive (ht : HalfFull t) (active : UInt32) :
    HalfFull { t with active := active } :=
  ⟨⟨⟨ht.bins_length, ht.empty_of_not_inProbe⟩, ht.size_pow, ht.used_eq⟩, ht.load⟩

/-- The number of bins that are not empty. -/
def nonempty (bins : List (HashBin K V)) : ℕ := bins.countP fun b => !b.isEmpty

/-- The bins to be moved out of an array are in probe. -/
lemma Tallied.nonempty_le_used (ht : Tallied t) : nonempty t.bins ≤ t.used.toNat := by
  rw [ht.used_eq]
  refine List.countP_mono_left fun b hb hne => ?_
  exact inProbe_of_active (ht.active_of_nonempty hb ((Bool.not_eq_true' _).mp hne))

lemma clearedTable_halfFull (t : HashTable K V) {m : UInt32}
    (hm : ∃ e, 3 ≤ e ∧ m.toNat = 2 ^ e) : HalfFull (clearedTable t m) :=
  ⟨clearedTable_tallied t hm, Nat.zero_le _⟩

/-- Both searches of an insertion find a bin if one is not in probe. -/
lemma exists_insertPair (kt : KeyType K) (ht : Tallied t) (hused : t.used.toNat < t.size.toNat)
    (hashKey : UInt32) (key : Option K) (val : Option V) :
    ∃ t', insertPair kt t hashKey key val = .ok t' := by
  obtain ⟨j, hj⟩ : ∃ j, findKey kt t hashKey key = some j := findKey_isSome ht hused hashKey key
  obtain ⟨j', hj'⟩ := findEmpty_isSome ht hused hashKey
  rw [insertPair, hj]
  cases hin : (t.bin j).inProbe with
  | true => exact ⟨storeInBin t j hashKey key val, by simp [hin]⟩
  | false => exact ⟨storeInBin t j' hashKey key val, by simp [hin, hj']⟩

/-- The pair that an insertion stores stands in the array, and at most one more bin is in probe. -/
lemma insertPair_tallied (kt : KeyType K) (ht : Tallied t) (hused : t.used.toNat < t.size.toNat)
    (hashKey : UInt32) (key : Option K) (val : Option V) :
    ∃ t', insertPair kt t hashKey key val = .ok t' ∧ Tallied t' ∧ t'.size = t.size ∧
      t'.used.toNat ≤ t.used.toNat + 1 ∧ ∃ b ∈ t'.bins, b.isEmpty = false := by
  obtain ⟨t', hok⟩ := exists_insertPair kt ht hused hashKey key val
  obtain ⟨j, hj, rfl⟩ := insertPair_eq_ok hok
  refine ⟨_, hok, ht.storeInBin hused hj, storeInBin_size, ?_,
    ⟨true, false, hashKey, key, val⟩, ?_, rfl⟩
  · rw [storeInBin_used_toNat hused]
    split_ifs <;> omega
  · rw [storeInBin_bins]
    exact List.mem_set (by rwa [ht.bins_length]) _

/-! ### One step of the recursion -/

section Step

variable {fuel level : ℕ} {hashKey : UInt32} {key : Option K} {val : Option V}
  {t₁ : HashTable K V}

lemma insertInternalLogged_of_error {e : HashFault}
    (hpair : insertPair kt t hashKey key val = .error e) :
    insertInternalLogged kt fuel level t hashKey key val =
      ⟨.error e, [.insert level t.size key val]⟩ := by
  rw [insertInternalLogged, hpair, tell_bind]
  rfl

/-- The insertion ends with the pair stored. -/
lemma insertInternalLogged_of_fits (hpair : insertPair kt t hashKey key val = .ok t₁)
    (hload : overloaded t₁ = false) :
    insertInternalLogged kt fuel level t hashKey key val =
      ⟨.ok t₁, [.insert level t.size key val]⟩ := by
  rw [insertInternalLogged, hpair, tell_bind]
  simp only [hload, Bool.false_eq_true, if_false]
  rfl

/-- The insertion goes on with a growing resize. -/
lemma insertInternalLogged_of_overloaded (hpair : insertPair kt t hashKey key val = .ok t₁)
    (hload : overloaded t₁ = true) {result : Except HashFault (HashTable K V)}
    {log : List (TableEvent K V)}
    (hresize : resizeLogged (insertInternalLogged kt fuel (level + 1)) level t₁ (t₁.size * 2) =
      ⟨result, log⟩) :
    insertInternalLogged kt (fuel + 1) level t hashKey key val =
      ⟨result, .insert level t.size key val :: log⟩ := by
  rw [insertInternalLogged, hpair, tell_bind]
  simp only [hload, if_true, hresize]

end Step

section Move

variable {insert : InsertLogged K V} {b : HashBin K V} {bins : List (HashBin K V)}
  {t₁ : HashTable K V} {result : Except HashFault (HashTable K V)}
  {log log₁ : List (TableEvent K V)}

lemma moveBinsLogged_of_empty (he : b.isEmpty = true) :
    moveBinsLogged insert t (b :: bins) = moveBinsLogged insert t bins := by
  rw [moveBinsLogged, if_pos he]

lemma moveBinsLogged_of_ok (he : b.isEmpty = false)
    (hins : insert t b.hashKey b.key b.val = ⟨.ok t₁, log₁⟩)
    (hrest : moveBinsLogged insert t₁ bins = ⟨result, log⟩) :
    moveBinsLogged insert t (b :: bins) = ⟨result, log₁ ++ log⟩ := by
  rw [moveBinsLogged, he, if_neg Bool.false_ne_true, hins, mk_bind]
  simp only [hrest]

lemma moveBinsLogged_of_error {e : HashFault} (he : b.isEmpty = false)
    (hins : insert t b.hashKey b.key b.val = ⟨.error e, log₁⟩) :
    moveBinsLogged insert t (b :: bins) = ⟨.error e, log₁⟩ := by
  rw [moveBinsLogged, he, if_neg Bool.false_ne_true, hins, mk_bind]
  simp only [value_pure, log_pure, List.append_nil]

lemma resizeLogged_of_move {level : ℕ} {m : UInt32}
    (hmove : moveBinsLogged insert (clearedTable t m) t.bins = ⟨result, log⟩) :
    resizeLogged insert level t m = ⟨result, .resize level m :: log⟩ := by
  rw [resizeLogged, tell_bind, hmove]

end Move

/-! ### Moving bins -/

/-- The calls of `hash_table_insert_internal` for the bins that are not empty, one for each, in the
order of the array. -/
def moved (level : ℕ) (size : UInt32) (bins : List (HashBin K V)) : List (TableEvent K V) :=
  (bins.filter fun b => !b.isEmpty).map fun b => .insert level size b.key b.val

section Moved

variable (level : ℕ) (size : UInt32) {b : HashBin K V} {bins : List (HashBin K V)}

lemma nonempty_cons_of_empty (he : b.isEmpty = true) : nonempty (b :: bins) = nonempty bins :=
  List.countP_cons_of_neg (by simp [he])

lemma nonempty_cons (he : b.isEmpty = false) : nonempty (b :: bins) = nonempty bins + 1 :=
  List.countP_cons_of_pos (by simp [he])

lemma moved_cons_of_empty (he : b.isEmpty = true) :
    moved level size (b :: bins) = moved level size bins := by
  rw [moved, List.filter_cons_of_neg (by simp [he]), moved]

lemma moved_cons (he : b.isEmpty = false) :
    moved level size (b :: bins) = .insert level size b.key b.val :: moved level size bins := by
  rw [moved, List.filter_cons_of_pos (by simp [he]), List.map_cons, moved]

end Moved

/-- Bins moved into a table with twice the room for all of them: none of the insertions resizes. -/
lemma moveBinsLogged_fits (kt : KeyType K) (level : ℕ) (bins : List (HashBin K V)) :
    ∀ t : HashTable K V, Tallied t → 2 * (t.used.toNat + nonempty bins) ≤ t.size.toNat →
      ∃ t', (∀ fuel, moveBinsLogged (insertInternalLogged kt fuel level) t bins =
          ⟨.ok t', moved level t.size bins⟩) ∧
        Tallied t' ∧ t'.size = t.size ∧ t'.used.toNat ≤ t.used.toNat + nonempty bins := by
  induction bins with
  | nil =>
    intro t ht _
    exact ⟨t, fun _ => rfl, ht, rfl, Nat.le_add_right _ _⟩
  | cons b bins ih =>
    intro t ht hroom
    cases he : b.isEmpty with
    | true =>
      rw [nonempty_cons_of_empty he] at hroom ⊢
      obtain ⟨t', hok, hrest⟩ := ih t ht hroom
      refine ⟨t', fun fuel => ?_, hrest⟩
      rw [moveBinsLogged_of_empty he, hok, moved_cons_of_empty level t.size he]
    | false =>
      rw [nonempty_cons he] at hroom ⊢
      obtain ⟨t₁, hpair, ht₁, hsize, hused, -⟩ :=
        insertPair_tallied kt ht (by omega) b.hashKey b.key b.val
      -- the room that is asked for covers the bin just taken
      have hload : overloaded t₁ = false :=
        overloaded_eq_false_iff.2 (by rw [hsize]; omega)
      obtain ⟨t', hok, ht', hsize', hused'⟩ := ih t₁ ht₁ (by rw [hsize]; omega)
      refine ⟨t', fun fuel => ?_, ht', hsize'.trans hsize, by omega⟩
      rw [moveBinsLogged_of_ok he (insertInternalLogged_of_fits hpair hload) (hok fuel), hsize,
        moved_cons level t.size he]
      rfl

/-- A growing resize: none of the insertions resizes. -/
lemma resizeLogged_fits (kt : KeyType K) (level : ℕ) (t : HashTable K V) {m : UInt32}
    (hm : ∃ e, 3 ≤ e ∧ m.toNat = 2 ^ e) (hroom : 2 * nonempty t.bins ≤ m.toNat) :
    ∃ t', (∀ fuel, resizeLogged (insertInternalLogged kt fuel (level + 1)) level t m =
        ⟨.ok t', .resize level m :: moved (level + 1) m t.bins⟩) ∧
      HalfFull t' ∧ t'.size = m ∧ t'.used.toNat ≤ nonempty t.bins := by
  have hclear := clearedTable_halfFull t hm
  have hzero : (clearedTable t m).used.toNat = 0 := rfl
  obtain ⟨t', hok, ht', hsize, hused⟩ := moveBinsLogged_fits kt (level + 1) t.bins
    (clearedTable t m) hclear.toTallied (by rw [hzero, Nat.zero_add]; exact hroom)
  rw [hzero, Nat.zero_add] at hused
  have hsize' : t'.size = m := hsize
  refine ⟨t', fun fuel => resizeLogged_of_move (hok fuel), ⟨ht', ?_⟩, hsize', hused⟩
  rw [hsize']
  omega

/-- What a resize to the half size `m` reports when it moves `bins`: every bin is inserted into the
small table, or there is one nested growth, to the old size, with no resize in it, and every bin
behind it is inserted into the table of the old size. -/
inductive ShrinkLog (level : ℕ) (m size : UInt32) (bins : List (HashBin K V)) :
    List (TableEvent K V) → Prop
  | fits : ShrinkLog level m size bins (moved level m bins)
  | grows (first rest : List (HashBin K V)) (half : HashTable K V) (hbins : bins = first ++ rest)
      (hhalf : half.size = m) :
      ShrinkLog level m size bins (moved level m first ++
        .resize level size :: moved (level + 1) size half.bins ++ moved level size rest)

lemma ShrinkLog.cons_of_empty {level : ℕ} {m size : UInt32} {b : HashBin K V}
    {bins : List (HashBin K V)} {log : List (TableEvent K V)} (he : b.isEmpty = true)
    (h : ShrinkLog level m size bins log) : ShrinkLog level m size (b :: bins) log := by
  cases h with
  | fits =>
    rw [← moved_cons_of_empty level m he]
    exact .fits
  | grows first rest half hbins hhalf =>
    rw [← moved_cons_of_empty level m he]
    exact .grows (b :: first) rest half (congrArg (b :: ·) hbins) hhalf

lemma ShrinkLog.cons {level : ℕ} {m size : UInt32} {b : HashBin K V}
    {bins : List (HashBin K V)} {log : List (TableEvent K V)} (he : b.isEmpty = false)
    (h : ShrinkLog level m size bins log) :
    ShrinkLog level m size (b :: bins) (.insert level m b.key b.val :: log) := by
  cases h with
  | fits =>
    rw [← moved_cons level m he]
    exact .fits
  | grows first rest half hbins hhalf =>
    rw [← List.cons_append, ← List.cons_append, ← moved_cons level m he]
    exact .grows (b :: first) rest half (congrArg (b :: ·) hbins) hhalf

/-- Bins moved into a table that is at least as large as the contents. -/
lemma moveBinsLogged_shrink (kt : KeyType K) (level : ℕ) (bins : List (HashBin K V)) :
    ∀ t : HashTable K V, HalfFull t → t.size.toNat < 2 ^ 31 →
      t.used.toNat + nonempty bins ≤ t.size.toNat →
      ∃ t' log, (∀ fuel, moveBinsLogged (insertInternalLogged kt (fuel + 1) level) t bins =
          ⟨.ok t', log⟩) ∧
        HalfFull t' ∧ ShrinkLog level t.size (t.size * 2) bins log := by
  induction bins with
  | nil =>
    intro t ht _ _
    exact ⟨t, [], fun _ => rfl, ht, .fits⟩
  | cons b bins ih =>
    intro t ht hfit hroom
    cases he : b.isEmpty with
    | true =>
      rw [nonempty_cons_of_empty he] at hroom
      obtain ⟨t', log, hok, ht', hlog⟩ := ih t ht hfit hroom
      refine ⟨t', log, fun fuel => ?_, ht', hlog.cons_of_empty he⟩
      rw [moveBinsLogged_of_empty he, hok]
    | false =>
      rw [nonempty_cons he] at hroom
      obtain ⟨t₁, hpair, ht₁, hsize, hused, -⟩ :=
        insertPair_tallied kt ht.toTallied ht.used_lt_size b.hashKey b.key b.val
      cases hload : overloaded t₁ with
      | false =>
        obtain ⟨t', log, hok, ht', hlog⟩ := ih t₁ ⟨ht₁, overloaded_eq_false_iff.1 hload⟩
          (by rw [hsize]; exact hfit) (by rw [hsize]; omega)
        rw [hsize] at hlog
        refine ⟨t', .insert level t.size b.key b.val :: log, fun fuel => ?_, ht', hlog.cons he⟩
        exact moveBinsLogged_of_ok he (insertInternalLogged_of_fits hpair hload) (hok fuel)
      | true =>
        -- the nested growth: from here on the table has the old size
        obtain ⟨hdouble, hpow⟩ := double_size ht₁.size_pow (by rw [hsize]; exact hfit)
        have hmoved := ht₁.nonempty_le_used
        obtain ⟨t₂, hok₂, ht₂, hsize₂, hused₂⟩ :=
          resizeLogged_fits kt level t₁ hpow (by rw [hdouble, hsize]; omega)
        have hsize₂' : t₂.size.toNat = 2 * t.size.toNat := by rw [hsize₂, hdouble, hsize]
        obtain ⟨t', hok, ht', hsize', hused'⟩ :=
          moveBinsLogged_fits kt level bins t₂ ht₂.toTallied (by rw [hsize₂']; omega)
        have hlog : ShrinkLog level t.size (t.size * 2) (b :: bins) (moved level t.size [b] ++
            .resize level (t.size * 2) :: moved (level + 1) (t.size * 2) t₁.bins ++
            moved level (t.size * 2) bins) := .grows [b] bins t₁ rfl hsize
        refine ⟨t', _, fun fuel => ?_, ⟨ht', by rw [hsize', hsize₂']; omega⟩, hlog⟩
        rw [moveBinsLogged_of_ok he
          (insertInternalLogged_of_overloaded hpair hload (hok₂ fuel)) (hok (fuel + 1)), hsize₂,
          hsize, moved_cons level t.size he]
        rfl

/-- A shrinking resize. -/
lemma resizeLogged_shrink (kt : KeyType K) (t : HashTable K V) {m : UInt32}
    (hm : ∃ e, 3 ≤ e ∧ m.toNat = 2 ^ e) (hfit : m.toNat < 2 ^ 31)
    (hroom : nonempty t.bins ≤ m.toNat) :
    ∃ t' log, (∀ fuel, resizeLogged (insertInternalLogged kt (fuel + 1) 1) 0 t m =
        ⟨.ok t', .resize 0 m :: log⟩) ∧
      HalfFull t' ∧ ShrinkLog 1 m (m * 2) t.bins log := by
  have hzero : (clearedTable t m).used.toNat = 0 := rfl
  obtain ⟨t', log, hok, ht', hlog⟩ := moveBinsLogged_shrink kt 1 t.bins (clearedTable t m)
    (clearedTable_halfFull t hm) hfit (by rw [hzero, Nat.zero_add]; exact hroom)
  exact ⟨t', log, fun fuel => resizeLogged_of_move (hok fuel), ht', hlog⟩

/-- Nothing can be moved into an array of size zero: the first insertion ends in an `assert`. -/
lemma moveBinsLogged_zero (kt : KeyType K) (level : ℕ) (hsize : t.size = 0)
    {bins : List (HashBin K V)} (hne : ∃ b ∈ bins, b.isEmpty = false) :
    ∃ key val, ∀ fuel, moveBinsLogged (insertInternalLogged kt fuel level) t bins =
      ⟨.error .assertFailed, [.insert level 0 key val]⟩ := by
  induction bins with
  | nil => simp at hne
  | cons b bins ih =>
    cases he : b.isEmpty with
    | true =>
      obtain ⟨c, hc, hce⟩ := hne
      rcases List.mem_cons.1 hc with rfl | hc
      · simp [he] at hce
      · obtain ⟨key, val, hmove⟩ := ih ⟨c, hc, hce⟩
        exact ⟨key, val, fun fuel => (moveBinsLogged_of_empty he).trans (hmove fuel)⟩
    | false =>
      have hpair := insertPair_zero kt hsize b.hashKey b.key b.val
      refine ⟨b.key, b.val, fun fuel => ?_⟩
      rw [moveBinsLogged_of_error he (insertInternalLogged_of_error hpair), hsize]

/-! ### The operations of the interface -/

/-- How a call of `hash_table_insert` on the table `t` ends, and what it reports. -/
inductive InsertLog (kt : KeyType K) (t : HashTable K V) (hashKey : UInt32) (key : Option K)
    (val : Option V) : Except HashFault (HashTable K V) → List (TableEvent K V) → Prop
  /-- The pair is stored, and nothing is resized. -/
  | stored (t' : HashTable K V) :
      InsertLog kt t hashKey key val (.ok t') [.insert 0 t.size key val]
  /-- The pair is stored, and then each bin is inserted into a table of twice the size. -/
  | grows (t₁ t' : HashTable K V) (hpair : insertPair kt t hashKey key val = .ok t₁)
      (hfit : t.size.toNat < 2 ^ 31) :
      InsertLog kt t hashKey key val (.ok t') (.insert 0 t.size key val ::
        .resize 0 (t.size * 2) :: moved 1 (t.size * 2) t₁.bins)
  /-- Twice the size overflows to zero, and the first bin that is to be moved finds no place. -/
  | overflows (hsize : t.size.toNat = 2 ^ 31) (key' : Option K) (val' : Option V) :
      InsertLog kt t hashKey key val (.error .assertFailed)
        [.insert 0 t.size key val, .resize 0 0, .insert 1 0 key' val']

/-- What a call of `hash_table_delete` on the table `t` reports. -/
inductive DeleteLog (kt : KeyType K) (t : HashTable K V) (k : K) : List (TableEvent K V) → Prop
  /-- Nothing is resized. -/
  | freed : DeleteLog kt t k []
  /-- After the bin of the key was freed the table is resized to half of its size. -/
  | shrinks (j : ℕ) (log : List (TableEvent K V)) (hj : findKey kt t (kt.hash k) (some k) = some j)
      (hlog : ShrinkLog 1 (t.size / 2) t.size (freeBin t j).bins log) :
      DeleteLog kt t k (.resize 0 (t.size / 2) :: log)

lemma hashTableInsertLogged_spec (kt : KeyType K) (vt : ValueType V) (ht : HalfFull t) (k : K)
    (v : Option V) :
    ∃ result log, (∀ fuel, hashTableInsertLogged kt vt (fuel + 1) t k v = ⟨result, log⟩) ∧
      (∀ t', result = .ok t' → HalfFull t') ∧
      InsertLog kt t (kt.hash k) (some (kt.cpy k)) (v.map vt.cpy) result log := by
  obtain ⟨t₁, hpair, ht₁, hsize, hused, hne⟩ := insertPair_tallied kt ht.toTallied ht.used_lt_size
    (kt.hash k) (some (kt.cpy k)) (v.map vt.cpy)
  cases hload : overloaded t₁ with
  | false =>
    refine ⟨.ok t₁, _, fun fuel => insertInternalLogged_of_fits hpair hload, ?_, .stored t₁⟩
    rintro _ ⟨⟩
    exact ⟨ht₁, overloaded_eq_false_iff.1 hload⟩
  | true =>
    rcases ht.size_le.lt_or_eq with hfit | hfull
    · obtain ⟨hdouble, hpow⟩ := double_size ht₁.size_pow (by rw [hsize]; exact hfit)
      have hmoved := ht₁.nonempty_le_used
      have hlt := ht.used_lt_size
      obtain ⟨t', hok, ht', -, -⟩ :=
        resizeLogged_fits kt 0 t₁ hpow (by rw [hdouble, hsize]; omega)
      rw [hsize] at hok
      refine ⟨.ok t', _, fun fuel => ?_, ?_, .grows t₁ t' hpair hfit⟩
      · exact insertInternalLogged_of_overloaded hpair hload (hsize ▸ hok fuel)
      · rintro _ ⟨⟩
        exact ht'
    · -- the new size is zero, and the pair just stored is in the way
      have hzero : t₁.size * 2 = 0 := double_size_of_full (by rw [hsize, hfull])
      obtain ⟨key', val', hmove⟩ := moveBinsLogged_zero (t := clearedTable t₁ 0) kt 1 rfl hne
      refine ⟨.error .assertFailed, _, fun fuel => ?_, ?_, .overflows hfull key' val'⟩
      · refine insertInternalLogged_of_overloaded hpair hload ?_
        rw [hzero]
        exact resizeLogged_of_move (hmove fuel)
      · rintro _ ⟨⟩

lemma hashTableDeleteLogged_spec (kt : KeyType K) (ht : HalfFull t) (k : K) :
    ∃ t' log, (∀ fuel, hashTableDeleteLogged kt (fuel + 1) t k = ⟨.ok t', log⟩) ∧
      HalfFull t' ∧ DeleteLog kt t k log := by
  obtain ⟨j, hj⟩ : ∃ j, findKey kt t (kt.hash k) (some k) = some j :=
    findKey_isSome ht.toTallied ht.used_lt_size (kt.hash k) (some k)
  have hfree := ht.toTallied.freeBin j
  have hload := ht.load
  simp only [hashTableDeleteLogged, hj]
  cases hunder : underloaded (freeBin t j) with
  | false =>
    exact ⟨freeBin t j, [], fun _ => rfl, ⟨hfree, by simpa using hload⟩, .freed⟩
  | true =>
    simp only [underloaded, Bool.and_eq_true, decide_eq_true_iff, freeBin_size] at hunder
    obtain ⟨hhalf, hpow⟩ := half_size ht.size_pow (UInt32.lt_iff_toNat_lt.1 hunder.1)
    have hle := ht.size_le
    have hmoved := hfree.nonempty_le_used
    rw [freeBin_used] at hmoved
    -- half of the bins are enough, but what is moved may fill more than half of these
    obtain ⟨t', log, hok, ht', hlog⟩ :=
      resizeLogged_shrink kt (freeBin t j) hpow (by omega) (by omega)
    have hback : t.size / 2 * 2 = t.size := by
      obtain ⟨e, he3, he⟩ := ht.size_pow
      have heven : 2 ∣ t.size.toNat := he ▸ dvd_pow_self 2 (by omega)
      rw [← UInt32.toNat_inj, (double_size hpow (by omega)).1, hhalf, Nat.mul_div_cancel' heven]
    rw [hback] at hlog
    refine ⟨t', _, fun fuel => ?_, ht', .shrinks j log hj hlog⟩
    rw [if_pos rfl, freeBin_size, hok]

/-! ### Reachable tables -/

/-- The tables that insertions and deletions reach from a new one.  The values may be `NULL`, and
the counter `active` may hold anything in between. -/
inductive Reached (kt : KeyType K) (vt : ValueType V) : HashTable K V → Prop
  | create : Reached kt vt hashTableCreate
  | insert {t t' : HashTable K V} (k : K) (v : Option V) (ht : Reached kt vt t)
      (hok : hashTableInsert kt vt t k v = .ok t') : Reached kt vt t'
  | delete {t t' : HashTable K V} (k : K) (ht : Reached kt vt t)
      (hok : hashTableDelete kt t k = .ok t') : Reached kt vt t'
  | withActive {t : HashTable K V} (active : UInt32) (ht : Reached kt vt t) :
      Reached kt vt { t with active := active }

/-- A run of insertions and deletions reaches its table. -/
lemma reached_of_tableRun (ops : List (MapOp K V)) :
    ∀ t, tableRun kt vt ops = .ok t → Reached kt vt t := by
  induction ops using List.reverseRecOn with
  | nil =>
    rintro _ ⟨⟩
    exact .create
  | append_singleton ops op ih =>
    intro t hrun
    obtain ⟨t₀, hrun₀, hstep⟩ := tableRun_prefix hrun
    cases op with
    | insert k v => exact (ih t₀ hrun₀).insert k (some v) hstep
    | delete k => exact (ih t₀ hrun₀).delete k hstep

/-- Every reached table is at most half full. -/
lemma Reached.halfFull (ht : Reached kt vt t) : HalfFull t := by
  induction ht with
  | create => exact clearedTable_halfFull _ ⟨3, le_rfl, rfl⟩
  | insert k v _ hok ih =>
    obtain ⟨result, log, hlogged, hresult, -⟩ := hashTableInsertLogged_spec kt vt ih k v
    exact hresult _ ((hashTableInsert_of_logged hlogged).symm.trans hok)
  | delete k _ hok ih =>
    obtain ⟨t', log, hlogged, ht', -⟩ := hashTableDeleteLogged_spec kt ih k
    obtain rfl := Except.ok.inj ((hashTableDelete_of_logged hlogged).symm.trans hok)
    exact ht'
  | withActive active _ ih => exact ih.withActive active

/-- The resize recursion ends: on every table that insertions and deletions reach, with any key type
and whatever `active` says, an insertion and a deletion have one outcome and one log however many
nested calls of `resize` are followed, as long as it is at least one.  An insertion resizes at most
once, a growing resize starts no other one, and a shrinking one starts at most one growing resize,
after which each bin that is left in the old array is inserted into the table of the old size. -/
theorem resize_terminates (ht : Reached kt vt t) :
    (∀ k v, ∃ result log,
      (∀ fuel, hashTableInsertLogged kt vt (fuel + 1) t k v = ⟨result, log⟩) ∧
      hashTableInsert kt vt t k v = result ∧
      InsertLog kt t (kt.hash k) (some (kt.cpy k)) (v.map vt.cpy) result log) ∧
    ∀ k, ∃ t' log,
      (∀ fuel, hashTableDeleteLogged kt (fuel + 1) t k = ⟨.ok t', log⟩) ∧
      hashTableDelete kt t k = .ok t' ∧ DeleteLog kt t k log := by
  constructor
  · intro k v
    obtain ⟨result, log, hlogged, -, hlog⟩ := hashTableInsertLogged_spec kt vt ht.halfFull k v
    exact ⟨result, log, hlogged, hashTableInsert_of_logged hlogged, hlog⟩
  · intro k
    obtain ⟨t', log, hlogged, -, hlog⟩ := hashTableDeleteLogged_spec kt ht.halfFull k
    exact ⟨t', log, hlogged, hashTableDelete_of_logged hlogged, hlog⟩

/-- With eight keys in sixteen bins, the deletion of a ninth one ends, whatever `active` is. -/
theorem resize_terminates_eight :
    ∃ t, tableRun uint32KeyType (ptrValueType ℕ) (distinctInserts 8) = .ok t ∧
      ∀ active, ∃ t', hashTableDelete uint32KeyType { t with active := active } 8 = .ok t' := by
  obtain ⟨t, hrun, -, -⟩ := tableRun_distinctInserts (by norm_num : 8 ≤ 2 ^ 30)
  refine ⟨t, hrun, fun active => ?_⟩
  obtain ⟨-, hdelete⟩ := resize_terminates ((reached_of_tableRun _ t hrun).withActive active)
  obtain ⟨t', -, -, hok, -⟩ := hdelete 8
  exact ⟨t', hok⟩

end Vm32
