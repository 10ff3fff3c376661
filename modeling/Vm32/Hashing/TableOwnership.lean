/-
# Ownership of keys and values

The table owns the copies that the two `cpy` functions return: each of them is stored in a live bin
until it is handed to `del`.  The pairs in the live bins and those that were freed are therefore,
together, the pairs that the insertions have copied, through every overwriting, deletion and
resize.  This needs nothing of the key type: not even a `cmp` that is an equivalence.
-/
import Mathlib.Data.List.GetD
import Vm32.Hashing.TableMap

namespace Vm32

open LabelledRun List

variable {K V : Type*} {kt : KeyType K} {vt : ValueType V} {t t' : HashTable K V}

/-! ### Pairs -/

/-- The pairs that the live bins hold. -/
def HashTable.stored (t : HashTable K V) : List (Option K × Option V) :=
  t.live.map fun b => (b.key, b.val)

/-- The pairs that the table is accountable for: it still holds them, or it has freed them. -/
def HashTable.accounted (t : HashTable K V) : List (Option K × Option V) := t.stored ++ t.freed

/-- A search ends at a bin of the array. -/
lemma probeLoop_lt {hashKey i : UInt32} {stop : HashBin K V → Bool} {n j : ℕ}
    (hpos : 0 < t.size.toNat) (hj : probeLoop t hashKey stop n i = some j) : j < t.size.toNat := by
  induction n generalizing i with
  | zero => cases hj
  | succ n ih =>
    simp only [probeLoop] at hj
    split_ifs at hj with hstop
    · obtain rfl := Option.some.inj hj
      have hone : (1 : UInt32) ≤ t.size := UInt32.le_iff_toNat_le.2 hpos
      have hle : (probe hashKey i t.size).toNat ≤ (t.size - 1).toNat := by
        rw [probe, UInt32.toNat_and]
        exact Nat.and_le_right
      rw [UInt32.toNat_sub_of_le _ _ hone, UInt32.toNat_one] at hle
      omega
    · exact ih hj

lemma searchLoop_lt {hashKey : UInt32} {stop : HashBin K V → Bool} {j : ℕ}
    (hj : probeLoop t hashKey stop t.size.toNat 0 = some j) : j < t.size.toNat := by
  rcases Nat.eq_zero_or_pos t.size.toNat with hzero | hpos
  · rw [hzero] at hj
    cases hj
  · exact probeLoop_lt hpos hj

/-! ### Bins -/

section Bins

variable {j : ℕ} {hashKey : UInt32} {key : Option K} {val : Option V}

/-- The live bins before and after a write to the array differ in that bin only. -/
lemma live_split {b : HashBin K V} (ht' : t'.bins = t.bins.set j b) (hj : j < t.bins.length) :
    ∃ rest, t'.live ~ (if isActiveBin b then [b] else []) ++ rest ∧
      t.live ~ (if isActiveBin (t.bin j) then [t.bin j] else []) ++ rest := by
  refine ⟨(t.bins.eraseIdx j).filter isActiveBin, ?_, ?_⟩
  · have hperm := (List.set_perm_cons_eraseIdx hj b).filter isActiveBin
    rw [HashTable.live, ht']
    refine hperm.trans (Perm.of_eq ?_)
    rw [List.filter_cons]
    split_ifs <;> rfl
  · have hperm := (List.getElem_cons_eraseIdx_perm hj).symm.filter isActiveBin
    rw [HashTable.bin_eq_getElem hj]
    refine hperm.trans (Perm.of_eq ?_)
    rw [List.filter_cons]
    split_ifs <;> rfl

/-- A write of the bin `b` that frees the pair of the old bin, if it is live. -/
lemma accounted_write {b : HashBin K V} (ht' : t'.bins = t.bins.set j b) (hj : j < t.bins.length)
    (hfreed : t'.freed =
      t.freed ++ if isActiveBin (t.bin j) then [((t.bin j).key, (t.bin j).val)] else []) :
    t'.accounted ~ (if isActiveBin b then [(b.key, b.val)] else []) ++ t.accounted := by
  -- the write moves the old pair of bin `j` from the stored to the freed ones
  obtain ⟨rest, hnew, hold⟩ := live_split ht' hj
  let pairs : List (HashBin K V) → List (Option K × Option V) := List.map fun b => (b.key, b.val)
  have hone : ∀ c : HashBin K V, pairs (if isActiveBin c then [c] else []) =
      if isActiveBin c then [(c.key, c.val)] else [] := by
    intro c
    split_ifs <;> rfl
  have hnew : t'.stored ~ pairs (if isActiveBin b then [b] else []) ++ pairs rest := by
    rw [← List.map_append]
    exact hnew.map _
  have hold : t.stored ~ pairs (if isActiveBin (t.bin j) then [t.bin j] else []) ++ pairs rest := by
    rw [← List.map_append]
    exact hold.map _
  rw [hone] at hnew hold
  generalize (if isActiveBin b then [(b.key, b.val)] else []) = written at hnew ⊢
  generalize (if isActiveBin (t.bin j) then [((t.bin j).key, (t.bin j).val)] else []) = gone
    at hold hfreed
  calc t'.accounted = t'.stored ++ (t.freed ++ gone) := by rw [HashTable.accounted, hfreed]
    _ ~ (written ++ pairs rest) ++ (gone ++ t.freed) := hnew.append perm_append_comm
    _ ~ written ++ ((gone ++ pairs rest) ++ t.freed) := by
      rw [List.append_assoc, List.append_assoc]
      refine Perm.append_left written ?_
      rw [← List.append_assoc, ← List.append_assoc]
      exact perm_append_comm.append_right t.freed
    _ ~ written ++ t.accounted := Perm.append_left written (hold.symm.append_right t.freed)

lemma freeBin_freed (t : HashTable K V) (j : ℕ) : (freeBin t j).freed =
    t.freed ++ if isActiveBin (t.bin j) then [((t.bin j).key, (t.bin j).val)] else [] := by
  simp only [freeBin]
  split_ifs
  · rfl
  · exact (List.append_nil _).symm

/-- What `free_bin` hands to `del` leaves a live bin. -/
lemma accounted_freeBin (t : HashTable K V) (j : ℕ) : (freeBin t j).accounted ~ t.accounted := by
  cases ha : isActiveBin (t.bin j) with
  | false => rw [freeBin_of_not_active ha]
  | true =>
    have hwrite := accounted_write (freeBin_bins ha) (HashTable.active_lt ha) (freeBin_freed t j)
    rwa [if_neg (by simp [isActiveBin]), List.nil_append] at hwrite

/-- What `store_in_bin` overwrites was handed to `del`. -/
lemma accounted_storeInBin (hj : j < t.bins.length) :
    (storeInBin t j hashKey key val).accounted ~ (key, val) :: t.accounted := by
  have hfreed : (storeInBin t j hashKey key val).freed =
      t.freed ++ if isActiveBin (t.bin j) then [((t.bin j).key, (t.bin j).val)] else [] :=
    freeBin_freed _ j
  exact accounted_write (storeInBin_bins t j hashKey key val) hj hfreed

end Bins

/-! ### Insertion and resizing -/

/-- The table after an insertion is accountable for one more pair. -/
def Accounts (insertInternal : InsertInternal K V) : Prop :=
  ∀ t hashKey key val t', Sized t → insertInternal t hashKey key val = .ok t' →
    Sized t' ∧ t'.accounted ~ (key, val) :: t.accounted

section Insertion

variable {insert : InsertInternal K V}

/-- Steps 1 and 2 of an insertion store the pair in a bin of the array. -/
lemma insertPair_eq_ok {hashKey : UInt32} {key : Option K} {val : Option V}
    (hok : insertPair kt t hashKey key val = .ok t') :
    ∃ j < t.size.toNat, t' = storeInBin t j hashKey key val := by
  rw [insertPair] at hok
  cases hfind : findKey kt t hashKey key with
  | none => simp [hfind] at hok
  | some j =>
    simp only [hfind] at hok
    split_ifs at hok
    · exact ⟨j, searchLoop_lt hfind, (Except.ok.inj hok).symm⟩
    · cases hempty : findEmpty t hashKey with
      | none => simp [hempty] at hok
      | some j' =>
        simp only [hempty] at hok
        exact ⟨j', searchLoop_lt hempty, (Except.ok.inj hok).symm⟩

lemma accounts_insertPair (kt : KeyType K) : Accounts (insertPair (V := V) kt) := by
  intro t hashKey key val t' ht hok
  obtain ⟨j, hj, rfl⟩ := insertPair_eq_ok hok
  exact ⟨ht.storeInBin, accounted_storeInBin (by rwa [ht.bins_length])⟩

/-- The loop of `init_table` moves the pairs of the old bins that are not empty. -/
lemma accounted_moveBins (hinsert : Accounts insert) {bins : List (HashBin K V)} (ht : Sized t)
    (hok : moveBins insert t bins = .ok t') :
    Sized t' ∧ t'.accounted ~
      (bins.filter fun b => !b.isEmpty).map (fun b => (b.key, b.val)) ++ t.accounted := by
  induction bins generalizing t with
  | nil =>
    obtain rfl := Except.ok.inj hok
    exact ⟨ht, Perm.refl _⟩
  | cons b bins ih =>
    rw [moveBins] at hok
    cases he : b.isEmpty with
    | true =>
      rw [he, if_pos rfl] at hok
      rw [List.filter_cons_of_neg (by simp [he])]
      exact ih ht hok
    | false =>
      rw [he, if_neg Bool.false_ne_true] at hok
      cases hone : insert t b.hashKey b.key b.val with
      | error e => simp [hone] at hok
      | ok t'' =>
        simp only [hone] at hok
        obtain ⟨ht'', hpair⟩ := hinsert t b.hashKey b.key b.val t'' ht hone
        obtain ⟨ht', hrest⟩ := ih ht'' hok
        refine ⟨ht', hrest.trans ?_⟩
        rw [List.filter_cons_of_pos (by simp [he]), List.map_cons, List.cons_append]
        exact (hpair.append_left _).trans perm_middle

/-- A resize copies nothing and frees nothing. -/
lemma accounted_resize (hinsert : Accounts insert) {size : UInt32} (ht : Sized t)
    (hok : resize insert t size = .ok t') : Sized t' ∧ t'.accounted ~ t.accounted := by
  have hmoved : t.bins.filter (fun b => !b.isEmpty) = t.live := by
    refine List.filter_congr fun b hb => ?_
    cases he : b.isEmpty with
    | true => simp [isActiveBin, he]
    | false => rw [ht.active_of_nonempty hb he]; rfl
  obtain ⟨ht', haccounted⟩ := accounted_moveBins hinsert (clearedTable_sized t size) hok
  refine ⟨ht', haccounted.trans (Perm.of_eq ?_)⟩
  rw [hmoved, HashTable.accounted, HashTable.stored, clearedTable_live]
  rfl

lemma accounts_insertInternal (kt : KeyType K) (fuel : ℕ) :
    Accounts (insertInternal (V := V) kt fuel) := by
  induction fuel with
  | zero =>
    intro t hashKey key val t' ht hok
    rw [insertInternal] at hok
    cases hpair : insertPair kt t hashKey key val with
    | error e => simp [hpair] at hok
    | ok t'' =>
      simp only [hpair] at hok
      split_ifs at hok
      obtain rfl := Except.ok.inj hok
      exact accounts_insertPair kt t hashKey key val t'' ht hpair
  | succ fuel ih =>
    intro t hashKey key val t' ht hok
    rw [insertInternal] at hok
    cases hpair : insertPair kt t hashKey key val with
    | error e => simp [hpair] at hok
    | ok t'' =>
      obtain ⟨ht'', hstored⟩ := accounts_insertPair kt t hashKey key val t'' ht hpair
      simp only [hpair] at hok
      split_ifs at hok
      · -- the table grows
        obtain ⟨ht', hmoved⟩ := accounted_resize ih ht'' hok
        exact ⟨ht', hmoved.trans hstored⟩
      · obtain rfl := Except.ok.inj hok
        exact ⟨ht'', hstored⟩

lemma accounted_hashTableInsert {k : K} {v : Option V} (ht : Sized t)
    (hok : hashTableInsert kt vt t k v = .ok t') :
    Sized t' ∧ t'.accounted ~ (some (kt.cpy k), v.map vt.cpy) :: t.accounted :=
  accounts_insertInternal kt resizeDepth t _ _ _ t' ht hok

lemma accounted_hashTableDelete {k : K} (ht : Sized t) (hok : hashTableDelete kt t k = .ok t') :
    Sized t' ∧ t'.accounted ~ t.accounted := by
  rw [hashTableDelete] at hok
  cases hfind : findKey kt t (kt.hash k) (some k) with
  | none => simp [hfind] at hok
  | some j =>
    simp only [hfind] at hok
    have hfreed := accounted_freeBin t j
    split_ifs at hok
    · obtain ⟨ht', hmoved⟩ := accounted_resize (accounts_insertInternal kt resizeDepth)
        (ht.freeBin j) hok
      exact ⟨ht', hmoved.trans hfreed⟩
    · obtain rfl := Except.ok.inj hok
      exact ⟨ht.freeBin j, hfreed⟩

end Insertion

/-! ### Runs -/

/-- The pair that an operation copies. -/
def MapOp.copied (kt : KeyType K) (vt : ValueType V) : MapOp K V → Option (Option K × Option V)
  | .insert k v => some (some (kt.cpy k), some (vt.cpy v))
  | .delete _ => none

/-- After a run the table is accountable for the pairs that the insertions copied. -/
theorem accounted_tableRun {ops : List (MapOp K V)} (hok : tableRun kt vt ops = .ok t) :
    Sized t ∧ t.accounted ~ ops.filterMap (MapOp.copied kt vt) := by
  induction ops using List.reverseRecOn generalizing t with
  | nil =>
    obtain rfl := Except.ok.inj hok
    refine ⟨⟨rfl, fun b hb _ => ?_⟩, Perm.refl _⟩
    rw [List.eq_of_mem_replicate hb]
    rfl
  | append_singleton ops op ih =>
    obtain ⟨t₀, hok₀, hstep⟩ := tableRun_prefix hok
    obtain ⟨ht₀, hbefore⟩ := ih hok₀
    rw [List.filterMap_append]
    cases op with
    | insert k v =>
      obtain ⟨ht, hafter⟩ := accounted_hashTableInsert ht₀ hstep
      exact ⟨ht, hafter.trans ((hbefore.cons _).trans (perm_append_singleton _ _).symm)⟩
    | delete k =>
      obtain ⟨ht, hafter⟩ := accounted_hashTableDelete ht₀ hstep
      exact ⟨ht, (hafter.trans hbefore).trans (Perm.of_eq (List.append_nil _).symm)⟩

/-! ### `hash_table_destroy` -/

section Destroy

lemma active_freeBin {i j : ℕ} (ha : isActiveBin ((freeBin t j).bin i) = true) :
    i ≠ j ∧ isActiveBin (t.bin i) = true := by
  cases hj : isActiveBin (t.bin j) with
  | false =>
    rw [freeBin_of_not_active hj] at ha
    refine ⟨?_, ha⟩
    rintro rfl
    rw [ha] at hj
    cases hj
  | true =>
    rw [HashTable.bin_set (freeBin_bins hj) (HashTable.active_lt hj)] at ha
    split_ifs at ha with hij
    · simp [isActiveBin] at ha
    · exact ⟨hij, ha⟩

/-- The loop over the bins frees what they hold. -/
lemma foldl_freeBin (js : List ℕ) (ht : Sized t) :
    Sized (js.foldl freeBin t) ∧ (js.foldl freeBin t).accounted ~ t.accounted ∧
      ∀ i, isActiveBin ((js.foldl freeBin t).bin i) = true →
        i ∉ js ∧ isActiveBin (t.bin i) = true := by
  induction js generalizing t with
  | nil => exact ⟨ht, Perm.refl _, fun i ha => ⟨List.not_mem_nil, ha⟩⟩
  | cons j js ih =>
    obtain ⟨hsized, haccounted, hactive⟩ := ih (ht.freeBin j)
    refine ⟨hsized, haccounted.trans (accounted_freeBin t j), fun i ha => ?_⟩
    obtain ⟨hnot, ha⟩ := hactive i ha
    obtain ⟨hne, ha⟩ := active_freeBin ha
    exact ⟨List.not_mem_cons_of_ne_of_not_mem hne hnot, ha⟩

/-- A table that is destroyed has freed every pair that it was accountable for. -/
lemma freed_hashTableDestroy (ht : Sized t) : (hashTableDestroy t).freed ~ t.accounted := by
  obtain ⟨hsized, haccounted, hactive⟩ := foldl_freeBin (List.range t.size.toNat) ht
  have hempty : (hashTableDestroy t).live = [] := by
    refine List.filter_eq_nil_iff.2 fun b hb ha => ?_
    obtain ⟨i, hi, rfl⟩ := List.mem_iff_getElem.1 hb
    rw [← HashTable.bin_eq_getElem hi] at ha
    obtain ⟨hnot, ha⟩ := hactive i ha
    have hlt := HashTable.active_lt ha
    rw [ht.bins_length] at hlt
    exact hnot (List.mem_range.2 hlt)
  have hfreed : (hashTableDestroy t).accounted = (hashTableDestroy t).freed := by
    rw [HashTable.accounted, HashTable.stored, hempty]
    rfl
  rw [← hfreed]
  exact haccounted

end Destroy

/-! ### Identities -/

/-- A pointer: what it points to, and the identity that tells it from every other one. -/
structure Ptr (α : Type*) where
  contents : α
  identity : ℕ
deriving DecidableEq, Repr

/-- The key type on pointers: a copy has the identity of the call that made it, which the caller's
pointer brings along, and neither `hash` nor `cmp` looks at identities. -/
def KeyType.tracked (kt : KeyType K) : KeyType (Ptr K) where
  hash p := kt.hash p.contents
  cmp p q := kt.cmp p.contents q.contents
  cpy p := ⟨kt.cpy p.contents, p.identity⟩

/-- The value type on pointers. -/
def ValueType.tracked (vt : ValueType V) : ValueType (Ptr V) where
  cpy p := ⟨vt.cpy p.contents, p.identity⟩

/-- The operation with pointers of the identity `n`. -/
def trackedOp (n : ℕ) : MapOp K V → MapOp (Ptr K) (Ptr V)
  | .insert k v => .insert ⟨k, n⟩ ⟨v, n⟩
  | .delete k => .delete ⟨k, n⟩

/-- The operations with pointers of their own: the `n`th one makes copies of the identity `n`. -/
def tracked (ops : List (MapOp K V)) : List (MapOp (Ptr K) (Ptr V)) := ops.mapIdx trackedOp

/-! ### The run without identities -/

/-- A bin without the identities. -/
def HashBin.erase (b : HashBin (Ptr K) (Ptr V)) : HashBin K V :=
  ⟨b.inProbe, b.isEmpty, b.hashKey, b.key.map Ptr.contents, b.val.map Ptr.contents⟩

/-- A table without the identities. -/
def HashTable.erase (t : HashTable (Ptr K) (Ptr V)) : HashTable K V where
  bins := t.bins.map HashBin.erase
  size := t.size
  used := t.used
  active := t.active
  freed := t.freed.map fun p => (p.1.map Ptr.contents, p.2.map Ptr.contents)

section Erase

variable {t : HashTable (Ptr K) (Ptr V)}

lemma bin_erase (t : HashTable (Ptr K) (Ptr V)) (j : ℕ) : t.erase.bin j = (t.bin j).erase :=
  List.getD_map t.bins HashBin.fresh HashBin.erase

lemma keyInBin_erase (b : HashBin (Ptr K) (Ptr V)) (hashKey : UInt32) (key : Option (Ptr K)) :
    keyInBin kt b.erase hashKey (key.map Ptr.contents) = keyInBin kt.tracked b hashKey key := by
  have hcmp : cmpKeys kt (b.key.map Ptr.contents) (key.map Ptr.contents) =
      cmpKeys kt.tracked b.key key := by
    cases b.key <;> cases key <;> rfl
  rw [keyInBin, keyInBin, ← hcmp]
  rfl

lemma probeLoop_erase {stop : HashBin K V → Bool} {stop' : HashBin (Ptr K) (Ptr V) → Bool}
    (hstop : ∀ b, stop b.erase = stop' b) (hashKey i : UInt32) (n : ℕ) :
    probeLoop t.erase hashKey stop n i = probeLoop t hashKey stop' n i := by
  induction n generalizing i with
  | zero => rfl
  | succ n ih =>
    rw [probeLoop, probeLoop, bin_erase, hstop, ih]
    rfl

lemma findKey_erase (hashKey : UInt32) (key : Option (Ptr K)) :
    findKey kt t.erase hashKey (key.map Ptr.contents) = findKey kt.tracked t hashKey key :=
  probeLoop_erase (fun b => by rw [keyInBin_erase]; rfl) hashKey 0 _

lemma findEmpty_erase (hashKey : UInt32) : findEmpty t.erase hashKey = findEmpty t hashKey :=
  probeLoop_erase (fun _ => rfl) hashKey 0 _

lemma freeBin_erase (t : HashTable (Ptr K) (Ptr V)) (j : ℕ) :
    (freeBin t j).erase = freeBin t.erase j := by
  have hactive : isActiveBin (t.bin j).erase = isActiveBin (t.bin j) := rfl
  rw [freeBin, freeBin, bin_erase, hactive]
  split_ifs
  · simp only [HashTable.erase, List.map_set, List.map_append]
    rfl
  · rfl

lemma storeInBin_erase (j : ℕ) (hashKey : UInt32) (key : Option (Ptr K)) (val : Option (Ptr V)) :
    (storeInBin t j hashKey key val).erase =
      storeInBin t.erase j hashKey (key.map Ptr.contents) (val.map Ptr.contents) := by
  have hfree := freeBin_erase
    { t with
      active := t.active + (if (t.bin j).isEmpty then 1 else 0)
      used := t.used + (if (t.bin j).inProbe then 0 else 1) } j
  simp only [storeInBin, bin_erase]
  generalize freeBin
    { t with
      active := t.active + (if (t.bin j).isEmpty then 1 else 0)
      used := t.used + (if (t.bin j).inProbe then 0 else 1) } j = freed at hfree ⊢
  have hbins : HashTable.erase
      { freed with bins := freed.bins.set j ⟨true, false, hashKey, key, val⟩ } =
      { freed.erase with
        bins := freed.erase.bins.set j
          ⟨true, false, hashKey, key.map Ptr.contents, val.map Ptr.contents⟩ } := by
    simp only [HashTable.erase, List.map_set]
    rfl
  rw [hbins, hfree]
  rfl

lemma insertPair_erase (hashKey : UInt32) (key : Option (Ptr K)) (val : Option (Ptr V)) :
    insertPair kt t.erase hashKey (key.map Ptr.contents) (val.map Ptr.contents) =
      (insertPair kt.tracked t hashKey key val).map HashTable.erase := by
  rw [insertPair, insertPair, findKey_erase]
  cases findKey kt.tracked t hashKey key with
  | none => rfl
  | some j =>
    have hprobe : (t.erase.bin j).inProbe = (t.bin j).inProbe := by rw [bin_erase]; rfl
    simp only [hprobe, findEmpty_erase]
    split_ifs
    · rw [← storeInBin_erase]
      rfl
    · cases findEmpty t hashKey with
      | none => rfl
      | some j' =>
        simp only [← storeInBin_erase]
        rfl

/-- The insertion does the same without identities. -/
def Erases (insert : InsertInternal K V) (insert' : InsertInternal (Ptr K) (Ptr V)) : Prop :=
  ∀ t hashKey key val, insert t.erase hashKey (key.map Ptr.contents) (val.map Ptr.contents) =
    (insert' t hashKey key val).map HashTable.erase

variable {insert : InsertInternal K V} {insert' : InsertInternal (Ptr K) (Ptr V)}

lemma moveBins_erase (hinsert : Erases insert insert') (bins : List (HashBin (Ptr K) (Ptr V))) :
    moveBins insert t.erase (bins.map HashBin.erase) =
      (moveBins insert' t bins).map HashTable.erase := by
  induction bins generalizing t with
  | nil => rfl
  | cons b bins ih =>
    have hempty : b.erase.isEmpty = b.isEmpty := rfl
    have hone : insert t.erase b.erase.hashKey b.erase.key b.erase.val =
        (insert' t b.hashKey b.key b.val).map HashTable.erase := hinsert t b.hashKey b.key b.val
    rw [List.map_cons, moveBins, moveBins, hempty, hone, ih]
    split_ifs
    · rfl
    · cases insert' t b.hashKey b.key b.val with
      | error e => rfl
      | ok t' => exact ih

lemma resize_erase (hinsert : Erases insert insert') (size : UInt32) :
    resize insert t.erase size = (resize insert' t size).map HashTable.erase := by
  have hcleared : clearedTable t.erase size = (clearedTable t size).erase := by
    simp only [clearedTable, HashTable.erase, List.map_replicate]
    rfl
  rw [resize, resize, initTable, initTable, hcleared]
  exact moveBins_erase hinsert t.bins

lemma erases_insertInternal (kt : KeyType K) (fuel : ℕ) :
    Erases (insertInternal (V := V) kt fuel) (insertInternal kt.tracked fuel) := by
  induction fuel with
  | zero =>
    intro t hashKey key val
    rw [insertInternal, insertInternal, insertPair_erase]
    cases insertPair kt.tracked t hashKey key val with
    | error e => rfl
    | ok t' =>
      have hload : overloaded t'.erase = overloaded t' := rfl
      simp only [Except.map, hload]
      split_ifs <;> rfl
  | succ fuel ih =>
    intro t hashKey key val
    rw [insertInternal, insertInternal, insertPair_erase]
    cases insertPair kt.tracked t hashKey key val with
    | error e => rfl
    | ok t' =>
      have hload : overloaded t'.erase = overloaded t' := rfl
      have hsize : t'.erase.size = t'.size := rfl
      simp only [Except.map, hload, hsize, resize_erase ih]
      split_ifs <;> rfl

lemma tableStep_erase (op : MapOp K V) (n : ℕ) :
    tableStep kt vt (.ok t.erase) op =
      (tableStep kt.tracked vt.tracked (.ok t) (trackedOp n op)).map HashTable.erase := by
  cases op with
  | insert k v =>
    exact erases_insertInternal kt resizeDepth t (kt.hash k) (some ⟨kt.cpy k, n⟩)
      (some ⟨vt.cpy v, n⟩)
  | delete k =>
    have hfind : findKey kt t.erase (kt.hash k) (some k) =
        findKey kt.tracked t (kt.hash k) (some ⟨k, n⟩) := findKey_erase _ (some ⟨k, n⟩)
    have hload : ∀ t : HashTable (Ptr K) (Ptr V), underloaded t.erase = underloaded t :=
      fun _ => rfl
    have hsize : ∀ t : HashTable (Ptr K) (Ptr V), t.erase.size = t.size := fun _ => rfl
    have hhash : kt.tracked.hash ⟨k, n⟩ = kt.hash k := rfl
    simp only [tableStep, trackedOp, hashTableDelete, hfind, hhash]
    cases findKey kt.tracked t (kt.hash k) (some ⟨k, n⟩) with
    | none => rfl
    | some j =>
      simp only [← freeBin_erase, hload, hsize,
        resize_erase (erases_insertInternal kt resizeDepth)]
      split_ifs <;> rfl

/-- The run with identities is the run without them, as far as these are not looked at. -/
theorem tableRun_erase (kt : KeyType K) (vt : ValueType V) (ops : List (MapOp K V)) :
    tableRun kt vt ops =
      (tableRun kt.tracked vt.tracked (tracked ops)).map HashTable.erase := by
  induction ops using List.reverseRecOn with
  | nil => rfl
  | append_singleton ops op ih =>
    rw [tracked, List.mapIdx_concat, tableRun_snoc, tableRun_snoc, ih, ← tracked]
    cases tableRun kt.tracked vt.tracked (tracked ops) with
    | error e => rfl
    | ok t => exact tableStep_erase op ops.length

end Erase

/-- The `n`th operation is an insertion, which has made copies. -/
def issued (ops : List (MapOp K V)) (n : ℕ) : Bool :=
  match ops[n]? with
  | some (.insert _ _) => true
  | _ => false

/-- The key of a pair has the identity `n`. -/
def keyIs (n : ℕ) (p : Option (Ptr K) × Option (Ptr V)) : Bool := p.1.any (·.identity == n)

/-- The value of a pair has the identity `n`. -/
def valIs (n : ℕ) (p : Option (Ptr K) × Option (Ptr V)) : Bool := p.2.any (·.identity == n)

section Identities

variable {ops : List (MapOp K V)}

lemma issued_append (ops : List (MapOp K V)) (op : MapOp K V) (n : ℕ) :
    issued (ops ++ [op]) n = if n = ops.length then op.value.isSome else issued ops n := by
  rw [issued, issued]
  split_ifs with hn
  · subst hn
    cases op <;> simp
  · rcases Nat.lt_or_gt_of_ne hn with hlt | hgt
    · rw [List.getElem?_append_left hlt]
    · rw [List.getElem?_eq_none (by simpa using hgt), List.getElem?_eq_none hgt.le]

/-- Among the copies of a run each identity that was issued occurs once. -/
lemma countP_copied {is : Option (Ptr K) × Option (Ptr V) → Bool} {n : ℕ}
    (his : ∀ (k : K) (v : V) m,
      is (some ⟨kt.cpy k, m⟩, some ⟨vt.cpy v, m⟩) = decide (m = n)) :
    ((tracked ops).filterMap (MapOp.copied kt.tracked vt.tracked)).countP is =
      (issued ops n).toNat := by
  induction ops using List.reverseRecOn with
  | nil => rfl
  | append_singleton ops op ih =>
    have hlast : issued ops ops.length = false := by
      rw [issued, List.getElem?_eq_none le_rfl]
    rw [tracked, List.mapIdx_concat, List.filterMap_append, List.countP_append, ← tracked, ih,
      issued_append]
    cases op with
    | delete k =>
      -- a deletion copies nothing, and it is not what was issued under `n`
      split_ifs with hn
      · rw [hn, hlast]
        rfl
      · rfl
    | insert k v =>
      -- an insertion copies one key and one value, both marked with its number
      have hone : [trackedOp ops.length (.insert k v)].filterMap
          (MapOp.copied kt.tracked vt.tracked) =
            [(some ⟨kt.cpy k, ops.length⟩, some ⟨vt.cpy v, ops.length⟩)] := rfl
      rw [hone, List.countP_singleton, his]
      split_ifs with hlen hn hn
      · rw [hn, hlast]
        rfl
      · exact absurd (of_decide_eq_true hlen).symm hn
      · exact absurd (decide_eq_true hn.symm) hlen
      · rfl

/-- A copy with the identity `n` that was made is stored in exactly one live bin or was freed
exactly once, and the destruction of the table leaves it freed exactly once; one that was not made
is neither stored nor freed. -/
structure OwnsOnce (ops : List (MapOp K V)) (t : HashTable (Ptr K) (Ptr V)) (n : ℕ) : Prop where
  key : t.stored.countP (keyIs n) + t.freed.countP (keyIs n) = (issued ops n).toNat
  val : t.stored.countP (valIs n) + t.freed.countP (valIs n) = (issued ops n).toNat
  destroyedKey : (hashTableDestroy t).freed.countP (keyIs n) = (issued ops n).toNat
  destroyedVal : (hashTableDestroy t).freed.countP (valIs n) = (issued ops n).toNat

/-- Every state of a run is, with identities given to the copies, one in which each copy has one
owner. -/
theorem owned_once {t : HashTable K V} (hok : tableRun kt vt ops = .ok t) :
    ∃ t' : HashTable (Ptr K) (Ptr V), t'.erase = t ∧
      tableRun kt.tracked vt.tracked (tracked ops) = .ok t' ∧ ∀ n, OwnsOnce ops t' n := by
  rw [tableRun_erase] at hok
  cases hrun : tableRun kt.tracked vt.tracked (tracked ops) with
  | error e =>
    rw [hrun] at hok
    cases hok
  | ok t' =>
    rw [hrun] at hok
    obtain ⟨ht, haccounted⟩ := accounted_tableRun hrun
    have hdestroyed := (freed_hashTableDestroy ht).trans haccounted
    have hkey : ∀ n ps, ps ~ (tracked ops).filterMap (MapOp.copied kt.tracked vt.tracked) →
        ps.countP (keyIs n) = (issued ops n).toNat := fun n ps hps =>
      (hps.countP_eq _).trans (countP_copied fun _ _ _ => rfl)
    have hval : ∀ n ps, ps ~ (tracked ops).filterMap (MapOp.copied kt.tracked vt.tracked) →
        ps.countP (valIs n) = (issued ops n).toNat := fun n ps hps =>
      (hps.countP_eq _).trans (countP_copied fun _ _ _ => rfl)
    refine ⟨t', Except.ok.inj hok, rfl, fun n => ⟨?_, ?_, ?_, ?_⟩⟩
    · rw [← List.countP_append]
      exact hkey n _ haccounted
    · rw [← List.countP_append]
      exact hval n _ haccounted
    · exact hkey n _ hdestroyed
    · exact hval n _ hdestroyed

/-- A key written twice and a key that was deleted, under CRC-32. -/
theorem owned_once_uint32 :
    let ops : List (MapOp UInt32 ℕ) := [.insert 1 10, .insert 2 20, .insert 1 11, .delete 2]
    ∃ t, tableRun uint32KeyType (ptrValueType ℕ) ops = .ok t ∧
      ∃ t' : HashTable (Ptr UInt32) (Ptr ℕ), t'.erase = t ∧
        tableRun uint32KeyType.tracked (ptrValueType ℕ).tracked (tracked ops) = .ok t' ∧
          ∀ n, OwnsOnce ops t' n := by
  intro ops
  obtain ⟨t, hok⟩ : ∃ t, tableRun uint32KeyType (ptrValueType ℕ) ops = .ok t :=
    tableRun_ok_of_staysSmall uint32KeyType_lawful ops
      (staysSmall_of_length uint32KeyType_lawful (by decide))
  exact ⟨t, hok, owned_once hok⟩

end Identities

end Vm32
