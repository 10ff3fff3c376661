/-
# The finite map described by a log of operations

What a map should contain is a matter of the operations that were applied to it: a key is
bound to the value of the last insertion of that key, unless a later operation deleted it.
This file states that reading of a log directly, without any map, and gives the rules for
appending one operation.
-/
import Mathlib.Tactic
import Mathlib.Data.Finset.Card
import Mathlib.Data.Finset.Dedup

/-- An operation on a map with keys in `K` and values in `V`. -/
inductive MapOp (K V : Type*)
  | insert (key : K) (value : V)
  | delete (key : K)
deriving DecidableEq, Repr

namespace MapOp

variable {K V : Type*}

/-- The key an operation is about. -/
def key : MapOp K V → K
  | insert k _ => k
  | delete k => k

/-- What an operation leaves its key bound to. -/
def value : MapOp K V → Option V
  | insert _ v => some v
  | delete _ => none

@[simp] lemma key_insert (k : K) (v : V) : (insert k v).key = k := rfl
@[simp] lemma key_delete (k : K) : (delete k : MapOp K V).key = k := rfl
@[simp] lemma value_insert (k : K) (v : V) : (insert k v).value = some v := rfl
@[simp] lemma value_delete (k : K) : (delete k : MapOp K V).value = none := rfl

variable [DecidableEq K]

/-- The value `k` is bound to after the operations `ops`: that of the last operation on `k`. -/
def bound (ops : List (MapOp K V)) (k : K) : Option V :=
  (ops.reverse.find? fun op => decide (op.key = k)).bind value

@[simp] lemma bound_nil (k : K) : bound ([] : List (MapOp K V)) k = none := rfl

lemma bound_snoc (ops : List (MapOp K V)) (op : MapOp K V) (k : K) :
    bound (ops ++ [op]) k = if op.key = k then op.value else bound ops k := by
  by_cases hk : op.key = k <;> simp [bound, hk]

/-- The keys that are bound after the operations `ops`. -/
def boundKeys (ops : List (MapOp K V)) : Finset K :=
  (ops.map key).toFinset.filter fun k => (bound ops k).isSome

lemma mem_boundKeys {ops : List (MapOp K V)} {k : K} :
    k ∈ boundKeys ops ↔ bound ops k ≠ none := by
  simp only [boundKeys, Finset.mem_filter, List.mem_toFinset, List.mem_map,
    Option.isSome_iff_ne_none, and_iff_right_iff_imp]
  intro hb
  by_contra hno
  refine hb ?_
  rw [bound, List.find?_eq_none.2, Option.bind_none]
  intro op hop
  simpa using fun hk => hno ⟨op, List.mem_reverse.1 hop, hk⟩

@[simp] lemma boundKeys_nil : boundKeys ([] : List (MapOp K V)) = ∅ := by
  simp [boundKeys]

lemma boundKeys_snoc_insert (ops : List (MapOp K V)) (k : K) (v : V) :
    boundKeys (ops ++ [insert k v]) = Insert.insert k (boundKeys ops) := by
  ext k'
  rw [mem_boundKeys, bound_snoc, Finset.mem_insert, mem_boundKeys]
  by_cases hk : k = k' <;> simp [hk, Ne.symm, eq_comm]

lemma boundKeys_snoc_delete (ops : List (MapOp K V)) (k : K) :
    boundKeys (ops ++ [delete k]) = (boundKeys ops).erase k := by
  ext k'
  rw [mem_boundKeys, bound_snoc, Finset.mem_erase, mem_boundKeys]
  by_cases hk : k = k' <;> simp [hk, eq_comm]

end MapOp
