/-
# Footprints

A function on the contents of a set of cells has the footprint `(R, W)` if it changes no cell
outside `W` and what it leaves in the cells of `W` is determined by the cells of `R`.  Footprints
compose, and two functions neither of which writes what the other reads or writes commute.
-/
import Mathlib

namespace Footprint

variable {ι β α : Type*}

/-- `f` writes only cells of `W`, and what it writes there depends on the cells of `R` only. -/
structure HasFootprint (R W : Set ι) (f : (ι → β) → ι → β) : Prop where
  frame : ∀ s i, i ∉ W → f s i = s i
  local' : ∀ s t, (∀ i ∈ R, s i = t i) → ∀ i ∈ W, f s i = f t i

section Compose

variable {R W R' W' : Set ι} {f g : (ι → β) → ι → β}

/-- A footprint may be enlarged, if what is written is read. -/
lemma HasFootprint.mono (hf : HasFootprint R W f) (hR : R ⊆ R') (hW : W ⊆ W') (hread : W' ⊆ R') :
    HasFootprint R' W' f where
  frame s i hi := hf.frame s i fun h => hi (hW h)
  local' s t hst i hi := by
    by_cases hiW : i ∈ W
    · exact hf.local' s t (fun j hj => hst j (hR hj)) i hiW
    · rw [hf.frame s i hiW, hf.frame t i hiW]
      exact hst i (hread hi)

lemma hasFootprint_id : HasFootprint R (∅ : Set ι) (fun s : ι → β => s) where
  frame _ _ _ := rfl
  local' _ _ _ i hi := absurd hi (Set.notMem_empty i)

/-- A composition reads and writes what its two parts read and write. -/
theorem HasFootprint.comp (hf : HasFootprint R W f) (hg : HasFootprint R' W' g) :
    HasFootprint (R ∪ W ∪ (R' ∪ W')) (W ∪ W') fun s => g (f s) := by
  have hf' : HasFootprint (R ∪ W ∪ (R' ∪ W')) (W ∪ W') f :=
    hf.mono (fun i hi => Or.inl (Or.inl hi)) Set.subset_union_left
      (Set.union_subset (fun i hi => Or.inl (Or.inr hi)) fun i hi => Or.inr (Or.inr hi))
  have hg' : HasFootprint (R ∪ W ∪ (R' ∪ W')) (W ∪ W') g :=
    hg.mono (fun i hi => Or.inr (Or.inl hi)) Set.subset_union_right
      (Set.union_subset (fun i hi => Or.inl (Or.inr hi)) fun i hi => Or.inr (Or.inr hi))
  constructor
  · intro s i hi
    rw [hg'.frame _ i hi, hf'.frame s i hi]
  · intro s t hst i hi
    refine hg'.local' _ _ (fun j hj => ?_) i hi
    -- the first part has left the two contents equal wherever they were
    by_cases hjW : j ∈ W ∪ W'
    · exact hf'.local' s t hst j hjW
    · rw [hf'.frame s j hjW, hf'.frame t j hjW]
      exact hst j hj

/-- Functions neither of which writes what the other reads or writes commute. -/
theorem HasFootprint.commute (hf : HasFootprint R W f) (hg : HasFootprint R' W' g)
    (hfg : Disjoint W (R' ∪ W')) (hgf : Disjoint W' (R ∪ W)) (s : ι → β) :
    g (f s) = f (g s) := by
  have hW : ∀ i ∈ W, i ∉ W' := fun i hi hi' => Set.disjoint_left.1 hfg hi (Or.inr hi')
  ext i
  by_cases hiW : i ∈ W
  · rw [hg.frame _ i (hW i hiW)]
    refine (hf.local' _ _ (fun j hj => ?_) i hiW).symm
    exact hg.frame s j fun hj' => Set.disjoint_left.1 hgf hj' (Or.inl hj)
  · rw [hf.frame _ i hiW]
    by_cases hiW' : i ∈ W'
    · refine hg.local' _ _ (fun j hj => ?_) i hiW'
      exact hf.frame s j fun hj' => Set.disjoint_left.1 hfg hj' (Or.inl hj)
    · rw [hg.frame _ i hiW', hg.frame s i hiW', hf.frame s i hiW]

end Compose

/-! ### Lists of functions -/

variable {act : (ι → β) → α → ι → β}

/-- A list of actions with footprints in `R` and `W` has its footprint there. -/
theorem hasFootprint_foldl {R W : Set ι} (hread : W ⊆ R) {as : List α}
    (has : ∀ a ∈ as, HasFootprint R W fun s => act s a) :
    HasFootprint R W fun s => as.foldl act s := by
  induction as with
  | nil => exact hasFootprint_id.mono (Set.Subset.refl R) (Set.empty_subset W) hread
  | cons a as ih =>
    obtain ⟨ha, has⟩ := List.forall_mem_cons.1 has
    exact (ha.comp (ih has)).mono
      (Set.union_subset (Set.union_subset (Set.Subset.refl R) hread)
        (Set.union_subset (Set.Subset.refl R) hread))
      (Set.union_subset (Set.Subset.refl W) (Set.Subset.refl W)) hread

end Footprint
