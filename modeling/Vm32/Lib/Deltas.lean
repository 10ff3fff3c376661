/-
# Histories of changes

A function on some indices is watched by comparing it with an earlier copy and writing down where
the two differ, with the old and the new value.  The list of the differences can be redone on the
earlier copy and undone on the later one; so can the history of a run, in which the steps that write
down nothing change nothing.
-/
import Vm32.Lib.Runs

namespace Deltas

open LabelledRun

/-- A change at one index. -/
structure Delta (ι β : Type*) where
  idx : ι
  old : β
  new : β
deriving DecidableEq

variable {ι β : Type*}

/-- Where two functions differ, in the order of the indices. -/
def deltas [DecidableEq β] (idxs : List ι) (f g : ι → β) : List (Delta ι β) :=
  idxs.filterMap fun i => if f i = g i then none else some ⟨i, f i, g i⟩

variable [DecidableEq ι]

/-- The changes are made, first to last. -/
def redo (f : ι → β) (ds : List (Delta ι β)) : ι → β :=
  ds.foldl (fun f d => Function.update f d.idx d.new) f

/-- The changes are taken back, last to first. -/
def undo (f : ι → β) (ds : List (Delta ι β)) : ι → β :=
  ds.foldr (fun d f => Function.update f d.idx d.old) f

section Lists

variable {f g : ι → β} {idxs : List ι} {ds ds' : List (Delta ι β)}

@[simp] lemma redo_nil : redo f [] = f := rfl
@[simp] lemma undo_nil : undo f [] = f := rfl

lemma redo_append : redo f (ds ++ ds') = redo (redo f ds) ds' := List.foldl_append

lemma undo_append : undo f (ds ++ ds') = undo (undo f ds') ds := List.foldr_append

variable [DecidableEq β]

lemma undo_deltas_apply (i : ι) : undo g (deltas idxs f g) i = if i ∈ idxs then f i else g i := by
  induction idxs with
  | nil => rfl
  | cons j idxs ih =>
    rw [deltas, List.filterMap_cons]
    by_cases heq : f j = g j
    · rw [if_pos heq]
      show undo g (deltas idxs f g) i = _
      rw [ih]
      rcases eq_or_ne i j with rfl | hne
      · simp [heq]
      · simp [hne]
    · rw [if_neg heq]
      show Function.update (undo g (deltas idxs f g)) j (f j) i = _
      rcases eq_or_ne i j with rfl | hne
      · simp
      · rw [Function.update_of_ne hne, ih]
        simp [hne]

lemma redo_deltas_apply (i : ι) : redo f (deltas idxs f g) i = if i ∈ idxs then g i else f i := by
  induction idxs using List.reverseRecOn with
  | nil => rfl
  | append_singleton idxs j ih =>
    rw [deltas, List.filterMap_append, redo_append]
    show redo (redo f (deltas idxs f g)) (List.filterMap _ [j]) i = _
    by_cases heq : f j = g j
    · rw [List.filterMap_cons, if_pos heq]
      show redo f (deltas idxs f g) i = _
      rw [ih]
      rcases eq_or_ne i j with rfl | hne
      · simp [heq]
      · simp [hne]
    · rw [List.filterMap_cons, if_neg heq]
      show Function.update (redo f (deltas idxs f g)) j (g j) i = _
      rcases eq_or_ne i j with rfl | hne
      · simp
      · rw [Function.update_of_ne hne, ih]
        simp [hne]

variable (hidxs : ∀ i, i ∈ idxs)
include hidxs

/-- What the differences are for: they lead forth and back. -/
theorem redo_deltas : redo f (deltas idxs f g) = g := by
  ext i
  rw [redo_deltas_apply, if_pos (hidxs i)]

theorem undo_deltas : undo g (deltas idxs f g) = f := by
  ext i
  rw [undo_deltas_apply, if_pos (hidxs i)]

end Lists

/-- The history of a run leads from its first to its last state, and back, if every step emits what
it changes. -/
theorem redo_undo_trace {σ α ε : Type*} {step : σ → α → σ} {C : σ → α → Prop} (obs : σ → ι → β)
    {emit : σ → α → Option ε} {changes : ε → List (Delta ι β)} {s : σ} {as : List α}
    (hC : Along step C s as)
    (hredo : ∀ s a, C s a → redo (obs s) ((emit s a).toList.flatMap changes) = obs (step s a))
    (hundo : ∀ s a, C s a → undo (obs (step s a)) ((emit s a).toList.flatMap changes) = obs s) :
    redo (obs s) ((trace step emit s as).flatMap changes) = obs (run step s as) ∧
      undo (obs (run step s as)) ((trace step emit s as).flatMap changes) = obs s := by
  induction as generalizing s with
  | nil => exact ⟨rfl, rfl⟩
  | cons a as ih =>
    obtain ⟨hforth, hback⟩ := ih hC.2
    rw [trace_cons, List.flatMap_append, run_cons]
    constructor
    · rw [redo_append, hredo s a hC.1, hforth]
    · rw [undo_append, hback, hundo s a hC.1]

end Deltas
