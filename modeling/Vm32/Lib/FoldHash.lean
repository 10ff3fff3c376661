/-
# Hashes that are computed by a fold

A streaming hash is a fold of a step function over the input.  If every step is injective in the
state, then what comes behind a difference of two inputs cannot undo it, and what comes before
only sets the state in which it is met.  So two inputs that differ inside a window have different
hashes as soon as the step function tells windows of that length apart.
-/
import Mathlib.Tactic

namespace FoldHash

open Function

variable {σ α β : Type*}

/-! ### Lists that differ inside a window -/

/-- The lists differ, and they are the same in front of and behind a window of at most `n`
letters. -/
def DiffersWithin (n : ℕ) (x y : List α) : Prop :=
  ∃ pre u v post, x = pre ++ (u ++ post) ∧ y = pre ++ (v ++ post) ∧
    u.length = v.length ∧ u.length ≤ n ∧ u ≠ v

section Windows

variable {m n k : ℕ} {x y : List α}

lemma DiffersWithin.of_window (hlen : x.length = y.length) (hn : x.length ≤ n) (hne : x ≠ y) :
    DiffersWithin n x y :=
  ⟨[], x, y, [], by simp, by simp, hlen, hn, hne⟩

lemma DiffersWithin.append_left (h : DiffersWithin n x y) (z : List α) :
    DiffersWithin n (z ++ x) (z ++ y) := by
  obtain ⟨pre, u, v, post, rfl, rfl, hlen, hn, hne⟩ := h
  exact ⟨z ++ pre, u, v, post, by simp, by simp, hlen, hn, hne⟩

lemma DiffersWithin.append_right (h : DiffersWithin n x y) (z : List α) :
    DiffersWithin n (x ++ z) (y ++ z) := by
  obtain ⟨pre, u, v, post, rfl, rfl, hlen, hn, hne⟩ := h
  exact ⟨pre, u, v, post ++ z, by simp, by simp, hlen, hn, hne⟩

/-- The blocks of a concatenation are the same, but for one. -/
lemma DiffersWithin.flatMap_range {f g : ℕ → List α} {i : ℕ} (hi : i < m)
    (hsame : ∀ j < m, j ≠ i → f j = g j) (h : DiffersWithin n (f i) (g i)) :
    DiffersWithin n ((List.range m).flatMap f) ((List.range m).flatMap g) := by
  obtain ⟨pre, post, hsplit⟩ := List.append_of_mem (List.mem_range.2 hi)
  have hnotin : i ∉ pre ++ post :=
    (List.nodup_cons.1 (List.nodup_middle.1 (hsplit ▸ List.nodup_range))).1
  have hother : ∀ j ∈ pre ++ post, f j = g j := by
    intro j hj
    refine hsame j ?_ (ne_of_mem_of_not_mem hj hnotin)
    rw [← List.mem_range, hsplit]
    exact (List.mem_append.1 hj).elim (List.mem_append_left _) fun h =>
      List.mem_append_right _ (List.mem_cons_of_mem _ h)
  have hpre := List.flatMap_congr fun j hj => hother j (List.mem_append_left _ hj)
  have hpost := List.flatMap_congr fun j hj => hother j (List.mem_append_right _ hj)
  rw [hsplit, List.flatMap_append, List.flatMap_append, List.flatMap_cons, List.flatMap_cons,
    hpre, hpost]
  exact (h.append_right _).append_left _

/-- Blocks of one length can be read back. -/
lemma flatMap_inj {f : α → List β} {b : ℕ} (hf : Injective f) (hb : ∀ a, (f a).length = b)
    (hlen : x.length = y.length) (heq : x.flatMap f = y.flatMap f) : x = y := by
  induction x generalizing y with
  | nil => exact (List.length_eq_zero_iff.1 hlen.symm).symm
  | cons a x ih =>
    cases y with
    | nil => simp at hlen
    | cons c y =>
      obtain ⟨hac, hxy⟩ := List.append_inj heq (by rw [hb, hb])
      rw [hf hac, ih (Nat.succ.inj hlen) hxy]

lemma length_flatMap {f : α → List β} {b : ℕ} (hb : ∀ a, (f a).length = b) (x : List α) :
    (x.flatMap f).length = x.length * b := by
  simp [List.length_flatMap, hb]

/-- A window of letters is a window of the blocks that stand for them. -/
lemma DiffersWithin.flatMap {f : α → List β} {b : ℕ} (hf : Injective f)
    (hb : ∀ a, (f a).length = b) (h : DiffersWithin n x y) :
    DiffersWithin (n * b) (x.flatMap f) (y.flatMap f) := by
  obtain ⟨pre, u, v, post, rfl, rfl, hlen, hn, hne⟩ := h
  refine ⟨pre.flatMap f, u.flatMap f, v.flatMap f, post.flatMap f, by simp, by simp, ?_, ?_, ?_⟩
  · rw [length_flatMap hb, length_flatMap hb, hlen]
  · rw [length_flatMap hb]
    exact Nat.mul_le_mul_right b hn
  · exact fun heq => hne (flatMap_inj hf hb hlen heq)

/-- Lists of the same length all of whose differences are at `n` consecutive positions. -/
lemma DiffersWithin.of_positions (hlen : x.length = y.length) (hne : x ≠ y)
    (hpos : ∀ i, x[i]? ≠ y[i]? → k ≤ i ∧ i < k + n) : DiffersWithin n x y := by
  have hsame : ∀ i, ¬(k ≤ i ∧ i < k + n) → x[i]? = y[i]? := fun i hi =>
    not_imp_comm.1 (hpos i) hi
  have hpre : x.take k = y.take k := by
    refine List.ext_getElem? fun i => ?_
    rw [List.getElem?_take, List.getElem?_take]
    split_ifs with hi
    · exact hsame i (by omega)
    · rfl
  have hpost : (x.drop k).drop n = (y.drop k).drop n := by
    refine List.ext_getElem? fun i => ?_
    simp only [List.getElem?_drop]
    exact hsame _ (by omega)
  have hsplit : ∀ z : List α, z = z.take k ++ ((z.drop k).take n ++ (z.drop k).drop n) := by
    simp
  refine ⟨x.take k, (x.drop k).take n, (y.drop k).take n, (x.drop k).drop n, hsplit x, ?_,
    by simp [hlen], List.length_take_le _ _, fun hwin => hne ?_⟩
  · rw [hpre, hpost]
    exact hsplit y
  · rw [hsplit x, hsplit y, hpre, hwin, hpost]

end Windows

/-! ### Folds -/

/-- From every state, windows of at most `n` letters of the same length lead to different states
if they are different. -/
def TellsApart (step : σ → α → σ) (n : ℕ) : Prop :=
  ∀ (s : σ) (u v : List α), u.length = v.length → u.length ≤ n →
    u.foldl step s = v.foldl step s → u = v

section Folds

variable {step : σ → α → σ} {n : ℕ} {x y : List α}

lemma foldl_injective (hstep : ∀ a, Injective (step · a)) (x : List α) :
    Injective fun s => x.foldl step s := by
  induction x with
  | nil => exact injective_id
  | cons a x ih => exact fun s t hst => hstep a (ih hst)

/-- If the fold tells windows of `n` letters apart, it tells inputs apart that differ inside such
a window. -/
theorem DiffersWithin.foldl_ne (h : DiffersWithin n x y) (hstep : ∀ a, Injective (step · a))
    (hwindow : TellsApart step n) (s : σ) : x.foldl step s ≠ y.foldl step s := by
  obtain ⟨pre, u, v, post, rfl, rfl, hlen, hn, hne⟩ := h
  intro heq
  simp only [List.foldl_append] at heq
  exact hne (hwindow _ u v hlen hn (foldl_injective hstep post heq))

/-- One letter is told apart if the step is injective in the letter too. -/
lemma tellsApart_one (hletter : ∀ s, Injective (step s)) : TellsApart step 1 := by
  intro s u v hlen hone heq
  rcases u with _ | ⟨a, _ | ⟨b, u⟩⟩
  · exact (List.length_eq_zero_iff.1 hlen.symm).symm
  · obtain ⟨c, rfl⟩ := List.length_eq_one_iff.1 hlen.symm
    rw [hletter s heq]
  · simp at hone

/-- The input may be fed in chunks. -/
lemma foldl_chunks (chunks : List (List α)) (s : σ) :
    chunks.foldl (fun s chunk => chunk.foldl step s) s = chunks.flatten.foldl step s := by
  induction chunks generalizing s with
  | nil => rfl
  | cons chunk chunks ih => rw [List.foldl_cons, ih, List.flatten_cons, List.foldl_append]

end Folds

end FoldHash
