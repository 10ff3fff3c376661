/-
# Runs of a deterministic labelled system

A system is a step function `step : σ → α → σ`: the label `α` is whatever the environment
supplies to one step.  A run is a fold of the step function over a list of labels, so a
statement about every run is a statement about every list.  This file contains the rules by
which properties of single steps become properties of runs: the invariant rule, the same
rule for runs whose steps all meet a condition, the bookkeeping of the events that the steps
emit, and the simulation rules for two systems.
-/
import Mathlib.Data.Stream.Init
import Mathlib.Tactic

namespace LabelledRun

variable {σ τ α ε : Type*}

/-- The state reached from `s` by the steps labelled `as`, in order. -/
def run (step : σ → α → σ) (s : σ) (as : List α) : σ := as.foldl step s

section Run

variable (step : σ → α → σ)

@[simp] lemma run_nil (s : σ) : run step s [] = s := rfl

@[simp] lemma run_cons (s : σ) (a : α) (as : List α) :
    run step s (a :: as) = run step (step s a) as := rfl

@[simp] lemma run_append (s : σ) (as bs : List α) :
    run step s (as ++ bs) = run step (run step s as) bs :=
  List.foldl_append

end Run

/-- Every step of the run from `s` over `as` is taken in a state and under a label that
satisfy `C`. -/
def Along (step : σ → α → σ) (C : σ → α → Prop) : σ → List α → Prop
  | _, [] => True
  | s, a :: as => C s a ∧ Along step C (step s a) as

section Along

variable {step : σ → α → σ} {C D : σ → α → Prop} {s : σ} {as bs : List α}

@[simp] lemma along_nil : Along step C s [] := trivial

@[simp] lemma along_cons {a : α} :
    Along step C s (a :: as) ↔ C s a ∧ Along step C (step s a) as := Iff.rfl

instance decidableAlong [∀ s a, Decidable (C s a)] :
    ∀ (s : σ) (as : List α), Decidable (Along step C s as)
  | _, [] => isTrue trivial
  | s, a :: as =>
    have := decidableAlong (step s a) as
    inferInstanceAs (Decidable (C s a ∧ Along step C (step s a) as))

lemma along_append :
    Along step C s (as ++ bs) ↔ Along step C s as ∧ Along step C (run step s as) bs := by
  induction as generalizing s with
  | nil => simp
  | cons a as ih => simp [ih, and_assoc]

lemma Along.imp (h : Along step C s as) (hCD : ∀ s a, C s a → D s a) :
    Along step D s as := by
  induction as generalizing s with
  | nil => trivial
  | cons a as ih => exact ⟨hCD s a h.1, ih h.2⟩

lemma Along.and (hC : Along step C s as) (hD : Along step D s as) :
    Along step (fun s a => C s a ∧ D s a) s as := by
  induction as generalizing s with
  | nil => trivial
  | cons a as ih => exact ⟨⟨hC.1, hD.1⟩, ih hC.2 hD.2⟩

/-- `Along`, position by position. -/
lemma along_iff :
    Along step C s as ↔ ∀ pre a post, as = pre ++ a :: post → C (run step s pre) a := by
  constructor
  · rintro h pre a post rfl
    exact (along_append.1 h).2.1
  · intro h
    induction as generalizing s with
    | nil => trivial
    | cons a as ih =>
      refine ⟨h [] a as rfl, ih fun pre b post hpost => ?_⟩
      exact h (a :: pre) b post (by rw [hpost]; rfl)

/-- The invariant rule for runs whose steps all satisfy `C`. -/
theorem Along.invariant {I : σ → Prop} (hC : Along step C s as) (hs : I s)
    (hstep : ∀ s a, I s → C s a → I (step s a)) : I (run step s as) := by
  induction as generalizing s with
  | nil => exact hs
  | cons a as ih => exact ih hC.2 (hstep s a hs hC.1)

/-- Under an invariant that `C` preserves, what `C` gives at a step of the invariant holds at
every step of the run. -/
theorem Along.strengthen {I : σ → Prop} (hC : Along step C s as) (hs : I s)
    (hstep : ∀ s a, I s → C s a → I (step s a)) (hD : ∀ s a, I s → C s a → D s a) :
    Along step D s as := by
  induction as generalizing s with
  | nil => trivial
  | cons a as ih => exact ⟨hD s a hs hC.1, ih hC.2 (hstep s a hs hC.1)⟩

/-- The rule for a map between two systems that commutes with the steps that satisfy `C`. -/
theorem Along.run_map (hC : Along step C s as) (step' : τ → α → τ) (f : σ → τ)
    (hstep : ∀ s a, C s a → step' (f s) a = f (step s a)) :
    run step' (f s) as = f (run step s as) := by
  induction as generalizing s with
  | nil => rfl
  | cons a as ih => rw [run_cons, run_cons, hstep s a hC.1, ih hC.2]

/-- The progress rule: under an invariant and with a rank that goes down until `P` holds, every
sequence of labels leads to a state with `P`. -/
theorem exists_run {I P : σ → Prop} {rank : σ → ℕ} (hs : I s)
    (hstep : ∀ s a, I s → ¬P s → I (step s a) ∧ rank (step s a) < rank s) (labels : Stream' α) :
    ∃ n, P (run step s (labels.take n)) ∧
      Along step (fun s _ => I s ∧ ¬P s) s (labels.take n) := by
  induction hrank : rank s using Nat.strong_induction_on generalizing s labels with
  | _ r ih =>
    by_cases hP : P s
    · exact ⟨0, hP, trivial⟩
    · obtain ⟨hnext, hlt⟩ := hstep s labels.head hs hP
      obtain ⟨n, hn, halong⟩ := ih _ (hrank ▸ hlt) hnext labels.tail rfl
      exact ⟨n + 1, hn, ⟨hs, hP⟩, halong⟩

/-- The invariant rule. -/
theorem invariant {I : σ → Prop} (hs : I s) (hstep : ∀ s a, I s → I (step s a))
    (as : List α) : I (run step s as) := by
  induction as generalizing s with
  | nil => exact hs
  | cons a as ih => exact ih (hstep s a hs)

end Along

/-! ## Events -/

/-- The events of the run, oldest first. -/
def trace (step : σ → α → σ) (emit : σ → α → Option ε) : σ → List α → List ε
  | _, [] => []
  | s, a :: as => (emit s a).toList ++ trace step emit (step s a) as

/-- The system that carries the list of its past events along. -/
def recording (step : σ → α → σ) (emit : σ → α → Option ε) (x : σ × List ε) (a : α) :
    σ × List ε :=
  (step x.1 a, x.2 ++ (emit x.1 a).toList)

section Trace

variable {step : σ → α → σ} {emit : σ → α → Option ε} {s : σ} {as bs : List α}

@[simp] lemma trace_nil : trace step emit s [] = [] := rfl

@[simp] lemma trace_cons {a : α} :
    trace step emit s (a :: as) = (emit s a).toList ++ trace step emit (step s a) as := rfl

lemma trace_append :
    trace step emit s (as ++ bs) =
      trace step emit s as ++ trace step emit (run step s as) bs := by
  induction as generalizing s with
  | nil => rfl
  | cons a as ih => simp [ih, List.append_assoc]

/-- The simulation rule: related states of two systems emit the same events. -/
theorem trace_eq_of_simulation {step' : τ → α → τ} {emit' : τ → α → Option ε} {R : σ → τ → Prop}
    {t : τ} (hst : R s t)
    (hstep : ∀ s t a, R s t → emit s a = emit' t a ∧ R (step s a) (step' t a)) :
    trace step emit s as = trace step' emit' t as := by
  induction as generalizing s t with
  | nil => rfl
  | cons a as ih =>
    obtain ⟨hemit, hnext⟩ := hstep s t a hst
    rw [trace_cons, trace_cons, hemit, ih hnext]

/-- The relational rule: two runs under related labels, the first of which satisfies `C`. -/
theorem Along.related {β : Type*} {step' : τ → β → τ} {emit' : τ → β → Option ε}
    {C : σ → α → Prop} {R : σ → τ → Prop} {L : α → β → Prop} {t : τ} {bs : List β}
    (hC : Along step C s as) (hst : R s t) (hlabels : List.Forall₂ L as bs)
    (hstep : ∀ s t a b, R s t → L a b → C s a →
      R (step s a) (step' t b) ∧ emit' t b = emit s a) :
    R (run step s as) (run step' t bs) ∧ trace step' emit' t bs = trace step emit s as := by
  induction hlabels generalizing s t with
  | nil => exact ⟨hst, rfl⟩
  | @cons a b as bs hab _ ih =>
    obtain ⟨hnext, hemit⟩ := hstep s t a b hst hab hC.1
    obtain ⟨hrun, htrace⟩ := ih hC.2 hnext
    exact ⟨hrun, by rw [trace_cons, trace_cons, hemit, htrace]⟩

/-- The images of the events. -/
lemma trace_map {δ : Type*} (f : ε → δ) :
    trace step (fun s a => (emit s a).map f) s as = (trace step emit s as).map f := by
  induction as generalizing s with
  | nil => rfl
  | cons a as ih =>
    rw [trace_cons, trace_cons, ih, List.map_append]
    cases emit s a <;> rfl

/-- The events that are made of other events. -/
lemma trace_filterMap {δ : Type*} (f : ε → Option δ) :
    trace step (fun s a => (emit s a).bind f) s as = (trace step emit s as).filterMap f := by
  induction as generalizing s with
  | nil => rfl
  | cons a as ih =>
    rw [trace_cons, trace_cons, ih, List.filterMap_append]
    cases emit s a with
    | none => rfl
    | some e => cases hf : f e <;> simp [hf]

lemma mem_trace {e : ε} :
    e ∈ trace step emit s as ↔
      ∃ pre a post, as = pre ++ a :: post ∧ emit (run step s pre) a = some e := by
  induction as generalizing s with
  | nil => simp
  | cons a as ih =>
    simp only [trace_cons, List.mem_append, Option.mem_toList, ih]
    constructor
    · rintro (h | ⟨pre, b, post, rfl, h⟩)
      · exact ⟨[], a, as, rfl, h⟩
      · exact ⟨a :: pre, b, post, rfl, h⟩
    · rintro ⟨pre, b, post, hsplit, h⟩
      cases pre with
      | nil =>
        obtain ⟨rfl, rfl⟩ := List.cons.inj hsplit
        exact Or.inl h
      | cons c pre =>
        obtain ⟨rfl, rfl⟩ := List.cons.inj hsplit
        exact Or.inr ⟨pre, b, post, rfl, h⟩

/-- What holds of all events. -/
lemma forall_mem_trace {P : ε → Prop} :
    (∀ e ∈ trace step emit s as, P e) ↔
      Along step (fun s a => ∀ e ∈ emit s a, P e) s as := by
  induction as generalizing s with
  | nil => simp
  | cons a as ih =>
    simp only [trace_cons, List.forall_mem_append, Option.mem_toList, ih, along_cons,
      Option.mem_def]

/-- The prefixes of the events are the events of the prefixes. -/
lemma prefix_trace_iff {es : List ε} :
    es <+: trace step emit s as ↔ ∃ pre, pre <+: as ∧ trace step emit s pre = es := by
  constructor
  · intro h
    induction as generalizing s es with
    | nil => exact ⟨[], List.nil_prefix, (List.prefix_nil.1 h).symm⟩
    | cons a as ih =>
      rw [trace_cons] at h
      cases hemit : emit s a with
      | none =>
        rw [hemit] at h
        obtain ⟨pre, hpre, rfl⟩ := ih h
        exact ⟨a :: pre, List.cons_prefix_cons.2 ⟨rfl, hpre⟩, by rw [trace_cons, hemit]; rfl⟩
      | some e =>
        rw [hemit] at h
        cases es with
        | nil => exact ⟨[], List.nil_prefix, rfl⟩
        | cons e' es =>
          obtain ⟨rfl, hes⟩ := List.cons_prefix_cons.1 h
          obtain ⟨pre, hpre, rfl⟩ := ih hes
          exact ⟨a :: pre, List.cons_prefix_cons.2 ⟨rfl, hpre⟩, by rw [trace_cons, hemit]; rfl⟩
  · rintro ⟨pre, ⟨post, rfl⟩, rfl⟩
    rw [trace_append]
    exact List.prefix_append _ _

@[simp] lemma run_recording (past : List ε) :
    run (recording step emit) (s, past) as =
      (run step s as, past ++ trace step emit s as) := by
  induction as generalizing s past with
  | nil => simp
  | cons a as ih => simp [recording, ih, List.append_assoc]

/-- A condition on the steps does not see the record. -/
lemma along_recording {C : σ → α → Prop} (past : List ε) :
    Along (recording step emit) (fun x a => C x.1 a) (s, past) as ↔ Along step C s as := by
  induction as generalizing s past with
  | nil => rfl
  | cons a as ih => simp only [along_cons, recording, ih]

end Trace

end LabelledRun
