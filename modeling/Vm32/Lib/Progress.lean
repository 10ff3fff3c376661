/-
# Bounded progress, amortised cost and well-behaved runs

Further rules for the runs of a labelled system.  `Within step L Q n s` says
that, whatever labels from `L` are supplied, a state with `Q` is passed at most `n` steps after
`s`; such facts compose, and a rank that goes down gives one.  The amortised rule bounds the
number of events of a run by a potential and by the credit that some steps pay in.  The
simulation rule is for runs whose steps all meet a condition.
-/
import Vm32.Lib.Runs

namespace LabelledRun

variable {σ α ε : Type*}

/-! ## Bounded progress -/

/-- Whatever labels with `L` follow, a state with `Q` is passed at most `n` steps after `s`. -/
def Within (step : σ → α → σ) (L : α → Prop) (Q : σ → Prop) : ℕ → σ → Prop
  | 0, s => Q s
  | n + 1, s => Q s ∨ ∀ a, L a → Within step L Q n (step s a)

section Within

variable {step : σ → α → σ} {L : α → Prop} {Q R : σ → Prop} {s : σ} {m n : ℕ}

lemma Within.here (hQ : Q s) : Within step L Q n s := by
  cases n with
  | zero => exact hQ
  | succ n => exact Or.inl hQ

lemma Within.next (h : ∀ a, L a → Within step L Q n (step s a)) : Within step L Q (n + 1) s :=
  Or.inr h

lemma Within.mono (h : Within step L Q n s) (hnm : n ≤ m) : Within step L Q m s := by
  induction n generalizing m s with
  | zero => exact Within.here h
  | succ n ih =>
    obtain ⟨m, rfl⟩ : ∃ k, m = k + 1 := ⟨m - 1, by omega⟩
    rcases h with hQ | hnext
    · exact Within.here hQ
    · exact Within.next fun a ha => ih (hnext a ha) (Nat.succ_le_succ_iff.1 hnm)

/-- Progress composes, and the bounds add up. -/
theorem Within.trans (h : Within step L Q n s) (hQ : ∀ s, Q s → Within step L R m s) :
    Within step L R (n + m) s := by
  induction n generalizing s with
  | zero => exact (hQ s h).mono (Nat.le_add_left m 0)
  | succ n ih =>
    rcases h with hs | hnext
    · exact (hQ s hs).mono (Nat.le_add_left m _)
    · rw [Nat.succ_add]
      exact Within.next fun a ha => ih (hnext a ha)

/-- A rank that goes down on the way to `Q` is a bound. -/
theorem within_of_rank {I : σ → Prop} (rank : σ → ℕ) (hzero : ∀ s, I s → rank s = 0 → Q s)
    (hstep : ∀ s a, I s → ¬Q s → L a → I (step s a) ∧ rank (step s a) < rank s) (hs : I s)
    (hrank : rank s ≤ n) : Within step L Q n s := by
  induction n generalizing s with
  | zero => exact hzero s hs (Nat.le_zero.1 hrank)
  | succ n ih =>
    by_cases hQ : Q s
    · exact Within.here hQ
    · refine Within.next fun a ha => ?_
      obtain ⟨hI, hlt⟩ := hstep s a hs hQ ha
      exact ih hI (by omega)

/-- Along every list of labels that is long enough, `Q` is passed. -/
theorem Within.exists_prefix (h : Within step L Q n s) {as : List α} (hL : ∀ a ∈ as, L a)
    (hlen : n ≤ as.length) : ∃ pre, pre <+: as ∧ pre.length ≤ n ∧ Q (run step s pre) := by
  induction n generalizing s as with
  | zero => exact ⟨[], List.nil_prefix, le_refl 0, h⟩
  | succ n ih =>
    rcases h with hQ | hnext
    · exact ⟨[], List.nil_prefix, Nat.zero_le _, hQ⟩
    · cases as with
      | nil => simp at hlen
      | cons a as =>
        obtain ⟨ha, hL⟩ := List.forall_mem_cons.1 hL
        obtain ⟨pre, hpre, hle, hQ⟩ := ih (hnext a ha) hL (Nat.succ_le_succ_iff.1 hlen)
        exact ⟨a :: pre, List.cons_prefix_cons.2 ⟨rfl, hpre⟩, Nat.succ_le_succ hle, hQ⟩

/-- What no step leaves holds at the end of every list of labels that is long enough. -/
theorem Within.of_stable (h : Within step L Q n s) (hQ : ∀ s a, Q s → Q (step s a)) {as : List α}
    (hL : ∀ a ∈ as, L a) (hlen : n ≤ as.length) : Q (run step s as) := by
  obtain ⟨pre, ⟨post, rfl⟩, -, hpre⟩ := h.exists_prefix hL hlen
  rw [run_append]
  exact invariant hpre hQ post

/-- Under an invariant, what the labels with `L` give at a step holds at every step. -/
lemma along_of_invariant {I : σ → Prop} {D : σ → α → Prop} {as : List α} (hs : I s)
    (hstep : ∀ s a, I s → L a → I (step s a)) (hD : ∀ s a, I s → L a → D s a)
    (hL : ∀ a ∈ as, L a) : Along step D s as := by
  induction as generalizing s with
  | nil => trivial
  | cons a as ih =>
    obtain ⟨ha, hL⟩ := List.forall_mem_cons.1 hL
    exact ⟨hD s a hs ha, ih (hstep s a hs ha) hL⟩

end Within

/-! ## Simulation of a well-behaved run -/

/-- The simulation rule for runs whose steps all meet a condition: related states stay related,
and the two runs emit the same events. -/
theorem Along.simulate {τ : Type*} {step : σ → α → σ} {step' : τ → α → τ} {emit : σ → α → Option ε}
    {emit' : τ → α → Option ε} {C : σ → α → Prop} {R : σ → τ → Prop} {s : σ} {t : τ}
    {as : List α} (hC : Along step C s as) (hst : R s t)
    (hstep : ∀ s t a, R s t → C s a → emit s a = emit' t a ∧ R (step s a) (step' t a)) :
    R (run step s as) (run step' t as) ∧ trace step emit s as = trace step' emit' t as := by
  induction as generalizing s t with
  | nil => exact ⟨hst, rfl⟩
  | cons a as ih =>
    obtain ⟨hemit, hnext⟩ := hstep s t a hst hC.1
    obtain ⟨hrun, htrace⟩ := ih hC.2 hnext
    refine ⟨hrun, ?_⟩
    rw [trace_cons, trace_cons, hemit, htrace]

/-! ## Amortised cost -/

/-- If each event is paid for by the potential, all events of a run are paid for by the first. -/
theorem trace_length_add_le_potential {step : σ → α → σ} {emit : σ → α → Option ε}
    (potential : σ → ℕ) {s : σ} {as : List α}
    (hstep : Along step (fun s a => (emit s a).toList.length + potential (step s a) ≤
      potential s) s as) :
    (trace step emit s as).length + potential (run step s as) ≤ potential s := by
  induction as generalizing s with
  | nil => simp
  | cons a as ih =>
    obtain ⟨hfirst, hrest⟩ := hstep
    have htail := ih hrest
    simp only [trace_cons, run_cons, List.length_append]
    omega

/-- The amortised rule: if each event is paid for by the potential or by the credit of its step,
the events of a run are paid for by the first potential and all the credit. -/
theorem trace_length_add_le {step : σ → α → σ} {emit : σ → α → Option ε} (potential : σ → ℕ)
    (credit : σ → α → Option ℕ) {s : σ} {as : List α}
    (hstep : Along step (fun s a => (emit s a).toList.length + potential (step s a) ≤
      potential s + (credit s a).getD 0) s as) :
    (trace step emit s as).length + potential (run step s as) ≤
      potential s + (trace step credit s as).sum := by
  induction as generalizing s with
  | nil => simp
  | cons a as ih =>
    obtain ⟨hfirst, hrest⟩ := hstep
    have htail := ih hrest
    have hcredit : (credit s a).toList.sum = (credit s a).getD 0 := by
      cases credit s a <;> simp
    simp only [trace_cons, run_cons, List.length_append, List.sum_append, hcredit]
    omega

/-- The ledger rule: if each step moves its event from a list of things to do into the record, and
some steps put new things at the end of that list, then the record and what is left to do make up
what there was to do and what was put in. -/
theorem trace_append_eq {step : σ → α → σ} {emit : σ → α → Option ε} (todo : σ → List ε)
    (put : σ → α → Option (List ε)) {s : σ} {as : List α}
    (hstep : Along step (fun s a => (emit s a).toList ++ todo (step s a) =
      todo s ++ (put s a).getD []) s as) :
    trace step emit s as ++ todo (run step s as) = todo s ++ (trace step put s as).flatten := by
  induction as generalizing s with
  | nil => simp
  | cons a as ih =>
    obtain ⟨hfirst, hrest⟩ := hstep
    have hput : (put s a).toList.flatten = (put s a).getD [] := by
      cases put s a <;> simp
    rw [trace_cons, trace_cons, run_cons, List.append_assoc, ih hrest, ← List.append_assoc, hfirst,
      List.flatten_append, hput, List.append_assoc]

/-- A value that each event changes, and no other step, is the fold of the events. -/
theorem foldl_trace {τ : Type*} {step : σ → α → σ} {emit : σ → α → Option ε} (f : σ → τ)
    (g : τ → ε → τ) {s : σ} {as : List α}
    (hstep : Along step (fun s a => f (step s a) = (emit s a).toList.foldl g (f s)) s as) :
    f (run step s as) = (trace step emit s as).foldl g (f s) := by
  induction as generalizing s with
  | nil => rfl
  | cons a as ih =>
    obtain ⟨hfirst, hrest⟩ := hstep
    rw [run_cons, trace_cons, List.foldl_append, ← hfirst, ih hrest]

end LabelledRun
