/-
# The retentive timers over whole runs

`TONR` and `TOFR` add up the time between their evaluations instead of measuring it from an edge.
The time between two stamps is what `ms_diff` makes of them, which is not the number of milliseconds
when the later stamp has the smaller fraction of a second, and the sums are taken modulo `2 ^ 32`.
What their outputs are after any sequence of evaluations is therefore a statement about sums:
`TONR` is on from the first evaluation on that finds the total on-time at its preset, and it never
goes off again; `TOFR` stays on after its input has gone off until the off-time has run out.
-/
import Vm32.Vm.TimerRuns

namespace Vm32

open LabelledRun

/-- The stamp of an evaluation. -/
def TimerCall.stamp (c : TimerCall) : Timespec := timespecOfMs c.timeMs

/-- What `ms_diff` gives for consecutive evaluations under the same input `b`, added up modulo
`2 ^ 32` as the timer does. -/
def timeUnder (b : Bool) : List TimerCall → UInt32
  | c :: d :: es =>
    (if c.input = b ∧ d.input = b then msDiff c.stamp d.stamp else 0) + timeUnder b (d :: es)
  | _ => 0

/-- Some evaluation under the input `b` found the time under `b` at the preset in force. -/
def RanOut (b : Bool) (es : List TimerCall) : Prop :=
  ∃ pre e, pre ++ [e] <+: es ∧ e.input = b ∧ e.pt ≤ timeUnder b (pre ++ [e])

section Sums

variable {b : Bool} {es : List TimerCall} {c d : TimerCall}

@[simp] lemma timeUnder_nil : timeUnder b [] = 0 := rfl

@[simp] lemma timeUnder_singleton : timeUnder b [c] = 0 := rfl

/-- A further evaluation adds the time since the last one. -/
lemma timeUnder_concat_concat :
    timeUnder b (es ++ [d] ++ [c]) = timeUnder b (es ++ [d]) +
      if d.input = b ∧ c.input = b then msDiff d.stamp c.stamp else 0 := by
  induction es with
  | nil => simp [timeUnder]
  | cons a es ih =>
    cases es with
    | nil => simp [timeUnder]
    | cons a' es =>
      simp only [List.cons_append, timeUnder] at ih ⊢
      rw [ih, UInt32.add_assoc]

@[simp] lemma not_ranOut_nil : ¬RanOut b [] := by
  rintro ⟨pre, e, hpre, -⟩
  simp at hpre

lemma ranOut_concat :
    RanOut b (es ++ [c]) ↔ RanOut b es ∨ c.input = b ∧ c.pt ≤ timeUnder b (es ++ [c]) := by
  constructor
  · rintro ⟨pre, e, hpre, hinput, hpt⟩
    rcases List.prefix_concat_iff.1 hpre with heq | hpre
    · obtain ⟨rfl, hlast⟩ := List.append_inj' heq rfl
      obtain rfl : e = c := List.singleton_inj.1 hlast
      exact Or.inr ⟨hinput, hpt⟩
    · exact Or.inl ⟨pre, e, hpre, hinput, hpt⟩
  · rintro (⟨pre, e, hpre, hout⟩ | hout)
    · exact ⟨pre, e, hpre.trans (List.prefix_append es [c]), hout⟩
    · exact ⟨es, c, List.prefix_rfl, hout⟩

end Sums

/-! ### TONR -/

/-- The state of a `TONR` timer after the evaluations `es`. -/
structure IECTimer.Tonr (t : IECTimer) (es : List TimerCall) : Prop where
  prevInput : t.prevInput = lastInput es
  output : t.output = true ↔ RanOut true es
  elapsed : ¬RanOut true es → t.ET = timeUnder true es
  running : ¬RanOut true es → ∀ e ∈ es.getLast?, e.input = true →
    t.timing = true ∧ t.start = e.stamp

section Tonr

variable {t : IECTimer} {es : List TimerCall} {c : TimerCall}

/-- An evaluation under false input only remembers the input. -/
lemma updateTonr_off (hinput : c.input = false) :
    updateTonr c.timeMs (t.set c.input c.pt) = { t.set c.input c.pt with prevInput := false } := by
  simp [updateTonr, IECTimer.set, hinput]

/-- Under true input the time since the stamp is added, and the stamp moves along. -/
lemma updateTonr_on (hinput : c.input = true)
    (htiming : t.prevInput = true → t.timing = true) :
    updateTonr c.timeMs (t.set c.input c.pt) =
      let ET := t.ET + msDiff (if t.prevInput then t.start else c.stamp) c.stamp
      { t.set c.input c.pt with
        start := c.stamp, ET := ET, output := t.output || decide (c.pt ≤ ET)
        timing := !decide (c.pt ≤ ET), prevInput := true } := by
  have hstamp : c.stamp = timespecOfMs c.timeMs := rfl
  rw [hstamp]
  cases hprev : t.prevInput with
  | true =>
    have hrun := htiming hprev
    by_cases hpt : c.pt ≤ t.ET + msDiff t.start (timespecOfMs c.timeMs) <;>
      simp [updateTonr, IECTimer.set, hinput, hprev, hrun, hpt]
  | false =>
    by_cases hpt : c.pt ≤ t.ET + msDiff (timespecOfMs c.timeMs) (timespecOfMs c.timeMs) <;>
      simp [updateTonr, IECTimer.set, IECTimer.startAt, hinput, hprev, hpt]

/-- Once it is on, the timer stays on. -/
lemma updateTonr_of_output (houtput : t.output = true) :
    (updateTonr c.timeMs (t.set c.input c.pt)).output = true ∧
      (updateTonr c.timeMs (t.set c.input c.pt)).prevInput = c.input := by
  cases c.input <;> cases hprev : t.prevInput <;> cases htiming : t.timing <;>
    simp [updateTonr, IECTimer.set, IECTimer.startAt, hprev, htiming, houtput,
      apply_ite IECTimer.output, apply_ite IECTimer.input]

lemma IECTimer.Tonr.next (h : t.Tonr es) :
    (updateTonr c.timeMs (t.set c.input c.pt)).Tonr (es ++ [c]) := by
  by_cases hout : RanOut true es
  · -- the timer has run out before
    obtain ⟨houtput, hprev⟩ := updateTonr_of_output (c := c) (h.output.2 hout)
    have hout' : RanOut true (es ++ [c]) := ranOut_concat.2 (Or.inl hout)
    exact ⟨hprev.trans (lastInput_concat es c).symm, iff_of_true houtput hout',
      fun hnot => absurd hout' hnot, fun hnot => absurd hout' hnot⟩
  have hoff : t.output = false := by simpa [hout] using h.output
  cases hinput : c.input with
  | false =>
    have hsame : timeUnder true (es ++ [c]) = timeUnder true es := by
      induction es using List.reverseRecOn with
      | nil => rfl
      | append_singleton es d _ => rw [timeUnder_concat_concat]; simp [hinput]
    have hnot : ¬RanOut true (es ++ [c]) := by simp [ranOut_concat, hout, hinput]
    rw [← hinput, updateTonr_off hinput]
    refine ⟨by simp [hinput], by simp [IECTimer.set, hnot, hoff], fun _ => ?_, fun _ e he => ?_⟩
    · exact (h.elapsed hout).trans hsame.symm
    · simp only [List.getLast?_concat, Option.mem_def, Option.some.injEq] at he
      simp [← he, hinput]
  | true =>
    have hsum : t.ET + msDiff (if t.prevInput then t.start else c.stamp) c.stamp =
        timeUnder true (es ++ [c]) := by
      rw [h.elapsed hout]
      induction es using List.reverseRecOn with
      | nil =>
        have hprev : t.prevInput = false := h.prevInput
        simp [hprev, TimerCall.stamp, msDiff_self]
      | append_singleton es d _ =>
        have hprev : t.prevInput = d.input := h.prevInput.trans (lastInput_concat es d)
        rw [timeUnder_concat_concat, hprev]
        cases hd : d.input with
        | false => simp [TimerCall.stamp, msDiff_self]
        | true => simp [hinput, (h.running hout d (by simp) hd).2]
    have htiming : t.prevInput = true → t.timing = true := by
      intro hprev
      rw [h.prevInput] at hprev
      induction es using List.reverseRecOn with
      | nil => simp [lastInput] at hprev
      | append_singleton es d _ =>
        exact (h.running hout d (by simp) (by simpa using hprev)).1
    rw [← hinput, updateTonr_on hinput htiming]
    simp only [hsum]
    refine ⟨by simp [hinput], ?_, fun _ => rfl, fun hnot e he _ => ?_⟩
    · simp [ranOut_concat, hout, hoff, hinput]
    · simp only [List.getLast?_concat, Option.mem_def, Option.some.injEq] at he
      obtain rfl := he
      have hpt : ¬c.pt ≤ timeUnder true (es ++ [c]) := fun hle =>
        hnot (ranOut_concat.2 (Or.inr ⟨hinput, hle⟩))
      exact ⟨by rw [decide_eq_false hpt, Bool.not_false], rfl⟩

lemma tonr_calls (es : List TimerCall) : (TimerKind.tonr.calls .cleared es).Tonr es := by
  induction es using List.reverseRecOn with
  | nil => exact ⟨rfl, by simp [TimerKind.calls, IECTimer.cleared], fun _ => rfl, by simp⟩
  | append_singleton es c ih =>
    rw [TimerKind.calls_concat]
    exact ih.next

/-- The output of a `TONR` timer is on exactly if at some evaluation with its input on the sum of what
`ms_diff` gave between evaluations with the input on had reached the preset in force. -/
theorem tonr_run (vm : VmState) (id : UInt8) (hid : id.toNat < maxTimers)
    (hcleared : vm.tonrTimers id.toNat = .cleared) (calls : List IecCall) :
    tonrQ (run IecCall.apply vm calls) id = true ↔
      RanOut true (evaluations .tonr id vm.timeMs calls) := by
  have hq : tonrQ (run IecCall.apply vm calls) id =
      (TimerKind.tonr.calls .cleared (evaluations .tonr id vm.timeMs calls)).output :=
    q_run (k := .tonr) hid hcleared calls
  rw [hq]
  exact (tonr_calls _).output

/-- A `TONR` timer with a preset of 10 ms whose input is on from 0 to 6 ms and from 20 to 24 ms. -/
theorem tonr_run_twice :
    let calls := [.set .tonr 0 true 10, .time 6, .set .tonr 0 false 10, .time 20,
      .set .tonr 0 true 10, .time 24, .updateAll]
    tonrQ (run IecCall.apply vmCreate calls) 0 = true ↔
      RanOut true (evaluations .tonr 0 vmCreate.timeMs calls) :=
  tonr_run vmCreate 0 (by decide) rfl _

end Tonr

/-! ### TOFR -/

/-- The state of a `TOFR` timer in a stretch of false input, after its input was on or not. -/
def IECTimer.Tofr (t : IECTimer) (seen : Prop) : List TimerCall → Prop
  | [] => (t.prevInput = true ↔ seen) ∧ (t.output = true ↔ seen) ∧ t.timing = false ∧ t.ET = 0
  | f :: es => t.prevInput = false ∧ (t.output = true ↔ seen ∧ ¬RanOut false (f :: es)) ∧
    t.timing = t.output ∧ (t.timing = true → t.ET = timeUnder false (f :: es) ∧
      ∀ e ∈ (f :: es).getLast?, t.start = e.stamp)

section Tofr

variable {t : IECTimer} {es : List TimerCall} {c : TimerCall} {seen : Prop}

/-- True input is a reset. -/
lemma updateTofr_on (hinput : c.input = true) (hseen : seen) :
    (updateTofr c.timeMs (t.set c.input c.pt)).Tofr seen [] := by
  by_cases hpt : c.pt ≤ t.ET + msDiff t.start (timespecOfMs c.timeMs) <;>
    cases hprev : t.prevInput <;> cases htiming : t.timing <;>
    simp [updateTofr, IECTimer.set, IECTimer.Tofr, hinput, hprev, htiming, hseen, hpt]

/-- Under false input a timer that is timing adds the time since the stamp, which is that of the
evaluation itself at a falling edge. -/
lemma updateTofr_off (hinput : c.input = false) (htiming : t.prevInput = true ∨ t.timing = true) :
    updateTofr c.timeMs (t.set c.input c.pt) =
      let ET := t.ET + msDiff (if t.prevInput then c.stamp else t.start) c.stamp
      { t.set c.input c.pt with
        start := c.stamp, ET := ET, output := !decide (c.pt ≤ ET)
        timing := !decide (c.pt ≤ ET), prevInput := false } := by
  have hstamp : c.stamp = timespecOfMs c.timeMs := rfl
  rw [hstamp]
  cases hprev : t.prevInput with
  | true =>
    by_cases hpt : c.pt ≤ t.ET + msDiff (timespecOfMs c.timeMs) (timespecOfMs c.timeMs) <;>
      simp [updateTofr, IECTimer.set, IECTimer.startAt, hinput, hprev, hpt]
  | false =>
    have hrun : t.timing = true := by simpa [hprev] using htiming
    by_cases hpt : c.pt ≤ t.ET + msDiff t.start (timespecOfMs c.timeMs) <;>
      simp [updateTofr, IECTimer.set, hinput, hprev, hrun, hpt]

/-- Without an edge a timer that is not timing only remembers the input. -/
lemma updateTofr_idle (hinput : c.input = false) (hprev : t.prevInput = false)
    (htiming : t.timing = false) :
    updateTofr c.timeMs (t.set c.input c.pt) = t.set c.input c.pt := by
  obtain ⟨enabled, input, output, prevInput, timing, start, presetMs, ET⟩ := t
  simp_all [updateTofr, IECTimer.set]

lemma IECTimer.Tofr.off (h : t.Tofr seen es) (hall : ∀ e ∈ es, e.input = false)
    (hinput : c.input = false) :
    (updateTofr c.timeMs (t.set c.input c.pt)).Tofr seen (es ++ [c]) := by
  have hnext : ∀ sum : UInt32, timeUnder false (es ++ [c]) = sum → ¬RanOut false es →
      (RanOut false (es ++ [c]) ↔ c.pt ≤ sum) := by
    rintro _ rfl hnot
    rw [ranOut_concat]
    simp [hnot, hinput]
  cases es with
  | nil =>
    obtain ⟨hprev, houtput, htiming, hET⟩ := h
    by_cases hseen : seen
    · -- the falling edge
      have hedge : t.prevInput = true := hprev.2 hseen
      have hsum : t.ET + msDiff (if t.prevInput then c.stamp else t.start) c.stamp = 0 := by
        simp [hET, hedge, TimerCall.stamp, msDiff_self]
      rw [updateTofr_off hinput (Or.inl hedge)]
      simp only [hsum]
      refine ⟨rfl, ?_, rfl, fun _ => ⟨rfl, by simp⟩⟩
      have hran : RanOut false [c] ↔ c.pt ≤ 0 := hnext 0 rfl not_ranOut_nil
      rw [hran]
      simp [hseen]
    · have hedge : t.prevInput = false := by simpa [hseen] using hprev
      have hoff : t.output = false := by simpa [hseen] using houtput
      rw [updateTofr_idle hinput hedge htiming]
      refine ⟨hedge, ?_, htiming.trans hoff.symm, fun hrun => ?_⟩
      · exact iff_of_false (by simp [IECTimer.set, hoff]) fun hnot => hseen hnot.1
      · rw [show (t.set c.input c.pt).timing = t.timing from rfl, htiming] at hrun
        cases hrun
  | cons f es =>
    obtain ⟨hprev, houtput, htiming, hrun⟩ := h
    cases hout : t.output with
    | true =>
      obtain ⟨hET, hstart⟩ := hrun (htiming.trans hout)
      obtain ⟨hseen, hnot⟩ := houtput.1 hout
      have hsum : t.ET + msDiff (if t.prevInput then c.stamp else t.start) c.stamp =
          timeUnder false (f :: es ++ [c]) := by
        rcases List.eq_nil_or_concat (f :: es) with hnil | ⟨init, d, hconcat⟩
        · cases hnil
        rw [List.concat_eq_append] at hconcat
        rw [hET, hconcat, timeUnder_concat_concat, hprev]
        have hd : d.input = false := hall d (by rw [hconcat]; simp)
        have hlast : t.start = d.stamp := hstart d (by rw [hconcat]; simp)
        simp [hd, hinput, hlast]
      rw [updateTofr_off hinput (Or.inr (htiming.trans hout))]
      simp only [hsum]
      refine ⟨rfl, ?_, rfl, fun _ => ⟨rfl, fun e he => ?_⟩⟩
      · have hran : RanOut false (f :: (es ++ [c])) ↔ c.pt ≤ timeUnder false (f :: es ++ [c]) :=
          hnext _ rfl hnot
        simp [hseen, hran]
      · have hlast : (f :: (es ++ [c])).getLast? = some c := by
          rw [← List.cons_append, List.getLast?_concat]
        obtain rfl := Option.some.inj (hlast.symm.trans he)
        rfl
    | false =>
      rw [hout] at htiming
      rw [updateTofr_idle hinput hprev htiming]
      refine ⟨hprev, ?_, htiming.trans hout.symm, fun hrun => ?_⟩
      · refine iff_of_false (by simp [IECTimer.set, hout]) ?_
        rintro ⟨hseen, hnot⟩
        have hran : ¬RanOut false (f :: es) := fun hran =>
          hnot (ranOut_concat.2 (Or.inl hran))
        simp [hout, hseen, hran] at houtput
      · rw [show (t.set c.input c.pt).timing = t.timing from rfl, htiming] at hrun
        cases hrun

lemma tofr_calls (es : List TimerCall) :
    (TimerKind.tofr.calls .cleared es).Tofr (∃ e ∈ es, e.input = true) (offStretch es) := by
  induction es using List.reverseRecOn with
  | nil => simp [TimerKind.calls, offStretch, IECTimer.Tofr, IECTimer.cleared]
  | append_singleton es c ih =>
    rw [TimerKind.calls_concat, offStretch, List.rtakeWhile_concat]
    cases hinput : c.input with
    | true =>
      have hseen : ∃ e ∈ es ++ [c], e.input = true := ⟨c, by simp, hinput⟩
      have hon := updateTofr_on (t := TimerKind.tofr.calls .cleared es) hinput hseen
      rw [hinput] at hon
      exact hon
    | false =>
      have hsame : (∃ e ∈ es ++ [c], e.input = true) ↔ ∃ e ∈ es, e.input = true := by
        simp [hinput, or_and_right, exists_or]
      have hall : ∀ e ∈ offStretch es, e.input = false := by
        intro e he
        simpa using List.mem_rtakeWhile_imp he
      have hoff := ih.off hall hinput
      rw [hinput] at hoff
      rw [hsame]
      exact hoff

/-- The output of a `TOFR` timer is on exactly if its input is on, or its input was on before and
the sum of what `ms_diff` gave in the current stretch of false input never reached the preset in
force. -/
theorem tofr_run (vm : VmState) (id : UInt8) (hid : id.toNat < maxTimers)
    (hcleared : vm.tofrTimers id.toNat = .cleared) (calls : List IecCall) :
    let es := evaluations .tofr id vm.timeMs calls
    tofrQ (run IecCall.apply vm calls) id = true ↔
      lastInput es = true ∨ (∃ e ∈ es, e.input = true) ∧ ¬RanOut false (offStretch es) := by
  intro es
  have hq : tofrQ (run IecCall.apply vm calls) id = (TimerKind.tofr.calls .cleared es).output :=
    q_run (k := .tofr) hid hcleared calls
  have htofr := tofr_calls es
  rw [hq]
  cases hstretch : offStretch es with
  | nil =>
    rw [hstretch] at htofr
    rw [htofr.2.1]
    simp only [not_ranOut_nil, not_false_eq_true, and_true]
    exact ⟨Or.inr, fun h => h.elim exists_of_lastInput fun hseen => hseen⟩
  | cons f rest =>
    rw [hstretch] at htofr
    have hlast : lastInput es = false :=
      lastInput_of_offStretch (by rw [hstretch]; exact List.cons_ne_nil f rest)
    rw [htofr.2.1, hlast]
    simp

/-- A `TOFR` timer with a preset of 10 ms whose input goes off at 5 ms. -/
theorem tofr_run_off :
    let calls := [.set .tofr 0 true 10, .time 5, .set .tofr 0 false 10, .time 9, .updateAll,
      .time 16, .updateAll]
    let es := evaluations .tofr 0 vmCreate.timeMs calls
    tofrQ (run IecCall.apply vmCreate calls) 0 = true ↔
      lastInput es = true ∨ (∃ e ∈ es, e.input = true) ∧ ¬RanOut false (offStretch es) :=
  tofr_run vmCreate 0 (by decide) rfl _

end Tofr

end Vm32
