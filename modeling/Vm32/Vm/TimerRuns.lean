/-
# The timers over whole runs

What the outputs of `TON`, `TOF` and `TP` are after any sequence of evaluations, in terms of the
inputs, presets and times of the evaluations alone, and what the edge memory of a timer is.
`TON` and `TOF` follow IEC 61131-3; `TP` does so as long as no rising edge comes during a pulse,
and the edge memory is that of the last evaluation as long as its preset is not zero.
-/
import Mathlib.Data.List.DropRight
import Vm32.Vm.IecCalls
import Vm32.Vm.Instruction
import Vm32.Vm.Lifecycle

namespace Vm32

open LabelledRun

/-- From the evaluation `r` to the evaluation `e` the preset in force at `e` has elapsed. -/
def TimerCall.Reaches (r e : TimerCall) : Prop :=
  e.pt ≤ msDiff (timespecOfMs r.timeMs) (timespecOfMs e.timeMs)

instance (r e : TimerCall) : Decidable (r.Reaches e) :=
  inferInstanceAs (Decidable (e.pt ≤ msDiff (timespecOfMs r.timeMs) (timespecOfMs e.timeMs)))

section Presets

variable {t : IECTimer} {c : TimerCall}

/-- A preset that is not zero is not reached at once. -/
lemma TimerCall.not_reaches_self (hpt : 1 ≤ c.pt) : ¬c.Reaches c := by
  rw [TimerCall.Reaches, msDiff_self, UInt32.not_le]
  rw [UInt32.le_iff_toNat_le] at hpt
  exact UInt32.lt_iff_toNat_lt.2 hpt

lemma ne_zero_of_one_le (hpt : 1 ≤ c.pt) : (c.pt == 0) = false := by
  rw [beq_eq_false_iff_ne]
  rintro hzero
  rw [hzero] at hpt
  cases hpt

lemma not_le_zero_of_one_le (hpt : 1 ≤ c.pt) : ¬c.pt ≤ 0 := fun hle =>
  TimerCall.not_reaches_self hpt (by rwa [TimerCall.Reaches, msDiff_self])

lemma TimerKind.calls_concat (k : TimerKind) (cs : List TimerCall) (c : TimerCall) :
    k.calls t (cs ++ [c]) = k.update c.timeMs ((k.calls t cs).set c.input c.pt) := by
  rw [TimerKind.calls, TimerKind.calls, List.foldl_append]
  rfl

end Presets

/-- The input of the last evaluation; that of a cleared timer is off. -/
def lastInput (es : List TimerCall) : Bool := (es.getLast?.map TimerCall.input).getD false

@[simp] lemma lastInput_concat (es : List TimerCall) (e : TimerCall) :
    lastInput (es ++ [e]) = e.input := by
  simp [lastInput]

/-! ### TON -/

/-- The stretch of true input that lasts at the end. -/
def onStretch (es : List TimerCall) : List TimerCall := es.rtakeWhile (·.input)

/-- The state of a `TON` timer in a stretch of true input. -/
def IECTimer.Ton (t : IECTimer) : List TimerCall → Prop
  | [] => t.prevInput = false ∧ t.output = false ∧ t.timing = false
  | r :: es => t.prevInput = true ∧ (t.output = true ↔ ∃ e ∈ r :: es, r.Reaches e) ∧
    t.timing = !t.output ∧ (t.timing = true → t.start = timespecOfMs r.timeMs)

section Ton

variable {t : IECTimer} {es : List TimerCall} {c : TimerCall}

/-- A rising edge starts the measurement. -/
lemma updateTon_edge (hpt : 1 ≤ c.pt) (hinput : c.input = true) (hprev : t.prevInput = false) :
    updateTon c.timeMs (t.set c.input c.pt) =
      { t.set c.input c.pt with
        start := timespecOfMs c.timeMs, timing := true, ET := 0, prevInput := true } := by
  simp [updateTon, IECTimer.set, IECTimer.startAt, ne_zero_of_one_le hpt, hinput, hprev,
    msDiff_self, not_le_zero_of_one_le hpt]

/-- The evaluation of a running measurement. -/
lemma updateTon_running {r : TimerCall} (hpt : 1 ≤ c.pt) (hinput : c.input = true)
    (hprev : t.prevInput = true) (htiming : t.timing = true)
    (hstart : t.start = timespecOfMs r.timeMs) :
    updateTon c.timeMs (t.set c.input c.pt) =
      { t.set c.input c.pt with
        output := t.output || decide (r.Reaches c), timing := !decide (r.Reaches c),
        ET := msDiff (timespecOfMs r.timeMs) (timespecOfMs c.timeMs), prevInput := true } := by
  have hne := ne_zero_of_one_le hpt
  by_cases hreach : r.Reaches c
  · have hle : c.pt ≤ msDiff (timespecOfMs r.timeMs) (timespecOfMs c.timeMs) := hreach
    simp [updateTon, IECTimer.set, hne, hinput, hprev, htiming, hstart, hle, hreach]
  · have hle : ¬c.pt ≤ msDiff (timespecOfMs r.timeMs) (timespecOfMs c.timeMs) := hreach
    simp [updateTon, IECTimer.set, hne, hinput, hprev, htiming, hstart, hle, hreach]

/-- When the preset was not reached before, it is reached by the last evaluation. -/
lemma exists_reaches_concat_iff {r : TimerCall} (hnot : ¬∃ e ∈ r :: es, r.Reaches e) :
    (∃ e ∈ r :: (es ++ [c]), r.Reaches e) ↔ r.Reaches c := by
  rw [← List.cons_append]
  constructor
  · rintro ⟨e, he, hreach⟩
    rcases List.mem_append.1 he with he | he
    · exact absurd ⟨e, he, hreach⟩ hnot
    · rwa [List.mem_singleton.1 he] at hreach
  · exact fun hreach => ⟨c, by simp, hreach⟩

/-- An evaluation with the input on. -/
lemma IECTimer.Ton.on (h : t.Ton es) (hinput : c.input = true) (hpt : 1 ≤ c.pt) :
    (updateTon c.timeMs (t.set c.input c.pt)).Ton (es ++ [c]) := by
  cases es with
  | nil =>
    obtain ⟨hprev, houtput, -⟩ := h
    rw [updateTon_edge hpt hinput hprev]
    refine ⟨rfl, ?_, ?_, fun _ => rfl⟩
    · simp [IECTimer.set, houtput, TimerCall.not_reaches_self hpt]
    · simp [IECTimer.set, houtput]
  | cons r es =>
    obtain ⟨hprev, houtput, htiming, hstart⟩ := h
    cases hon : t.output with
    | true =>
      -- the preset was reached before
      rw [hon] at htiming
      have hupdate : updateTon c.timeMs (t.set c.input c.pt) =
          { t.set c.input c.pt with prevInput := true } := by
        simp [updateTon, IECTimer.set, ne_zero_of_one_le hpt, hinput, hprev, htiming]
      obtain ⟨e, he, hreach⟩ := houtput.1 hon
      rw [hupdate]
      refine ⟨rfl, ?_, ?_, ?_⟩
      · exact iff_of_true hon ⟨e, List.mem_append_left _ he, hreach⟩
      · simp [IECTimer.set, htiming, hon]
      · simp [IECTimer.set, htiming]
    | false =>
      rw [hon] at htiming
      have hnot : ¬∃ e ∈ r :: es, r.Reaches e := by
        rw [← houtput, hon]
        exact Bool.false_ne_true
      rw [List.cons_append, IECTimer.Ton, exists_reaches_concat_iff hnot,
        updateTon_running hpt hinput hprev htiming (hstart htiming), hon]
      refine ⟨rfl, ?_, ?_, fun _ => hstart htiming⟩
      · simp
      · simp

/-- An evaluation with the input off. -/
lemma updateTon_off (hinput : c.input = false) (hpt : 1 ≤ c.pt) :
    (updateTon c.timeMs (t.set c.input c.pt)).Ton [] := by
  have hne := ne_zero_of_one_le hpt
  simp [updateTon, IECTimer.set, IECTimer.Ton, hne, hinput]

lemma ton_calls (es : List TimerCall) (hpts : ∀ e ∈ es, 1 ≤ e.pt) :
    (TimerKind.ton.calls .cleared es).Ton (onStretch es) := by
  induction es using List.reverseRecOn with
  | nil => exact ⟨rfl, rfl, rfl⟩
  | append_singleton es c ih =>
    have hpt : 1 ≤ c.pt := hpts c (by simp)
    have hold := ih fun e he => hpts e (List.mem_append_left _ he)
    rw [TimerKind.calls_concat, onStretch, List.rtakeWhile_concat]
    split_ifs with hinput
    · exact hold.on hinput hpt
    · exact updateTon_off (by simpa using hinput) hpt

lemma lastInput_of_onStretch (hne : onStretch es ≠ []) : lastInput es = true := by
  induction es using List.reverseRecOn with
  | nil => exact absurd rfl hne
  | append_singleton es c ih =>
    rw [lastInput_concat]
    by_contra hoff
    exact hne (by rw [onStretch, List.rtakeWhile_concat, if_neg hoff])

/-- The output of a `TON` timer is on exactly if its input is on and some evaluation, since the
one at which the current stretch of true input began, saw its preset elapsed since that one. -/
theorem ton_run (vm : VmState) (id : UInt8) (hid : id.toNat < maxTimers)
    (hcleared : vm.tonTimers id.toNat = .cleared) (calls : List IecCall)
    (hpresets : ∀ input pt, IecCall.set .ton id input pt ∈ calls → 1 ≤ pt) :
    let es := evaluations .ton id vm.timeMs calls
    tonQ (run IecCall.apply vm calls) id = true ↔
      lastInput es = true ∧
        ∃ r ∈ (onStretch es).head?, ∃ e ∈ onStretch es, r.Reaches e := by
  intro es
  have hq : tonQ (run IecCall.apply vm calls) id = (TimerKind.ton.calls .cleared es).output :=
    q_run (k := .ton) hid hcleared calls
  have hton := ton_calls es (evaluations_pt hpresets vm.timeMs)
  rw [hq]
  cases hstretch : onStretch es with
  | nil =>
    rw [hstretch] at hton
    simp [hton.2.1]
  | cons r rest =>
    rw [hstretch] at hton
    rw [hton.2.1, lastInput_of_onStretch (by rw [hstretch]; exact List.cons_ne_nil r rest)]
    simp

/-- A `TON` timer with a preset of 10 ms that is on since 5 ms. -/
theorem ton_run_on :
    let calls := [.time 5, .set .ton 0 true 10, .time 12, .updateAll, .time 15, .updateAll]
    let es := evaluations .ton 0 vmCreate.timeMs calls
    (tonQ (run IecCall.apply vmCreate calls) 0 = true ↔
      lastInput es = true ∧
        ∃ r ∈ (onStretch es).head?, ∃ e ∈ onStretch es, r.Reaches e) ∧
      tonQ (run IecCall.apply vmCreate calls) 0 = true := by
  refine ⟨ton_run vmCreate 0 (by decide) rfl _ ?_, by decide⟩
  rintro input pt hmem
  simp only [List.mem_cons, IecCall.set.injEq, reduceCtorEq, List.not_mem_nil, or_false,
    false_or] at hmem
  obtain ⟨-, -, -, rfl⟩ := hmem
  decide

end Ton

/-! ### TOF -/

/-- The stretch of false input that lasts at the end. -/
def offStretch (es : List TimerCall) : List TimerCall := es.rtakeWhile (!·.input)

/-- The state of a `TOF` timer in a stretch of false input, after its input was on or not. -/
def IECTimer.Tof (t : IECTimer) (seen : Prop) : List TimerCall → Prop
  | [] => (t.prevInput = true ↔ seen) ∧ (t.output = true ↔ seen) ∧ t.timing = false
  | f :: es => t.prevInput = false ∧
    (t.output = true ↔ seen ∧ ∀ e ∈ f :: es, ¬f.Reaches e) ∧
    t.timing = t.output ∧ (t.timing = true → t.start = timespecOfMs f.timeMs)

section Tof

variable {t : IECTimer} {seen : Prop} {es : List TimerCall} {c : TimerCall}

/-- An evaluation with the input on. -/
lemma updateTof_on (hinput : c.input = true) (hpt : 1 ≤ c.pt) (hseen : seen) :
    (updateTof c.timeMs (t.set c.input c.pt)).Tof seen [] := by
  have hne := ne_zero_of_one_le hpt
  simp [updateTof, IECTimer.set, IECTimer.Tof, hne, hinput, hseen]

/-- A falling edge starts the measurement. -/
lemma updateTof_edge (hpt : 1 ≤ c.pt) (hinput : c.input = false) (hprev : t.prevInput = true) :
    updateTof c.timeMs (t.set c.input c.pt) =
      { t.set c.input c.pt with
        start := timespecOfMs c.timeMs, timing := true, ET := 0, output := true,
        prevInput := false } := by
  simp [updateTof, IECTimer.set, IECTimer.startAt, ne_zero_of_one_le hpt, hinput, hprev,
    msDiff_self, not_le_zero_of_one_le hpt]

/-- The evaluation of a running measurement. -/
lemma updateTof_running {f : TimerCall} (hpt : 1 ≤ c.pt) (hinput : c.input = false)
    (hprev : t.prevInput = false) (htiming : t.timing = true)
    (hstart : t.start = timespecOfMs f.timeMs) :
    updateTof c.timeMs (t.set c.input c.pt) =
      { t.set c.input c.pt with
        output := !decide (f.Reaches c), timing := !decide (f.Reaches c),
        ET := msDiff (timespecOfMs f.timeMs) (timespecOfMs c.timeMs), prevInput := false } := by
  have hne := ne_zero_of_one_le hpt
  by_cases hreach : f.Reaches c
  · have hle : c.pt ≤ msDiff (timespecOfMs f.timeMs) (timespecOfMs c.timeMs) := hreach
    simp [updateTof, IECTimer.set, hne, hinput, hprev, htiming, hstart, hle, hreach]
  · have hle : ¬c.pt ≤ msDiff (timespecOfMs f.timeMs) (timespecOfMs c.timeMs) := hreach
    simp [updateTof, IECTimer.set, hne, hinput, hprev, htiming, hstart, hle, hreach]

/-- An evaluation with the input off. -/
lemma IECTimer.Tof.off (h : t.Tof seen es) (hinput : c.input = false) (hpt : 1 ≤ c.pt) :
    (updateTof c.timeMs (t.set c.input c.pt)).Tof seen (es ++ [c]) := by
  have hne := ne_zero_of_one_le hpt
  cases es with
  | nil =>
    obtain ⟨hprev, houtput, htiming⟩ := h
    by_cases hseen : seen
    · -- the falling edge: the off-delay starts with this call
      rw [updateTof_edge hpt hinput (hprev.2 hseen)]
      refine ⟨rfl, ?_, rfl, fun _ => rfl⟩
      simp [hseen, TimerCall.not_reaches_self hpt]
    · -- the input was never on
      have hprev : t.prevInput = false := by simpa [hseen] using hprev
      have hoff : t.output = false := by simpa [hseen] using houtput
      simp [updateTof, IECTimer.set, IECTimer.Tof, hne, hinput, hprev, hoff, htiming, hseen]
  | cons f es =>
    obtain ⟨hprev, houtput, htiming, hstart⟩ := h
    -- the output was on so far exactly if no call reached the preset
    have hiff : (seen ∧ ∀ e ∈ f :: (es ++ [c]), ¬f.Reaches e) ↔
        t.output = true ∧ ¬f.Reaches c := by
      rw [houtput, ← List.cons_append, List.forall_mem_append, and_assoc]
      simp
    rw [List.cons_append, IECTimer.Tof, hiff]
    cases hon : t.output with
    | false =>
      rw [hon] at htiming
      simp [updateTof, IECTimer.set, hne, hinput, hprev, htiming, hon]
    | true =>
      -- the delay is running, and this call either reaches the preset or not
      rw [hon] at htiming
      rw [updateTof_running hpt hinput hprev htiming (hstart htiming)]
      refine ⟨rfl, ?_, rfl, fun _ => hstart htiming⟩
      simp

lemma tof_calls (es : List TimerCall) (hpts : ∀ e ∈ es, 1 ≤ e.pt) :
    (TimerKind.tof.calls .cleared es).Tof (∃ e ∈ es, e.input = true) (offStretch es) := by
  induction es using List.reverseRecOn with
  | nil => simp [TimerKind.calls, offStretch, IECTimer.Tof, IECTimer.cleared]
  | append_singleton es c ih =>
    have hpt : 1 ≤ c.pt := hpts c (by simp)
    have hold := ih fun e he => hpts e (List.mem_append_left _ he)
    rw [TimerKind.calls_concat, offStretch, List.rtakeWhile_concat]
    rcases Bool.eq_false_or_eq_true c.input with hinput | hinput
    · rw [if_neg (by simp [hinput])]
      exact updateTof_on hinput hpt ⟨c, by simp, hinput⟩
    · have hseen : (∃ e ∈ es ++ [c], e.input = true) ↔ ∃ e ∈ es, e.input = true := by
        simp [or_and_right, exists_or, hinput]
      rw [if_pos (by simp [hinput]), hseen]
      exact hold.off hinput hpt

lemma exists_of_lastInput (hon : lastInput es = true) : ∃ e ∈ es, e.input = true := by
  induction es using List.reverseRecOn with
  | nil => simp [lastInput] at hon
  | append_singleton es c _ => exact ⟨c, by simp, by simpa using hon⟩

lemma lastInput_of_offStretch (hne : offStretch es ≠ []) : lastInput es = false := by
  induction es using List.reverseRecOn with
  | nil => rfl
  | append_singleton es c _ =>
    rw [lastInput_concat]
    by_contra hon
    exact hne (by rw [offStretch, List.rtakeWhile_concat, if_neg (by simpa using hon)])

/-- The output of a `TOF` timer is on exactly if its input is on, or was on before and no
evaluation, from the last falling edge on, saw its preset elapsed since that edge. -/
theorem tof_run (vm : VmState) (id : UInt8) (hid : id.toNat < maxTimers)
    (hcleared : vm.tofTimers id.toNat = .cleared) (calls : List IecCall)
    (hpresets : ∀ input pt, IecCall.set .tof id input pt ∈ calls → 1 ≤ pt) :
    let es := evaluations .tof id vm.timeMs calls
    tofQ (run IecCall.apply vm calls) id = true ↔
      lastInput es = true ∨ (∃ e ∈ es, e.input = true) ∧
        ∀ f ∈ (offStretch es).head?, ∀ e ∈ offStretch es, ¬f.Reaches e := by
  intro es
  have hq : tofQ (run IecCall.apply vm calls) id = (TimerKind.tof.calls .cleared es).output :=
    q_run (k := .tof) hid hcleared calls
  have htof := tof_calls es (evaluations_pt hpresets vm.timeMs)
  rw [hq]
  cases hstretch : offStretch es with
  | nil =>
    rw [hstretch] at htof
    rw [htof.2.1]
    simpa using exists_of_lastInput
  | cons f rest =>
    rw [hstretch] at htof
    have hlast : lastInput es = false :=
      lastInput_of_offStretch (by rw [hstretch]; exact List.cons_ne_nil f rest)
    rw [htof.2.1, hlast]
    simp

/-- A `TOF` timer with a preset of 10 ms whose input was on until 8 ms. -/
theorem tof_run_off :
    let calls := [.time 5, .set .tof 0 true 10, .time 8, .set .tof 0 false 10, .time 12, .updateAll]
    let es := evaluations .tof 0 vmCreate.timeMs calls
    (tofQ (run IecCall.apply vmCreate calls) 0 = true ↔
      lastInput es = true ∨ (∃ e ∈ es, e.input = true) ∧
        ∀ f ∈ (offStretch es).head?, ∀ e ∈ offStretch es, ¬f.Reaches e) ∧
      tofQ (run IecCall.apply vmCreate calls) 0 = true := by
  refine ⟨tof_run vmCreate 0 (by decide) rfl _ ?_, by decide⟩
  rintro input pt hmem
  simp only [List.mem_cons, IecCall.set.injEq, reduceCtorEq, List.not_mem_nil, or_false,
    false_or] at hmem
  obtain ⟨-, -, -, rfl⟩ | ⟨-, -, -, rfl⟩ := hmem <;> decide

end Tof

/-! ### TP -/

/-- What is known of the pulses after some evaluations: the one at which the running pulse began,
and the input of the last one. -/
structure Pulse where
  began : Option TimerCall
  input : Bool

namespace Pulse

/-- No pulse was started yet. -/
def idle : Pulse := ⟨none, false⟩

/-- A pulse begins at a rising edge that comes while none is running, and ends at the first
evaluation that sees its preset elapsed since then. -/
def next (p : Pulse) (e : TimerCall) : Pulse :=
  let began := if p.began = none ∧ e.input = true ∧ p.input = false then some e else p.began
  ⟨began.filter fun r => !decide (r.Reaches e), e.input⟩

/-- The output of the timer is on exactly while a pulse is running, and the stamp of the timer is
the beginning of that pulse. -/
def Shown (p : Pulse) (t : IECTimer) : Prop :=
  t.output = p.began.isSome ∧ ∀ r ∈ p.began, t.start = timespecOfMs r.timeMs

/-- The same, of the timer in a state of the machine. -/
def ShownBy (p : Pulse) (vm : VmState) (id : UInt8) : Prop :=
  tpQ vm id = p.began.isSome ∧
    ∀ r ∈ p.began, (vm.tpTimers id.toNat).start = timespecOfMs r.timeMs

/-- The evaluation is no rising edge during a pulse, but at the time at which it began. -/
def NotRetriggered (p : Pulse) (e : TimerCall) : Prop :=
  ∀ r ∈ p.began, e.input = true → p.input = false → e.timeMs = r.timeMs

instance (p : Pulse) (e : TimerCall) : Decidable (p.NotRetriggered e) :=
  decidableForallMemOption p.began

end Pulse

/-- The pulses of a `TP` timer after some evaluations. -/
def pulses (es : List TimerCall) : Pulse := run Pulse.next .idle es

/-- The state of a `TP` timer that showed every pulse so far. -/
structure IECTimer.Tp (t : IECTimer) (p : Pulse) : Prop where
  shown : p.Shown t
  timing : t.timing = p.began.isSome
  prevInput : t.prevInput = p.input

section Tp

variable {t : IECTimer} {p : Pulse} {c : TimerCall}

/-- The times of two stamps. -/
lemma timespecOfMs_injective : Function.Injective timespecOfMs := by
  intro a b hab
  obtain ⟨hsec, hnsec⟩ := Timespec.mk.inj hab
  have hsec : a / 1000 = b / 1000 := congrArg Int64.toUInt64 hsec
  have hnsec : a % 1000 * 1000000 = b % 1000 * 1000000 := congrArg Int64.toUInt64 hnsec
  have hsec := congrArg UInt64.toNat hsec
  have hnsec := congrArg UInt64.toNat hnsec
  rw [toNat_nanos, toNat_nanos] at hnsec
  simp only [UInt64.toNat_div, UInt64.reduceToNat] at hsec
  rw [← UInt64.toNat_inj]
  omega

/-- The evaluation of a running pulse in which there is no rising edge. -/
lemma updateTp_running {r : TimerCall} (hpt : 1 ≤ c.pt) (hedge : (c.input && !t.prevInput) = false)
    (htiming : t.timing = true) (hstart : t.start = timespecOfMs r.timeMs) :
    updateTp c.timeMs (t.set c.input c.pt) =
      { t.set c.input c.pt with
        output := t.output && !decide (r.Reaches c), timing := !decide (r.Reaches c),
        ET := msDiff (timespecOfMs r.timeMs) (timespecOfMs c.timeMs), prevInput := c.input } := by
  have hne := ne_zero_of_one_le hpt
  by_cases hreach : r.Reaches c
  · have hle : c.pt ≤ msDiff (timespecOfMs r.timeMs) (timespecOfMs c.timeMs) := hreach
    simp [updateTp, IECTimer.set, hne, hedge, htiming, hstart, hle, hreach]
  · have hle : ¬c.pt ≤ msDiff (timespecOfMs r.timeMs) (timespecOfMs c.timeMs) := hreach
    simp [updateTp, IECTimer.set, hne, hedge, htiming, hstart, hle, hreach]

/-- Every rising edge starts a pulse. -/
lemma updateTp_edge (hpt : 1 ≤ c.pt) (hinput : c.input = true) (hprev : t.prevInput = false) :
    updateTp c.timeMs (t.set c.input c.pt) =
      { t.set c.input c.pt with
        start := timespecOfMs c.timeMs, timing := true, output := true, ET := 0,
        prevInput := true } := by
  simp [updateTp, IECTimer.set, IECTimer.startAt, ne_zero_of_one_le hpt, hinput, hprev,
    msDiff_self, not_le_zero_of_one_le hpt]

/-- One evaluation that is no rising edge during a pulse. -/
lemma IECTimer.Tp.next (h : t.Tp p) (hpt : 1 ≤ c.pt) (hnot : p.NotRetriggered c) :
    (updateTp c.timeMs (t.set c.input c.pt)).Tp (p.next c) := by
  obtain ⟨⟨houtput, hstart⟩, htiming, hprev⟩ := h
  have hself := TimerCall.not_reaches_self hpt
  have hne := ne_zero_of_one_le hpt
  by_cases hedge : c.input = true ∧ p.input = false
  · obtain ⟨hinput, hlow⟩ := hedge
    rw [updateTp_edge hpt hinput (hprev.trans hlow)]
    cases hbegan : p.began with
    | none =>
      have hnext : p.next c = ⟨some c, true⟩ := by
        simp [Pulse.next, hbegan, hinput, hlow, hself]
      rw [hnext]
      exact ⟨⟨rfl, fun r hr => by rw [Option.some.inj hr]⟩, rfl, rfl⟩
    | some r =>
      -- the edge comes at the very time at which the pulse began
      have htime : c.timeMs = r.timeMs := hnot r hbegan hinput hlow
      have hreach : ¬r.Reaches c := by
        rw [TimerCall.Reaches, ← htime, ← TimerCall.Reaches]
        exact hself
      have hnext : p.next c = ⟨some r, true⟩ := by
        simp [Pulse.next, hbegan, hinput, hreach]
      rw [hnext]
      refine ⟨⟨rfl, ?_⟩, rfl, rfl⟩
      rintro r' hr'
      rw [← Option.some.inj hr', ← htime]
  · have hlow : (c.input && !t.prevInput) = false := by
      rw [hprev]
      simpa using hedge
    cases hbegan : p.began with
    | none =>
      rw [hbegan] at houtput htiming
      have hnext : p.next c = ⟨none, c.input⟩ := by
        rw [Pulse.next, if_neg fun h => hedge h.2, hbegan]
        rfl
      rw [hnext]
      have hupdate : updateTp c.timeMs (t.set c.input c.pt) =
          { t.set c.input c.pt with prevInput := c.input } := by
        simp [updateTp, IECTimer.set, hne, hlow, htiming]
      rw [hupdate]
      exact ⟨⟨houtput, fun r hr => by cases hr⟩, htiming, rfl⟩
    | some r =>
      rw [hbegan] at houtput htiming
      have hstart := hstart r hbegan
      have hnext : p.next c = ⟨(some r).filter fun r => !decide (r.Reaches c), c.input⟩ := by
        simp [Pulse.next, hbegan]
      rw [hnext, updateTp_running hpt hlow htiming hstart, houtput]
      by_cases hreach : r.Reaches c
      · exact ⟨⟨by simp [hreach], by simp [hreach]⟩, by simp [hreach], rfl⟩
      · exact ⟨⟨by simp [hreach], by simp [hreach, IECTimer.set, hstart]⟩, by simp [hreach], rfl⟩

/-- A rising edge during a pulse is seen to start it anew. -/
lemma IECTimer.Tp.notRetriggered (h : t.Tp p) (hpt : 1 ≤ c.pt)
    (hshown : (p.next c).Shown (updateTp c.timeMs (t.set c.input c.pt))) :
    p.NotRetriggered c := by
  intro r hr hinput hlow
  rw [updateTp_edge hpt hinput (h.prevInput.trans hlow)] at hshown
  have hbegan : p.began = some r := hr
  obtain ⟨houtput, hstart⟩ := hshown
  by_cases hreach : r.Reaches c
  · -- the pulse ended
    simp [Pulse.next, hbegan, hreach] at houtput
  · exact timespecOfMs_injective (hstart r (by simp [Pulse.next, hbegan, hreach]))

lemma TimerKind.tp_calls_concat (es : List TimerCall) (c : TimerCall) :
    TimerKind.tp.calls .cleared (es ++ [c]) =
      updateTp c.timeMs ((TimerKind.tp.calls .cleared es).set c.input c.pt) :=
  TimerKind.calls_concat .tp es c

lemma pulses_concat (es : List TimerCall) (c : TimerCall) :
    pulses (es ++ [c]) = (pulses es).next c := by
  rw [pulses, run_append]
  rfl

/-- A run that retriggers no pulse shows every pulse. -/
lemma tp_calls {es : List TimerCall} (hpts : ∀ e ∈ es, 1 ≤ e.pt)
    (hnot : Along Pulse.next Pulse.NotRetriggered .idle es) :
    (TimerKind.tp.calls .cleared es).Tp (pulses es) := by
  induction es using List.reverseRecOn with
  | nil => exact ⟨⟨rfl, nofun⟩, rfl, rfl⟩
  | append_singleton es c ih =>
    obtain ⟨hold, hlast, -⟩ := along_append.1 hnot
    rw [TimerKind.tp_calls_concat, pulses_concat]
    exact (ih (fun e he => hpts e (List.mem_append_left _ he)) hold).next (hpts c (by simp)) hlast

/-- A timer that shows every pulse was not retriggered. -/
lemma along_of_shown {es : List TimerCall} (hpts : ∀ e ∈ es, 1 ≤ e.pt)
    (hshown : ∀ pre, pre <+: es → (pulses pre).Shown (TimerKind.tp.calls .cleared pre)) :
    Along Pulse.next Pulse.NotRetriggered .idle es := by
  induction es using List.reverseRecOn with
  | nil => trivial
  | append_singleton es c ih =>
    have hpts' : ∀ e ∈ es, 1 ≤ e.pt := fun e he => hpts e (List.mem_append_left _ he)
    have hold := ih hpts' fun pre hpre => hshown pre (hpre.trans (List.prefix_append es [c]))
    have hlast := hshown (es ++ [c]) List.prefix_rfl
    rw [TimerKind.tp_calls_concat, pulses_concat] at hlast
    refine along_append.2 ⟨hold, ?_, trivial⟩
    exact (tp_calls hpts' hold).notRetriggered (hpts c (by simp)) hlast

/-- In a run the output of a `TP` timer shows every pulse, from the rising edge that starts it while
none is running to the first evaluation that sees its preset elapsed, exactly if no rising edge
comes during a pulse, but at the very time at which it began. -/
theorem tp_run_iff (vm : VmState) (id : UInt8) (hid : id.toNat < maxTimers)
    (hcleared : vm.tpTimers id.toNat = .cleared) (calls : List IecCall)
    (hpresets : ∀ input pt, IecCall.set .tp id input pt ∈ calls → 1 ≤ pt) :
    (∀ pre, pre <+: calls →
      (pulses (evaluations .tp id vm.timeMs pre)).ShownBy (run IecCall.apply vm pre) id) ↔
      Along Pulse.next Pulse.NotRetriggered .idle (evaluations .tp id vm.timeMs calls) := by
  have hpts := evaluations_pt hpresets vm.timeMs
  -- the pulses are shown by the timer as its evaluations leave it
  have hstate : ∀ pre, (pulses (evaluations .tp id vm.timeMs pre)).ShownBy
      (run IecCall.apply vm pre) id ↔ (pulses (evaluations .tp id vm.timeMs pre)).Shown
        (TimerKind.tp.calls .cleared (evaluations .tp id vm.timeMs pre)) := by
    intro pre
    rw [Pulse.Shown, ← q_run (k := .tp) hid hcleared pre, ← timers_run (k := .tp) hid hcleared pre]
    rfl
  simp only [hstate]
  constructor
  · intro hshown
    refine along_of_shown hpts fun es hes => ?_
    obtain ⟨pre, hpre, rfl⟩ := prefix_trace_iff.1 hes
    exact hshown pre hpre
  · rintro hnot pre hpre
    obtain ⟨post, hpost⟩ := prefix_trace_iff.2 ⟨pre, hpre, rfl⟩
    rw [evaluations, ← hpost] at hnot hpts
    exact (tp_calls (fun e he => hpts e (List.mem_append_left _ he)) (along_append.1 hnot).1).shown

/-- A `TP` timer with a preset of 10 ms, in a run without a second rising edge. -/
theorem tp_run_iff_once :
    let calls := [.time 5, .set .tp 0 true 10, .time 12, .updateAll, .time 15, .updateAll]
    ((∀ pre, pre <+: calls → (pulses (evaluations .tp 0 vmCreate.timeMs pre)).ShownBy
      (run IecCall.apply vmCreate pre) 0) ↔
      Along Pulse.next Pulse.NotRetriggered .idle (evaluations .tp 0 vmCreate.timeMs calls)) ∧
      Along Pulse.next Pulse.NotRetriggered .idle (evaluations .tp 0 vmCreate.timeMs calls) := by
  refine ⟨tp_run_iff vmCreate 0 (by decide) rfl _ ?_, by decide⟩
  rintro input pt hmem
  simp only [List.mem_cons, IecCall.set.injEq, reduceCtorEq, List.not_mem_nil, or_false,
    false_or] at hmem
  obtain ⟨-, -, -, rfl⟩ := hmem
  decide

/-- An edge at 8 ms extends the pulse of 10 ms that began at 0 ms: it is still on at 12 ms. -/
theorem tp_retriggered :
    let calls := [.set .tp 0 true 10, .time 4, .set .tp 0 false 10, .time 8, .set .tp 0 true 10,
      .time 12, .updateAll]
    vmCreate.tpTimers 0 = .cleared ∧
      (pulses (evaluations .tp 0 vmCreate.timeMs calls)).began = none ∧
      tpQ (run IecCall.apply vmCreate calls) 0 = true := by
  decide

end Tp

/-! ### Edge memory -/

namespace TimerKind

/-- The edge that starts a timer of the kind, between two inputs. -/
def transition : TimerKind → Bool → Bool → Bool
  | ton, before, now | tp, before, now | tonr, before, now => now && !before
  | tof, before, now | tofr, before, now => !now && before

/-- The evaluation gets to the line that stores the input: `TON`, `TOF` and `TP` return early while
their preset is zero. -/
def remembers (k : TimerKind) (e : TimerCall) : Bool := e.pt != 0 || k == tonr || k == tofr

end TimerKind

section EdgeMemory

variable {k : TimerKind} {t : IECTimer}

lemma prevInput_update (k : TimerKind) (c : TimerCall) (t : IECTimer) :
    (k.update c.timeMs (t.set c.input c.pt)).prevInput =
      if k.remembers c then c.input else t.prevInput := by
  by_cases hpt : c.pt = 0
  · cases k <;> simp [TimerKind.update, TimerKind.remembers, updateTon, updateTof, updateTp,
      updateTonr, updateTofr, IECTimer.set, IECTimer.idle, hpt] <;> split_ifs <;> rfl
  · cases k <;> simp [TimerKind.update, TimerKind.remembers, updateTon, updateTof, updateTp,
      updateTonr, updateTofr, IECTimer.set, hpt] <;> split_ifs <;> rfl

/-- The edge memory is the input of the last evaluation that stored it. -/
lemma prevInput_calls (k : TimerKind) (es : List TimerCall) :
    (k.calls .cleared es).prevInput = lastInput (es.filter k.remembers) := by
  induction es using List.reverseRecOn with
  | nil => rfl
  | append_singleton es c ih =>
    rw [TimerKind.calls_concat, prevInput_update, ih]
    split_ifs with hstores
    · rw [List.filter_append, List.filter_cons_of_pos hstores, List.filter_nil, lastInput_concat]
    · rw [List.filter_append, List.filter_cons_of_neg hstores, List.filter_nil, List.append_nil]

lemma edge_set (k : TimerKind) (t : IECTimer) (input : Bool) (pt : UInt32) :
    k.edge (t.set input pt) = k.transition t.prevInput input := by
  cases k <;> rfl

/-- In every run from `timers_init` the edge memory of a timer that was evaluated is the input of
its last evaluation, and its next edge is a transition from that input, exactly if the timer is a
`TONR` or a `TOFR`, or the preset of the last evaluation was not zero, or its input was that of the
last one whose preset was not zero. -/
theorem prevInput_run_iff (vm : VmState) (calls : List IecCall) (k : TimerKind) (id : UInt8)
    (hid : id.toNat < maxTimers) (e : TimerCall)
    (hlast : (evaluations k id vm.timeMs calls).getLast? = some e) :
    let t := k.timers (run IecCall.apply (timersInit vm) calls) id.toNat
    (t.prevInput = e.input ∧
      ∀ input pt, k.edge (t.set input pt) = k.transition e.input input) ↔
      k = .tonr ∨ k = .tofr ∨ e.pt ≠ 0 ∨
        e.input = lastInput ((evaluations k id vm.timeMs calls).filter (·.pt != 0)) := by
  intro t
  have hcleared : k.timers (timersInit vm) id.toNat = .cleared := by cases k <;> rfl
  have hprev : t.prevInput = lastInput ((evaluations k id vm.timeMs calls).filter k.remembers) := by
    rw [← prevInput_calls]
    exact congrArg IECTimer.prevInput (timers_run hid hcleared calls)
  -- the edge that the next update sees depends on the stored input alone
  have hedge : (t.prevInput = e.input ∧
      ∀ input pt, k.edge (t.set input pt) = k.transition e.input input) ↔
        t.prevInput = e.input := by
    refine and_iff_left_of_imp fun heq input pt => ?_
    rw [edge_set, heq]
  rw [hedge, hprev]
  obtain ⟨es, hes⟩ := List.getLast?_eq_some_iff.1 hlast
  by_cases hretentive : k = .tonr ∨ k = .tofr
  · -- every evaluation stores its input
    have hall : ∀ c, k.remembers c = true := by
      rintro c
      rcases hretentive with rfl | rfl <;> simp [TimerKind.remembers]
    rw [List.filter_eq_self.2 fun c _ => hall c, hes, lastInput_concat]
    exact iff_of_true rfl (by rcases hretentive with h | h <;> simp [h])
  · obtain ⟨htonr, htofr⟩ := not_or.1 hretentive
    -- the others store their input only when the preset is not zero
    have hpt : k.remembers = fun c => c.pt != 0 := by
      funext c
      rw [TimerKind.remembers, beq_eq_false_iff_ne.2 htonr, beq_eq_false_iff_ne.2 htofr,
        Bool.or_false, Bool.or_false]
    simp only [hpt, htonr, htofr, false_or]
    by_cases hzero : e.pt = 0
    · simp [hzero, eq_comm]
    · rw [hes, List.filter_append, List.filter_cons_of_pos (by simpa using hzero), List.filter_nil,
        lastInput_concat]
      simp [hzero]

/-- A `TON` timer with a preset of 5 ms. -/
theorem prevInput_run_iff_ton :
    let calls := [.set .ton 0 true 5]
    let t := (run IecCall.apply (timersInit vmCreate) calls).tonTimers 0
    (t.prevInput = true ∧ ∀ input pt,
      TimerKind.ton.edge (t.set input pt) = TimerKind.ton.transition true input) ↔
      TimerKind.ton = .tonr ∨ TimerKind.ton = .tofr ∨ (5 : UInt32) ≠ 0 ∨
        true = lastInput ((evaluations .ton 0 vmCreate.timeMs calls).filter (·.pt != 0)) :=
  prevInput_run_iff vmCreate [.set .ton 0 true 5] .ton 0 (by decide) ⟨vmCreate.timeMs, true, 5⟩ rfl

/-- A `TON` timer does not remember an input that it saw with a preset of zero: with the next
preset it sees a rising edge although its input stayed on. -/
theorem ton_forgets_input :
    let calls := [.set .ton 0 true 0]
    let t := (run IecCall.apply (timersInit vmCreate) calls).tonTimers 0
    (evaluations .ton 0 vmCreate.timeMs calls).getLast? = some ⟨vmCreate.timeMs, true, 0⟩ ∧
      t.prevInput = false ∧ TimerKind.ton.edge (t.set true 5) = true ∧
      TimerKind.ton.transition true true = false := by
  decide

end EdgeMemory

end Vm32
