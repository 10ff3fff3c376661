/-
# Resetting a machine

`vm_reset` clears the timers `TON`, `TOF` and `TP` but only disables `TONR` and `TOFR`, which keep
the output, the elapsed time and the edge memory of the run before.  Two machines whose instances
of the function blocks differ only where no later call can see it are related here by a
simulation; the state after a reset is related to a new one exactly if the retentive timers were
at rest.
-/
import Vm32.Vm.IecCalls
import Vm32.Vm.Lifecycle

namespace Vm32

open LabelledRun

/-! ### Timers that behave alike -/

namespace IECTimer

/-- The timers are equal, but for the stamp of a timer that is not timing. -/
def Agree (t u : IECTimer) : Prop :=
  t = u ∨ u.timing = false ∧ ∃ start, t = { u with start := start }

/-- Two `TONR` timers that wait for a rising edge, at which they are started anew. -/
structure Waiting (t u : IECTimer) : Prop where
  enabled : t.enabled = u.enabled
  output : t.output = u.output
  prevInput : t.prevInput = false ∧ u.prevInput = false
  ET : t.ET = u.ET
  asSet : u.enabled = true → t.input = false ∧ u.input = false ∧ t.presetMs = u.presetMs

/-- Two `TOFR` timers without output, which wait for their input.  The first one may have seen an
input before it was disabled, if its elapsed time reaches every preset. -/
structure Quiet (t u : IECTimer) : Prop where
  enabled : t.enabled = u.enabled
  output : t.output = false ∧ u.output = false
  idle : u.prevInput = false ∧ u.timing = false
  still : t.prevInput = false ∧ t.timing = false ∨
    t.enabled = false ∧ t.prevInput = true ∧ t.ET = 0xFFFFFFFF
  asSet : u.enabled = true → t.input = false ∧ u.input = false

end IECTimer

/-- No sequence of calls tells the timers apart. -/
def TimerKind.Alike (k : TimerKind) (t u : IECTimer) : Prop :=
  t.Agree u ∨ k = .tonr ∧ t.Waiting u ∨ k = .tofr ∧ t.Quiet u

section Timers

variable {k : TimerKind} {t u : IECTimer}

lemma IECTimer.Agree.set (h : t.Agree u) (input : Bool) (pt : UInt32) :
    (t.set input pt).Agree (u.set input pt) := by
  rcases h with rfl | ⟨htiming, start, rfl⟩
  · exact Or.inl rfl
  · exact Or.inr ⟨htiming, start, rfl⟩

/-- The stamp of a timer that is not timing is not read. -/
lemma IECTimer.Agree.update (h : t.Agree u) (k : TimerKind) (timeMs : UInt64) :
    (k.update timeMs t).Agree (k.update timeMs u) := by
  rcases h with rfl | ⟨htiming, start, rfl⟩
  · exact Or.inl rfl
  obtain ⟨enabled, input, output, prevInput, timing, start', presetMs, ET⟩ := u
  obtain rfl : timing = false := htiming
  cases k <;> cases enabled <;> cases input <;> cases prevInput <;>
    simp only [TimerKind.update, updateTon, updateTof, updateTp, updateTonr, updateTofr, idle,
      startAt, Bool.not_true, Bool.not_false, Bool.and_true, Bool.and_false, Bool.true_or,
      Bool.false_or, Bool.false_eq_true, if_true, if_false] <;>
    (try split_ifs) <;>
    first
      | exact Or.inl rfl
      | exact Or.inr ⟨rfl, start, rfl⟩

/-- A waiting timer does nothing by itself. -/
lemma IECTimer.Waiting.update (h : t.Waiting u) (timeMs : UInt64) :
    (updateTonr timeMs t).Waiting (updateTonr timeMs u) := by
  have henabled := h.enabled
  cases hu : u.enabled with
  | false =>
    rw [hu] at henabled
    simp only [updateTonr, hu, henabled, Bool.not_false, if_true]
    exact h
  | true =>
    obtain ⟨hinput, hinput', hpreset⟩ := h.asSet hu
    rw [hu] at henabled
    simp only [updateTonr, hu, henabled, hinput, hinput', Bool.not_true, Bool.false_eq_true,
      if_false]
    exact ⟨rfl, h.output, ⟨rfl, rfl⟩, h.ET, fun _ => ⟨rfl, rfl, hpreset⟩⟩

/-- A call with the input on is a rising edge, and starts both timers. -/
lemma IECTimer.Waiting.set (h : t.Waiting u) (timeMs : UInt64) (input : Bool) (pt : UInt32) :
    TimerKind.tonr.Alike (updateTonr timeMs (t.set input pt))
      (updateTonr timeMs (u.set input pt)) := by
  cases input with
  | false =>
    have hset : (t.set false pt).Waiting (u.set false pt) :=
      ⟨rfl, h.output, h.prevInput, h.ET, fun _ => ⟨rfl, rfl, rfl⟩⟩
    exact Or.inr (Or.inl ⟨rfl, hset.update timeMs⟩)
  | true =>
    obtain ⟨ht, hu⟩ := h.prevInput
    refine Or.inl (Or.inl ?_)
    simp only [updateTonr, IECTimer.set, IECTimer.startAt, ht, hu, h.output, h.ET, Bool.not_true,
      Bool.not_false, Bool.and_true, Bool.false_eq_true, if_true, if_false]

/-- A quiet timer does nothing by itself. -/
lemma IECTimer.Quiet.update (h : t.Quiet u) (timeMs : UInt64) :
    (updateTofr timeMs t).Quiet (updateTofr timeMs u) := by
  have henabled := h.enabled
  cases hu : u.enabled with
  | false =>
    rw [hu] at henabled
    simp only [updateTofr, hu, henabled, Bool.not_false, if_true]
    exact h
  | true =>
    obtain ⟨hinput, hinput'⟩ := h.asSet hu
    rw [hu] at henabled
    obtain ⟨hprev, htiming⟩ : t.prevInput = false ∧ t.timing = false := by
      rcases h.still with hstill | ⟨hoff, -⟩
      · exact hstill
      · rw [henabled] at hoff
        cases hoff
    simp only [updateTofr, hu, henabled, hinput, hinput', hprev, htiming, h.idle, Bool.not_true,
      Bool.and_false, Bool.false_eq_true, if_false]
    exact ⟨rfl, h.output, ⟨rfl, rfl⟩, Or.inl ⟨rfl, rfl⟩, fun _ => ⟨rfl, rfl⟩⟩

/-- The reset of a `TOFR` timer by its input. -/
lemma updateTofr_of_input (henabled : t.enabled = true) (hinput : t.input = true)
    (timeMs : UInt64) :
    ∃ start, updateTofr timeMs t =
      { t with output := true, timing := false, ET := 0, prevInput := true, start := start } := by
  obtain ⟨enabled, input, output, prevInput, timing, start, presetMs, ET⟩ := t
  obtain rfl : enabled = true := henabled
  obtain rfl : input = true := hinput
  cases timing with
  | false => exact ⟨_, rfl⟩
  | true =>
    by_cases hreached : presetMs ≤ ET + msDiff start (timespecOfMs timeMs) <;>
      simp [updateTofr, hreached]

/-- A call with the input on resets both timers; one with the input off stops the first one again
if its input was on before. -/
lemma IECTimer.Quiet.set (h : t.Quiet u) (timeMs : UInt64) (input : Bool) (pt : UInt32) :
    TimerKind.tofr.Alike (updateTofr timeMs (t.set input pt))
      (updateTofr timeMs (u.set input pt)) := by
  cases input with
  | true =>
    obtain ⟨start, ht⟩ := updateTofr_of_input (t := t.set true pt) rfl rfl timeMs
    obtain ⟨start', hu⟩ := updateTofr_of_input (t := u.set true pt) rfl rfl timeMs
    rw [TimerKind.Alike, ht, hu]
    exact Or.inl (Or.inr ⟨rfl, start, rfl⟩)
  | false =>
    refine Or.inr (Or.inr ⟨rfl, ?_⟩)
    rcases h.still with hstill | ⟨-, hprev, hET⟩
    · have hset : (t.set false pt).Quiet (u.set false pt) :=
        ⟨rfl, h.output, h.idle, Or.inl hstill, fun _ => ⟨rfl, rfl⟩⟩
      exact hset.update timeMs
    · obtain ⟨hprev', htiming⟩ := h.idle
      have hzero := msDiff_self timeMs
      have hreached : pt ≤ 0xFFFFFFFF := by
        rw [UInt32.le_iff_toNat_le]
        exact Nat.le_of_lt_succ pt.toNat_lt
      simp only [updateTofr, IECTimer.set, IECTimer.startAt, hprev, hprev', htiming, hET, hzero,
        hreached, Bool.not_true, Bool.not_false, Bool.and_true, Bool.and_false, Bool.false_eq_true,
        if_true, if_false, UInt32.add_zero]
      exact ⟨rfl, ⟨rfl, h.output.2⟩, ⟨rfl, rfl⟩, Or.inl ⟨rfl, rfl⟩, fun _ => ⟨rfl, rfl⟩⟩

lemma TimerKind.Alike.output (h : k.Alike t u) : t.output = u.output := by
  rcases h with (rfl | ⟨-, start, rfl⟩) | ⟨-, hwaiting⟩ | ⟨-, hquiet⟩
  · rfl
  · rfl
  · exact hwaiting.output
  · exact hquiet.output.1.trans hquiet.output.2.symm

/-- An evaluation keeps the timers alike. -/
lemma TimerKind.Alike.update (h : k.Alike t u) (timeMs : UInt64) :
    k.Alike (k.update timeMs t) (k.update timeMs u) := by
  rcases h with hagree | ⟨rfl, hwaiting⟩ | ⟨rfl, hquiet⟩
  · exact Or.inl (hagree.update k timeMs)
  · exact Or.inr (Or.inl ⟨rfl, hwaiting.update timeMs⟩)
  · exact Or.inr (Or.inr ⟨rfl, hquiet.update timeMs⟩)

/-- A call keeps the timers alike. -/
lemma TimerKind.Alike.set (h : k.Alike t u) (timeMs : UInt64) (input : Bool) (pt : UInt32) :
    k.Alike (k.update timeMs (t.set input pt)) (k.update timeMs (u.set input pt)) := by
  rcases h with hagree | ⟨rfl, hwaiting⟩ | ⟨rfl, hquiet⟩
  · exact Or.inl ((hagree.set input pt).update k timeMs)
  · exact hwaiting.set timeMs input pt
  · exact hquiet.set timeMs input pt

end Timers

/-! ### Calls that tell timers apart -/

/-- A `TONR` timer that was at rest when it was disabled. -/
def IECTimer.TonrRested (t : IECTimer) : Prop :=
  t.output = false ∧ t.prevInput = false ∧ t.ET = 0

/-- A `TOFR` timer that was at rest when it was disabled. -/
def IECTimer.TofrRested (t : IECTimer) : Prop :=
  t.output = false ∧ if t.prevInput then t.ET = 0xFFFFFFFF else t.timing = false

section Calls

variable {t : IECTimer}

lemma IECTimer.TonrRested.waiting (h : t.TonrRested) : t.disable.Waiting .cleared :=
  ⟨rfl, h.1, ⟨h.2.1, rfl⟩, h.2.2, fun hon => by cases hon⟩

lemma IECTimer.TofrRested.quiet (h : t.TofrRested) : t.disable.Quiet .cleared := by
  refine ⟨rfl, ⟨h.1, rfl⟩, ⟨rfl, rfl⟩, ?_, fun hon => by cases hon⟩
  have hrest := h.2
  cases hprev : t.prevInput with
  | false =>
    rw [hprev] at hrest
    exact Or.inl ⟨hprev, hrest⟩
  | true =>
    rw [hprev] at hrest
    exact Or.inr ⟨rfl, hprev, hrest⟩

/-- One second later, a thousand milliseconds more have elapsed. -/
lemma msDiff_second (start : Timespec) :
    msDiff start (timespecOfMs 1000) = msDiff start (timespecOfMs 0) + 1000 := by
  have hzero : timespecOfMs 0 = ⟨0, 0⟩ := rfl
  have hone : timespecOfMs 1000 = ⟨1, 0⟩ := by decide
  simp only [hzero, hone, msDiff, Int64.toUInt64_sub, UInt64.toUInt32_add, UInt64.toUInt32_mul,
    UInt64.toUInt32_sub]
  generalize start.tvSec.toUInt64.toUInt32 = secs
  generalize ((0 : Int64).toUInt64 - start.tvNsec.toUInt64) / 1000000 = nanos
  have hthousand : UInt64.toUInt32 1000 = 1000 := rfl
  have hone : (1 : Int64).toUInt64.toUInt32 = 1 := rfl
  have hzero : (0 : Int64).toUInt64.toUInt32 = 0 := rfl
  rw [hthousand, hone, hzero]
  grind

/-- The output of a `TONR` timer after an evaluation with the input on. -/
lemma updateTonr_output (henabled : t.enabled = true) (hinput : t.input = true)
    (timeMs : UInt64) :
    (updateTonr timeMs t).output = true ↔ t.output = true ∨ t.presetMs ≤
      if t.prevInput && t.timing then t.ET + msDiff t.start (timespecOfMs timeMs) else t.ET := by
  obtain ⟨enabled, input, output, prevInput, timing, start, presetMs, ET⟩ := t
  obtain rfl : enabled = true := henabled
  obtain rfl : input = true := hinput
  cases prevInput <;> cases timing <;>
    simp only [updateTonr, IECTimer.startAt, msDiff_self, Bool.not_true, Bool.not_false,
      Bool.and_true, Bool.and_false, Bool.false_eq_true, if_true, if_false, UInt32.add_zero] <;>
    split_ifs with hreached <;> simp [hreached]

/-- The output of a `TOFR` timer after an evaluation with the input off. -/
lemma updateTofr_output (henabled : t.enabled = true) (hinput : t.input = false)
    (houtput : t.output = false) (timeMs : UInt64) :
    (updateTofr timeMs t).output = true ↔ (t.prevInput = true ∨ t.timing = true) ∧
      ¬t.presetMs ≤
        if t.prevInput then t.ET else t.ET + msDiff t.start (timespecOfMs timeMs) := by
  obtain ⟨enabled, input, output, prevInput, timing, start, presetMs, ET⟩ := t
  obtain rfl : enabled = true := henabled
  obtain rfl : input = false := hinput
  obtain rfl : output = false := houtput
  cases prevInput <;> cases timing <;>
    simp only [updateTofr, IECTimer.startAt, msDiff_self, Bool.not_true, Bool.not_false,
      Bool.and_true, Bool.and_false, Bool.false_eq_true, if_true, if_false, UInt32.add_zero] <;>
    (try split_ifs with hreached) <;> simp_all

lemma eq_of_max_le {x : UInt32} (hx : 0xFFFFFFFF ≤ x) : x = 0xFFFFFFFF :=
  UInt32.le_antisymm (UInt32.le_iff_toNat_le.2 (Nat.le_of_lt_succ x.toNat_lt)) hx

lemma tonrRested_of_calls
    (h : ∀ cs, (TimerKind.tonr.calls t.disable cs).output =
      (TimerKind.tonr.calls .cleared cs).output) : t.TonrRested := by
  have houtput : t.output = false := h []
  -- a first call with the input on reaches no preset but zero
  have hzero : ∀ timeMs, (if t.prevInput && t.timing then
      t.ET + msDiff t.start (timespecOfMs timeMs) else t.ET) = 0 := by
    intro timeMs
    generalize hET : (if t.prevInput && t.timing then
      t.ET + msDiff t.start (timespecOfMs timeMs) else t.ET) = ET
    have hold : (updateTonr timeMs (t.disable.set true ET)).output = true :=
      (updateTonr_output rfl rfl timeMs).2 (Or.inr (UInt32.le_of_eq hET.symm))
    have hnew : (updateTonr timeMs (IECTimer.cleared.set true ET)).output = true :=
      (h [⟨timeMs, true, ET⟩]).symm.trans hold
    rcases (updateTonr_output rfl rfl timeMs).1 hnew with hfalse | hle
    · cases hfalse
    · exact UInt32.le_zero_iff.1 hle
  cases hprev : t.prevInput with
  | false => exact ⟨houtput, hprev, by simpa [hprev] using hzero 0⟩
  | true =>
    exfalso
    cases htiming : t.timing with
    | false =>
      -- the elapsed time stands still
      have hET : t.ET = 0 := by simpa [htiming] using hzero 0
      obtain ⟨enabled, input, output, prevInput, timing, start, presetMs, ET⟩ := t
      obtain rfl : output = false := houtput
      obtain rfl : prevInput = true := hprev
      obtain rfl : timing = false := htiming
      obtain rfl : ET = 0 := hET
      have hfalse : false = true := h [⟨0, true, 1⟩, ⟨1, true, 1⟩]
      cases hfalse
    | true =>
      -- the elapsed time goes on from a stamp of before
      have hstart := hzero 0
      have hlater := hzero 1000
      simp only [hprev, htiming, Bool.and_true, if_true, msDiff_second] at hstart hlater
      rw [← UInt32.add_assoc, hstart] at hlater
      cases hlater

lemma tofrRested_of_calls
    (h : ∀ cs, (TimerKind.tofr.calls t.disable cs).output =
      (TimerKind.tofr.calls .cleared cs).output) : t.TofrRested := by
  have houtput : t.output = false := h []
  -- a first call with the input off does not turn the output on
  have hmax : ∀ timeMs, (t.prevInput = true ∨ t.timing = true) → 0xFFFFFFFF ≤
      if t.prevInput then t.ET else t.ET + msDiff t.start (timespecOfMs timeMs) := by
    intro timeMs hrun
    by_contra hlt
    have hold : (updateTofr timeMs (t.disable.set false 0xFFFFFFFF)).output = true :=
      (updateTofr_output (t := t.disable.set false 0xFFFFFFFF) rfl rfl houtput timeMs).2
        ⟨hrun, hlt⟩
    have hnew : (updateTofr timeMs (IECTimer.cleared.set false 0xFFFFFFFF)).output = true :=
      (h [⟨timeMs, false, 0xFFFFFFFF⟩]).symm.trans hold
    rcases ((updateTofr_output rfl rfl rfl timeMs).1 hnew).1 with hfalse | hfalse <;> cases hfalse
  refine ⟨houtput, ?_⟩
  cases hprev : t.prevInput with
  | true =>
    have hET := hmax 0 (Or.inl hprev)
    rw [if_pos hprev] at hET
    exact eq_of_max_le hET
  | false =>
    simp only [Bool.false_eq_true, if_false]
    by_contra htiming
    rw [Bool.not_eq_false] at htiming
    have hstart := hmax 0 (Or.inr htiming)
    have hlater := hmax 1000 (Or.inr htiming)
    simp only [hprev, Bool.false_eq_true, if_false, msDiff_second] at hstart hlater
    have hstart := eq_of_max_le hstart
    have hlater := eq_of_max_le hlater
    rw [← UInt32.add_assoc, hstart] at hlater
    cases hlater

end Calls

/-! ### Calls that tell machines apart -/

/-- What the function blocks use of the state, but for the timers. -/
structure BlockState where
  reg : UInt8 → UInt32
  timeMs : UInt64
  ctuCounters : ℕ → CTCounter
  ctdCounters : ℕ → CTCounter
  ctudCounters : ℕ → CTCounter
  ctuPrevInput : ℕ → Bool
  ctdPrevInput : ℕ → Bool
  ctudPrevUp : ℕ → Bool
  ctudPrevDown : ℕ → Bool
  edgePrevRising : ℕ → Bool
  edgePrevFalling : ℕ → Bool
  edgePrevBoth : ℕ → Bool
  rsLatches : ℕ → Bool
  srLatches : ℕ → Bool

/-- The block state. -/
def VmState.blocks (vm : VmState) : BlockState :=
  ⟨vm.reg, vm.timeMs, vm.ctuCounters, vm.ctdCounters, vm.ctudCounters, vm.ctuPrevInput,
    vm.ctdPrevInput, vm.ctudPrevUp, vm.ctudPrevDown, vm.edgePrevRising, vm.edgePrevFalling,
    vm.edgePrevBoth, vm.rsLatches, vm.srLatches⟩

/-- No sequence of calls tells the states apart. -/
structure Alike (v w : VmState) : Prop where
  blocks : v.blocks = w.blocks
  timers : ∀ (k : TimerKind), ∀ id < maxTimers, k.Alike (k.timers v id) (k.timers w id)

section Calls

variable {v w : VmState} {k : TimerKind}

lemma blocks_set (k : TimerKind) (vm : VmState) (id : UInt8) (input : Bool) (pt : UInt32) :
    (k.set vm id input pt).blocks = vm.blocks := by
  cases k <;> rfl

/-- The handlers of the blocks use the block state only. -/
lemma blocks_op (hvw : v.blocks = w.blocks) (b : Block) (h : Host) (i : UInt32) :
    (b.op h v i).blocks = (b.op h w i).blocks := by
  simp only [VmState.blocks, BlockState.mk.injEq] at hvw
  obtain ⟨hreg, htime, hctu, hctd, hctud, hctuPrev, hctdPrev, hup, hdown, hrising, hfalling, hboth,
    hrs, hsr⟩ := hvw
  cases b <;>
    simp only [Block.op, opCtu, opCtd, opCtud, opRisingEdge, opFallingEdge, opEdgeBoth, opRsLatch,
      opSrLatch, cvOrImm, cv, bv, edgeId, hreg, hctu, hctd, hctud, hctuPrev, hctdPrev, hup, hdown,
      hrising, hfalling, hboth, hrs, hsr] <;>
    split_ifs <;>
    simp only [VmState.blocks, setAVal, hreg, htime, hctu, hctd, hctud, hctuPrev, hctdPrev, hup,
      hdown, hrising, hfalling, hboth, hrs, hsr]

/-- A call of a timer, on two machines that are alike. -/
lemma Alike.set (h : Alike v w) (k : TimerKind) (id : UInt8) (input : Bool) (pt : UInt32) :
    Alike (k.set v id input pt) (k.set w id input pt) := by
  refine ⟨by rw [blocks_set, blocks_set, h.blocks], fun k' id' hid' => ?_⟩
  have htime : v.timeMs = w.timeMs := congrArg BlockState.timeMs h.blocks
  rw [timers_set, timers_set]
  split_ifs with hk
  · subst hk
    rw [setTimer, setTimer]
    split_ifs
    · by_cases heq : id' = id.toNat
      · subst heq
        rw [Function.update_self, Function.update_self, htime]
        exact (h.timers k' _ hid').set w.timeMs input pt
      · rw [Function.update_of_ne heq, Function.update_of_ne heq]
        exact h.timers k' id' hid'
    · exact h.timers k' id' hid'
  · exact h.timers k' id' hid'

/-- No call tells machines apart that are alike. -/
lemma Alike.next (h : Alike v w) (call : IecCall) :
    call.output v = call.output w ∧ Alike (call.apply v) (call.apply w) := by
  cases call with
  | time timeMs =>
    have hblocks : ∀ vm : VmState, { vm with timeMs := timeMs }.blocks =
        { vm.blocks with timeMs := timeMs } := fun _ => rfl
    refine ⟨rfl, ?_, fun k id hid => ?_⟩
    · exact (hblocks v).trans (h.blocks ▸ (hblocks w).symm)
    · cases k <;> exact h.timers _ id hid
  | reg r x =>
    have hblocks : ∀ vm : VmState, { vm with reg := Function.update vm.reg r x }.blocks =
        { vm.blocks with reg := Function.update vm.blocks.reg r x } := fun _ => rfl
    refine ⟨rfl, ?_, fun k id hid => ?_⟩
    · exact (hblocks v).trans (h.blocks ▸ (hblocks w).symm)
    · cases k <;> exact h.timers _ id hid
  | set k id input pt => exact ⟨rfl, h.set k id input pt⟩
  | q k id =>
    refine ⟨?_, h⟩
    simp only [IecCall.output, q_eq, timerQ]
    split_ifs with hid
    · rw [(h.timers k id.toNat (of_decide_eq_true hid)).output]
    · rfl
  | updateAll =>
    -- like timers at one time are updated alike
    have htime : v.timeMs = w.timeMs := congrArg BlockState.timeMs h.blocks
    refine ⟨rfl, h.blocks, fun k id hid => ?_⟩
    simp only [IecCall.apply, timers_updateAllTimers, updateEach, hid, if_true, htime]
    exact (h.timers k id hid).update w.timeMs
  | block b host i =>
    have hblocks := blocks_op h.blocks b host i
    refine ⟨?_, hblocks, fun k id hid => ?_⟩
    · have hreg : (b.op host v i).reg = (b.op host w i).reg := congrArg BlockState.reg hblocks
      simp only [IecCall.output, hreg]
    · simp only [IecCall.apply, timers_op]
      exact h.timers k id hid

/-- The calls of one timer. -/
def TimerCall.iecCalls (k : TimerKind) (id : UInt8) (c : TimerCall) : List IecCall :=
  [.time c.timeMs, .set k id c.input c.pt]

/-- The output of a timer after some calls of it. -/
lemma iecOutputs_timerCalls {id : UInt8} (hid : id.toNat < maxTimers) (k : TimerKind)
    (vm : VmState) (cs : List TimerCall) :
    iecOutputs vm (cs.flatMap (TimerCall.iecCalls k id) ++ [.q k id]) =
      [.q (k.calls (k.timers vm id.toNat) cs).output] := by
  have hok : idOk id = true := decide_eq_true hid
  induction cs generalizing vm with
  | nil =>
    have hq : k.q vm id = (k.timers vm id.toNat).output := by rw [q_eq, timerQ, if_pos hok]
    exact congrArg (fun b => [IecOutput.q b]) hq
  | cons c cs ih =>
    have htimers : k.timers { vm with timeMs := c.timeMs } = k.timers vm := by cases k <;> rfl
    have hset : k.timers (k.set { vm with timeMs := c.timeMs } id c.input c.pt) id.toNat =
        k.update c.timeMs ((k.timers vm id.toNat).set c.input c.pt) := by
      rw [timers_set, if_pos rfl, setTimer, if_pos hok, Function.update_self, htimers]
    have hrest := ih (k.set { vm with timeMs := c.timeMs } id c.input c.pt)
    rw [hset] at hrest
    exact hrest

/-- After a reset every sequence of calls has the outputs that it has on a new machine exactly if
the retentive timers were at rest. -/
theorem vmReset_fresh_iff (vm : VmState) :
    (∀ calls, iecOutputs (vmReset vm) calls = iecOutputs vmCreate calls) ↔
      ∀ id < maxTimers, (vm.tonrTimers id).TonrRested ∧ (vm.tofrTimers id).TofrRested := by
  constructor
  · intro h id hid
    have hlt : id < 2 ^ 8 := lt_trans hid (by decide)
    have hcalls : ∀ (k : TimerKind) cs,
        (k.calls (k.timers (vmReset vm) id) cs).output =
          (k.calls (k.timers vmCreate id) cs).output := by
      intro k cs
      have hid8 : (UInt8.ofNat id).toNat = id := UInt8.toNat_ofNat_of_lt' hlt
      have heq := h (cs.flatMap (TimerCall.iecCalls k (UInt8.ofNat id)) ++ [.q k (UInt8.ofNat id)])
      rw [iecOutputs_timerCalls (by rw [hid8]; exact hid),
        iecOutputs_timerCalls (by rw [hid8]; exact hid), hid8] at heq
      simpa using heq
    exact ⟨tonrRested_of_calls (hcalls .tonr), tofrRested_of_calls (hcalls .tofr)⟩
  · intro hrested calls
    refine trace_eq_of_simulation (R := Alike) ⟨rfl, fun k id hid => ?_⟩
      fun v w call h => h.next call
    obtain ⟨htonr, htofr⟩ := hrested id hid
    cases k with
    | ton => exact Or.inl (Or.inr ⟨rfl, (vm.tonTimers id).start, rfl⟩)
    | tof => exact Or.inl (Or.inr ⟨rfl, (vm.tofTimers id).start, rfl⟩)
    | tp => exact Or.inl (Or.inr ⟨rfl, (vm.tpTimers id).start, rfl⟩)
    | tonr => exact Or.inr (Or.inl ⟨rfl, htonr.waiting⟩)
    | tofr => exact Or.inr (Or.inr ⟨rfl, htofr.quiet⟩)

/-- A `TONR` timer whose output is on before a reset has its output on after it. -/
theorem vmReset_keeps_tonr :
    let vm := run IecCall.apply vmCreate [.set .tonr 0 true 5, .time 5, .updateAll]
    iecOutputs (vmReset vm) [.q .tonr 0] = [.q true] ∧
      iecOutputs vmCreate [.q .tonr 0] = [.q false] := by
  decide

end Calls

end Vm32
