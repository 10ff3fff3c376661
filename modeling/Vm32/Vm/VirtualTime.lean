/-
# Virtual time

Without tick timing the time of the machine is computed: each executed instruction adds the
nanoseconds of one period of the clock, of which whole milliseconds go to `time_ms` and the rest
stays in `instr_ns_accum`, and the end of a cycle moves `time_ms` forward to the end of the cycle
time.  Nothing else touches either of the two, so no time is lost or counted twice.
-/
import Vm32.Vm.Bookkeeping
import Vm32.Vm.Handlers
import Vm32.Vm.Lifecycle

namespace Vm32

open LabelledRun

/-! ### The clock of a state -/

/-- The configuration and the two fields that hold the time. -/
structure Clock where
  config : VmConfig
  timeMs : UInt64
  instrNsAccum : UInt64

/-- The clock of a state. -/
def VmState.clock (vm : VmState) : Clock := ⟨vm.config, vm.timeMs, vm.instrNsAccum⟩

/-- The time in nanoseconds, with the part that is not in `time_ms` yet. -/
def Clock.totalNs (k : Clock) : ℕ := k.timeMs.toNat * 10 ^ 6 + k.instrNsAccum.toNat

/-- The nanoseconds of an instruction. -/
def Clock.instrNs (k : Clock) : ℕ := 10 ^ 9 / k.config.clockRateHz.toNat

/-- The clock is computed from the instructions. -/
structure Clock.Virtual (k : Clock) : Prop where
  noTicks : k.config.enableTickTiming = false
  rate : k.config.clockRateHz ≠ 0

/-- An instruction does not overflow the 64-bit fields. -/
def Clock.Fits (k : Clock) : Prop :=
  k.instrNsAccum.toNat + k.instrNs < 2 ^ 64 ∧
    k.timeMs.toNat + (k.instrNsAccum.toNat + k.instrNs) / 10 ^ 6 < 2 ^ 64

/-! ### One instruction -/

/-- `vm_update_time_after_instruction` without tick timing. -/
def Clock.advance (k : Clock) : Clock :=
  if k.config.clockRateHz != 0 then
    let accum := k.instrNsAccum + 1000000000 / k.config.clockRateHz.toUInt64
    let addMs := accum / 1000000
    if addMs != 0 then
      { k with timeMs := k.timeMs + addMs, instrNsAccum := accum - addMs * 1000000 }
    else { k with instrNsAccum := accum }
  else k

/-- The nanoseconds of an instruction are added. -/
structure Clock.AddsInstruction (k k' : Clock) : Prop where
  totalNs : k'.totalNs = k.totalNs + k.instrNs
  below : k'.instrNsAccum.toNat < 10 ^ 6
  timeMs : k.timeMs.toNat ≤ k'.timeMs.toNat
  config : k'.config = k.config

lemma Clock.advance_config (k : Clock) : k.advance.config = k.config := by
  simp only [Clock.advance]
  split_ifs <;> rfl

lemma Clock.iterate_advance_config (k : Clock) (n : ℕ) :
    (Clock.advance^[n] k).config = k.config := by
  induction n with
  | zero => rfl
  | succ n ih => rw [Function.iterate_succ_apply', Clock.advance_config, ih]

lemma Clock.addsInstruction_advance {k : Clock} (hvirtual : k.Virtual) (hfits : k.Fits) :
    k.AddsInstruction k.advance := by
  have hrate : (k.config.clockRateHz != 0) = true := bne_iff_ne.2 hvirtual.rate
  obtain ⟨haccum, htime⟩ := hfits
  have hns : ((1000000000 : UInt64) / k.config.clockRateHz.toUInt64).toNat = k.instrNs := by
    rw [UInt64.toNat_div, UInt32.toNat_toUInt64]
    rfl
  have hsum : (k.instrNsAccum + 1000000000 / k.config.clockRateHz.toUInt64).toNat =
      k.instrNsAccum.toNat + k.instrNs := by
    rw [UInt64.toNat_add, hns, Nat.mod_eq_of_lt haccum]
  -- from here on `accum` is the accumulator with this instruction's nanoseconds in it
  rw [← hsum] at htime
  suffices hnat : k.advance.timeMs.toNat * 10 ^ 6 + k.advance.instrNsAccum.toNat =
        k.timeMs.toNat * 10 ^ 6 + (k.instrNsAccum.toNat + k.instrNs) ∧
      k.advance.instrNsAccum.toNat < 10 ^ 6 ∧ k.timeMs.toNat ≤ k.advance.timeMs.toNat from
    ⟨hnat.1.trans (Nat.add_assoc _ _ _).symm, hnat.2.1, hnat.2.2, k.advance_config⟩
  simp only [Clock.advance, hrate, if_true]
  rw [← hsum]
  generalize k.instrNsAccum + 1000000000 / k.config.clockRateHz.toUInt64 = accum at htime ⊢
  have hms : (accum / 1000000).toNat = accum.toNat / 10 ^ 6 := UInt64.toNat_div accum 1000000
  split_ifs with hadd
  · -- whole milliseconds are moved
    have htime' : (k.timeMs + accum / 1000000).toNat = k.timeMs.toNat + accum.toNat / 10 ^ 6 := by
      rw [UInt64.toNat_add, hms, Nat.mod_eq_of_lt htime]
    have hprod : (accum / 1000000 * 1000000).toNat = accum.toNat / 10 ^ 6 * 10 ^ 6 := by
      have hlt := accum.toNat_lt
      have hmillion : (1000000 : UInt64).toNat = 10 ^ 6 := rfl
      rw [UInt64.toNat_mul, hms, hmillion, Nat.mod_eq_of_lt (by omega)]
    have hrest : (accum - accum / 1000000 * 1000000).toNat = accum.toNat % 10 ^ 6 := by
      rw [UInt64.toNat_sub_of_le, hprod]
      · omega
      · rw [UInt64.le_iff_toNat_le, hprod]
        omega
    simp only [htime', hrest]
    omega
  · -- less than a millisecond has gathered, and the accumulator keeps it
    have hzero : accum.toNat / 10 ^ 6 = 0 := by
      rw [bne_iff_ne, not_not] at hadd
      rw [← hms, hadd]
      rfl
    refine ⟨rfl, ?_, le_refl _⟩
    simp only
    omega

section Instruction

variable {vm : VmState}

lemma vmUpdateTimeAfterInstruction_clock (hticks : vm.config.enableTickTiming = false) (h : Host) :
    (vmUpdateTimeAfterInstruction h vm).clock = vm.clock.advance := by
  simp only [vmUpdateTimeAfterInstruction, hticks, Bool.false_and, Bool.false_eq_true, if_false,
    apply_ite VmState.clock]
  rfl

lemma aside_timeMs : Aside VmState.timeMs :=
  ⟨fun _ _ => rfl, fun _ _ => rfl, fun _ _ _ _ => rfl, fun _ _ _ _ => rfl, fun _ _ _ _ => rfl,
    fun _ _ _ => rfl, fun _ _ _ _ _ => rfl⟩

/-- No handler sets the time. -/
lemma opEx_timeMs {opcode : UInt8} {op : OpEx} (hop : opEx opcode = some op) (h : Host)
    (vm : VmState) (i : UInt32) : (op h vm i).timeMs = vm.timeMs := by
  by_cases hctu : opcode = 50
  · subst hctu
    obtain rfl : opCtu = op := Option.some.inj hop
    rw [opCtu]
    split_ifs <;> rfl
  by_cases hctd : opcode = 51
  · subst hctd
    obtain rfl : opCtd = op := Option.some.inj hop
    rw [opCtd]
    split_ifs <;> rfl
  exact aside_timeMs.keeps hop hctu hctd h vm i

/-- No handler touches the clock. -/
lemma opEx_clock {opcode : UInt8} {op : OpEx} (hop : opEx opcode = some op) (h : Host)
    (vm : VmState) (i : UInt32) : (op h vm i).clock = vm.clock := by
  have htime := opEx_timeMs hop h vm i
  have hrest : (op h vm i).config = vm.config ∧ (op h vm i).instrNsAccum = vm.instrNsAccum := by
    rcases opEx_cases hop with ⟨hblind, -⟩ | ⟨-, rfl⟩ | ⟨-, rfl⟩ | ⟨-, rfl⟩ | ⟨-, rfl⟩ | ⟨-, rfl⟩
    · have hframe := hblind.frame_eq h vm i
      exact ⟨congrArg Frame.config hframe, congrArg Frame.instrNsAccum hframe⟩
    · exact ⟨rfl, rfl⟩
    · rw [opJmpIf]
      split_ifs <;> exact ⟨rfl, rfl⟩
    · rw [opJmpIfNot]
      split_ifs <;> exact ⟨rfl, rfl⟩
    · exact ⟨rfl, rfl⟩
    · exact ⟨rfl, rfl⟩
  simp only [VmState.clock, htime, hrest]

end Instruction

/-! ### One step -/

/-- The time goes on to the end of the cycle that started at `startMs`. -/
structure Clock.FinishesCycle (startMs : UInt64) (k k' : Clock) : Prop where
  timeMs : k'.timeMs.toNat =
    max k.timeMs.toNat (startMs.toNat + k.config.cycleTimeMs.toNat)
  instrNsAccum : k'.instrNsAccum = k.instrNsAccum
  config : k'.config = k.config

/-- The step does not overflow the 64-bit fields. -/
def TimeFits (c : Config) (_ : Env) : Prop :=
  match c.ctl with
  | .instr _ _ _ _ => c.vm.clock.Fits
  | .tail startMs => startMs.toNat + c.vm.config.cycleTimeMs.toNat < 2 ^ 64
  | _ => True

instance (k : Clock) : Decidable k.Fits := inferInstanceAs (Decidable (_ ∧ _))

instance : ∀ (c : Config) (e : Env), Decidable (TimeFits c e)
  | ⟨_, .poll⟩, _ => isTrue trivial
  | ⟨_, .reload⟩, _ => isTrue trivial
  | ⟨_, .top⟩, _ => isTrue trivial
  | ⟨_, .module _ _⟩, _ => isTrue trivial
  | ⟨vm, .instr _ _ _ _⟩, _ => inferInstanceAs (Decidable vm.clock.Fits)
  | ⟨vm, .tail startMs⟩, _ =>
    inferInstanceAs (Decidable (startMs.toNat + vm.config.cycleTimeMs.toNat < 2 ^ 64))
  | ⟨_, .finished⟩, _ => isTrue trivial

/-- A call of a handler advances the clock. -/
lemma callHandler_clock {opcode : UInt8} {op : OpEx} (hop : opEx opcode = some op) {vm : VmState}
    (hticks : vm.config.enableTickTiming = false) (h : Host) (raw : UInt32) :
    (callHandler op h vm raw).clock = vm.clock.advance := by
  have hclock : ∀ b : Bool,
      (if b then { op h vm raw with pc := (op h vm raw).pc + 4 } else op h vm raw).clock =
        vm.clock := by
    intro b
    rw [← opEx_clock hop h vm raw]
    cases b <;> rfl
  have hbefore := hclock ((op h vm raw).pc == vm.pc)
  have hconfig := congrArg (·.config.enableTickTiming) hbefore
  rw [callHandler, vmUpdateTimeAfterInstruction_clock (hconfig.trans hticks), hbefore]

/-- What a call of `vm_run_instruction` does to the clock. -/
lemma runInstruction_clock {h : Host} {vm : VmState} {mod : ModuleInfo} {moduleEnd : UInt32}
    (hvirtual : vm.clock.Virtual) (hfits : vm.clock.Fits) :
    let result := runInstruction vmDecodeInstruction h vm mod moduleEnd
    (result.2.handled.isSome ∧ vm.clock.AddsInstruction result.1.clock) ∨
      result.2.handled = none ∧ result.1.clock = vm.clock := by
  intro result
  cases hout : result.2 with
  | executed pc instr raw =>
    obtain ⟨op, k, hop, heq⟩ := runInstruction_executed hout
    refine Or.inl ⟨rfl, ?_⟩
    simp only [result, heq]
    rw [@callHandler_clock _ op hop (vm.withCache k) hvirtual.noTicks h raw]
    exact Clock.addsInstruction_advance hvirtual hfits
  | _ =>
    refine Or.inr ⟨rfl, ?_⟩
    have hnone : result.2.handled = none := by rw [hout]; rfl
    obtain ⟨k, b, heq⟩ := runInstruction_of_not_handled hnone
    simp only [result, heq]
    rfl

/-- The end of a cycle, without tick timing. -/
lemma cycleTail_clock {startMs : UInt64} {vm : VmState} (hvirtual : vm.clock.Virtual)
    (hfits : startMs.toNat + vm.config.cycleTimeMs.toNat < 2 ^ 64) :
    vm.clock.FinishesCycle startMs (cycleTail startMs vm).1.clock := by
  have hclock : (cycleTail startMs vm).1.clock = (finishCycleTime startMs vm).clock := rfl
  have htick : vm.config.enableTickTiming = false := hvirtual.noTicks
  have hend : (startMs + vm.config.cycleTimeMs.toUInt64).toNat =
      startMs.toNat + vm.config.cycleTimeMs.toNat := by
    rw [UInt64.toNat_add, UInt32.toNat_toUInt64, Nat.mod_eq_of_lt hfits]
  rw [hclock]
  simp only [finishCycleTime, htick, Bool.not_false, Bool.true_and, decide_eq_true_eq,
    UInt64.lt_iff_toNat_lt, hend]
  split_ifs with hlt
  · refine ⟨?_, rfl, rfl⟩
    simp only [VmState.clock, hend]
    omega
  · refine ⟨?_, rfl, rfl⟩
    simp only [VmState.clock]
    omega

/-- Everything a step can do to the clock. -/
lemma step_clock {c : Config} {e : Env} (hvirtual : c.vm.clock.Virtual) (hfits : TimeFits c e) :
    ((∃ o ∈ outcome vmDecodeInstruction c e, o.handled.isSome) ∧
        c.vm.clock.AddsInstruction (step vmDecodeInstruction c e).vm.clock) ∨
      (∃ startMs, c.ctl = .tail startMs ∧
        c.vm.clock.FinishesCycle startMs (step vmDecodeInstruction c e).vm.clock) ∨
      (∀ startMs, c.ctl ≠ .tail startMs) ∧
        (∀ o ∈ outcome vmDecodeInstruction c e, o.handled = none) ∧
        (step vmDecodeInstruction c e).vm.clock = c.vm.clock := by
  obtain ⟨vm, ctl⟩ := c
  cases ctl with
  | poll =>
    have hclock := pollDirectory_keeps (f := VmState.clock) (fun _ _ _ => rfl) vm e.dir
    exact Or.inr (Or.inr ⟨by simp, by simp [outcome], hclock⟩)
  | reload =>
    have hclock := applyPendingReload_keeps (f := VmState.clock) (fun _ _ _ _ _ _ => rfl) vm e.dir
    exact Or.inr (Or.inr ⟨by simp, by simp [outcome], hclock⟩)
  | top =>
    have hclock := cycleTop_keeps (f := VmState.clock) (fun _ _ _ _ => rfl) e.vmStopRequested vm
    exact Or.inr (Or.inr ⟨by simp, by simp [outcome], hclock⟩)
  | module idx startMs =>
    refine Or.inr (Or.inr ⟨by simp, by simp [outcome], ?_⟩)
    simp only [step]
    cases vm.modules[idx]? <;> rfl
  | instr idx mod count startMs =>
    simp only [step, outcome]
    by_cases hkeep : keepsRunning vm count = true
    · simp only [hkeep, if_true, Option.mem_def, Option.some.injEq, forall_eq', exists_eq_left']
      rcases runInstruction_clock hvirtual hfits with hexec | ⟨hnone, heq⟩
      · -- the instruction was handled and counted
        exact Or.inl hexec
      · exact Or.inr (Or.inr ⟨by simp, hnone, heq⟩)
    · simp only [hkeep, Bool.false_eq_true, if_false]
      exact Or.inr (Or.inr ⟨by simp, by simp, trivial⟩)
  | tail startMs => exact Or.inr (Or.inl ⟨startMs, rfl, cycleTail_clock hvirtual hfits⟩)
  | finished => exact Or.inr (Or.inr ⟨by simp, by simp [outcome], rfl⟩)

/-! ### Runs -/

/-- In a run from `c`, virtual time is conserved. -/
structure TimeConserved (config : VmConfig) (c : Config) (es : List Env) : Prop where
  /-- Each executed instruction adds the nanoseconds of one period. -/
  instruction : ∀ pre e post, es = pre ++ e :: post →
    (∃ o ∈ outcome vmDecodeInstruction (run (step vmDecodeInstruction) c pre) e,
      o.handled.isSome) →
    (run (step vmDecodeInstruction) c (pre ++ [e])).vm.clock.totalNs =
        (run (step vmDecodeInstruction) c pre).vm.clock.totalNs +
          10 ^ 9 / config.clockRateHz.toNat ∧
      (run (step vmDecodeInstruction) c (pre ++ [e])).vm.instrNsAccum.toNat < 10 ^ 6
  /-- Each cycle takes what its instructions take, but at least the cycle time. -/
  cycle : ∀ pre e₁ mid e₂ post startMs, es = pre ++ e₁ :: (mid ++ e₂ :: post) →
    (run (step vmDecodeInstruction) c pre).ctl = .top →
    Along (step vmDecodeInstruction) (fun c _ => c.ctl.InCycle)
      (run (step vmDecodeInstruction) c (pre ++ [e₁])) mid →
    (run (step vmDecodeInstruction) c (pre ++ e₁ :: mid)).ctl = .tail startMs →
    (run (step vmDecodeInstruction) c (pre ++ e₁ :: (mid ++ [e₂]))).vm.timeMs.toNat =
        max (run (step vmDecodeInstruction) c (pre ++ e₁ :: mid)).vm.timeMs.toNat
          ((run (step vmDecodeInstruction) c pre).vm.timeMs.toNat + config.cycleTimeMs.toNat) ∧
      (run (step vmDecodeInstruction) c pre).vm.timeMs.toNat + config.cycleTimeMs.toNat ≤
        (run (step vmDecodeInstruction) c (pre ++ e₁ :: (mid ++ [e₂]))).vm.timeMs.toNat
  /-- Time never runs backwards. -/
  monotone : ∀ pre mid post, es = pre ++ (mid ++ post) →
    (run (step vmDecodeInstruction) c pre).vm.timeMs.toNat ≤
      (run (step vmDecodeInstruction) c (pre ++ mid)).vm.timeMs.toNat

section Runs

variable {c : Config} {es : List Env}

/-- The configuration of the clock stays what it is, and time does not run backwards. -/
lemma step_clock_mono {c : Config} {e : Env} (hvirtual : c.vm.clock.Virtual)
    (hfits : TimeFits c e) :
    (step vmDecodeInstruction c e).vm.config = c.vm.config ∧
      c.vm.timeMs.toNat ≤ (step vmDecodeInstruction c e).vm.timeMs.toNat := by
  rcases step_clock hvirtual hfits with ⟨-, hadds⟩ | ⟨startMs, -, hend⟩ | ⟨-, -, heq⟩
  · exact ⟨hadds.config, hadds.timeMs⟩
  · refine ⟨hend.config, ?_⟩
    have htime : (step vmDecodeInstruction c e).vm.timeMs.toNat =
        max c.vm.timeMs.toNat (startMs.toNat + c.vm.config.cycleTimeMs.toNat) := hend.timeMs
    rw [htime]
    exact le_max_left _ _
  · exact ⟨congrArg Clock.config heq, le_of_eq (congrArg (·.timeMs.toNat) heq).symm⟩

/-- Along a run whose steps do not overflow. -/
lemma run_clock_mono (hvirtual : c.vm.clock.Virtual)
    (hfits : Along (step vmDecodeInstruction) TimeFits c es) :
    (run (step vmDecodeInstruction) c es).vm.config = c.vm.config ∧
      c.vm.timeMs.toNat ≤ (run (step vmDecodeInstruction) c es).vm.timeMs.toNat := by
  refine hfits.invariant (I := fun c' => c'.vm.config = c.vm.config ∧
    c.vm.timeMs.toNat ≤ c'.vm.timeMs.toNat) ⟨rfl, le_refl _⟩ ?_
  rintro c' e ⟨hconfig, htime⟩ hstep
  have hvirtual' : c'.vm.clock.Virtual := by
    constructor
    · exact (congrArg VmConfig.enableTickTiming hconfig).trans hvirtual.noTicks
    · intro hrate
      exact hvirtual.rate ((congrArg VmConfig.clockRateHz hconfig).symm.trans hrate)
  obtain ⟨hconfig', htime'⟩ := step_clock_mono hvirtual' hstep
  exact ⟨hconfig'.trans hconfig, htime.trans htime'⟩

lemma run_cycleStart (hc : Along (step vmDecodeInstruction) (fun c _ => c.ctl.InCycle) c es) :
    (run (step vmDecodeInstruction) c es).ctl.cycleStart = c.ctl.cycleStart :=
  hc.invariant (I := fun c' => c'.ctl.cycleStart = c.ctl.cycleStart) rfl
    fun _ _ h hstep => (step_cycleStart hstep).trans h

/-- The condition holds at a configuration of the run. -/
lemma clock_virtual_of_run (hvirtual : c.vm.clock.Virtual)
    (hfits : Along (step vmDecodeInstruction) TimeFits c es) :
    (run (step vmDecodeInstruction) c es).vm.clock.Virtual := by
  have hconfig := (run_clock_mono hvirtual hfits).1
  exact ⟨(congrArg VmConfig.enableTickTiming hconfig).trans hvirtual.noTicks, fun hrate =>
    hvirtual.rate ((congrArg VmConfig.clockRateHz hconfig).symm.trans hrate)⟩

/-- The top of a cycle remembers the time. -/
lemma cycleStart_of_top {e : Env} {startMs : UInt64} (htop : c.ctl = .top)
    (hstart : (step vmDecodeInstruction c e).ctl.cycleStart = some startMs) :
    startMs = c.vm.timeMs := by
  simp only [step, htop] at hstart
  split_ifs at hstart
  · cases hstart
  · exact (Option.some.inj hstart).symm

/-- A step that executes an instruction adds the nanoseconds of one period. -/
lemma run_instruction_adds {pre : List Env} {e : Env} (hvirtual : c.vm.clock.Virtual)
    (hpre : Along (step vmDecodeInstruction) TimeFits c pre)
    (hstep : TimeFits (run (step vmDecodeInstruction) c pre) e)
    (hexec : ∃ o ∈ outcome vmDecodeInstruction (run (step vmDecodeInstruction) c pre) e,
      o.handled.isSome) :
    (run (step vmDecodeInstruction) c (pre ++ [e])).vm.clock.totalNs =
        (run (step vmDecodeInstruction) c pre).vm.clock.totalNs +
          10 ^ 9 / c.vm.config.clockRateHz.toNat ∧
      (run (step vmDecodeInstruction) c (pre ++ [e])).vm.instrNsAccum.toNat < 10 ^ 6 := by
  obtain ⟨o, ho, hhandled⟩ := hexec
  have hvirtual' := clock_virtual_of_run hvirtual hpre
  rw [run_append, ← (run_clock_mono hvirtual hpre).1]
  rcases step_clock hvirtual' hstep with ⟨-, hadds⟩ | ⟨startMs, htail, -⟩ | ⟨-, hnone, -⟩
  · exact ⟨hadds.totalNs, hadds.below⟩
  · simp only [outcome, htail] at ho
    cases ho
  · rw [hnone o ho] at hhandled
    cases hhandled

/-- Behind the modules the time of the top of the cycle is still known. -/
lemma cycleStart_of_cycle {pre mid : List Env} {e : Env} {startMs : UInt64}
    (htop : (run (step vmDecodeInstruction) c pre).ctl = .top)
    (hcycle : Along (step vmDecodeInstruction) (fun c _ => c.ctl.InCycle)
      (run (step vmDecodeInstruction) c (pre ++ [e])) mid)
    (htail : (run (step vmDecodeInstruction) c (pre ++ e :: mid)).ctl = .tail startMs) :
    startMs = (run (step vmDecodeInstruction) c pre).vm.timeMs := by
  have hsplit : pre ++ e :: mid = (pre ++ [e]) ++ mid := by simp
  have hremembered := run_cycleStart hcycle
  rw [← run_append, ← hsplit, htail, run_append] at hremembered
  exact cycleStart_of_top htop hremembered.symm

/-- The step behind the modules ends the cycle. -/
lemma run_cycle_ends {es : List Env} {e : Env} {startMs : UInt64} (hvirtual : c.vm.clock.Virtual)
    (hes : Along (step vmDecodeInstruction) TimeFits c es)
    (hstep : TimeFits (run (step vmDecodeInstruction) c es) e)
    (htail : (run (step vmDecodeInstruction) c es).ctl = .tail startMs) :
    (run (step vmDecodeInstruction) c (es ++ [e])).vm.timeMs.toNat =
      max (run (step vmDecodeInstruction) c es).vm.timeMs.toNat
        (startMs.toNat + c.vm.config.cycleTimeMs.toNat) := by
  have hvirtual' := clock_virtual_of_run hvirtual hes
  rw [run_append, ← (run_clock_mono hvirtual hes).1]
  rcases step_clock hvirtual' hstep with ⟨⟨o, ho, -⟩, -⟩ | ⟨s, hs, hfinish⟩ | ⟨hne, -, -⟩
  · simp only [outcome, htail] at ho
    cases ho
  · rw [htail] at hs
    cases hs
    exact hfinish.timeMs
  · exact absurd htail (hne startMs)

/-- In every run of `run_program` without tick timing, virtual time is conserved. -/
theorem virtual_time_conserved {h : Host} {vm : VmState}
    (htick : vm.config.enableTickTiming = false) (hrate : vm.config.clockRateHz ≠ 0)
    (hfits : Along (step vmDecodeInstruction) TimeFits (start h vm) es) :
    TimeConserved vm.config (start h vm) es := by
  have hvirtual : (start h vm).vm.clock.Virtual := ⟨htick, hrate⟩
  constructor
  · rintro pre e post rfl hexec
    obtain ⟨hpre, hstep, -⟩ := along_append.1 hfits
    exact run_instruction_adds hvirtual hpre hstep hexec
  · rintro pre e₁ mid e₂ post startMs rfl htop hcycle htail
    have hsplit : ∀ rest, pre ++ e₁ :: (mid ++ rest) = (pre ++ e₁ :: mid) ++ rest := by simp
    rw [hsplit] at hfits
    obtain ⟨hbefore, hstep, -⟩ := along_append.1 hfits
    have hmax := run_cycle_ends hvirtual hbefore hstep htail
    rw [hsplit, ← cycleStart_of_cycle htop hcycle htail]
    exact ⟨hmax, hmax ▸ le_max_right _ _⟩
  · rintro pre mid post rfl
    obtain ⟨hpre, hrest⟩ := along_append.1 hfits
    rw [run_append]
    exact (run_clock_mono (clock_virtual_of_run hvirtual hpre) (along_append.1 hrest).1).2

/-- A machine with a program of one `NOP`. -/
def oneNop : VmState :=
  { vmTablesInit vmCreate with
    modules := [⟨[97], 0x3000, 4⟩]
    mem := overlay vmCreate.mem 0x3000 (uint32Bytes 0x86000000) }

/-- Two cycles of a machine that executes one instruction in each. -/
theorem virtual_time_conserved_nop :
    TimeConserved oneNop.config (start idleHost oneNop) (List.replicate 16 idleEnv) :=
  virtual_time_conserved rfl (by decide) (by decide +kernel)

end Runs

end Vm32
