/-
# The two runtimes over whole runs

`VM32Component` calls `vm_execute_single_cycle` again and again, while the standalone runtime stays
in the loop of `run_program`.  The clocks drift apart, since the two end their cycles at different
times; but a program that executes no timer does not see them.  So for such a program the runs of
the two agree in everything but the clocks, cycle for cycle, until it stops.  Then the standalone
runtime leaves its loop, and the calls return at once.
-/
import Vm32.System.TimeBlind

namespace Vm32

open LabelledRun

namespace Legacy

/-- The next call begins where the last one returned. -/
def again (c : Config) : Config :=
  match c.ctl with
  | .returned _ => ⟨c.vm, .entry⟩
  | _ => c

/-- One step of the calls of `vm_execute_single_cycle` that follow each other. -/
def loopStep (c : Config) (e : Env) : Config := again (step c e)

/-- The address and the word for which a step calls a handler. -/
def handled (c : Config) (e : Env) : Option (UInt32 × UInt32) :=
  match c.ctl with
  | .instr _ mod count =>
    if keepsRunning c.vm.toVmState count then
      (vmRunInstruction e.host c.vm mod (moduleEnd mod)).2.handled
    else none
  | _ => none

end Legacy

/-! ### Events -/

/-- What a runtime does: it executes a word, or it completes a cycle. -/
inductive CycleEvent
  | execute (pc instr : UInt32)
  | complete
deriving DecidableEq

/-- The call of a handler. -/
def CycleEvent.ofCall (q : UInt32 × UInt32) : CycleEvent := .execute q.1 q.2

/-- What `run_program` does in a step. -/
def event (c : Config) (e : Env) : Option CycleEvent :=
  match c.ctl with
  | .tail _ => some .complete
  | _ => (handled c e).map CycleEvent.ofCall

/-- What `vm_execute_single_cycle` does in a step. -/
def Legacy.event (c : Legacy.Config) (e : Env) : Option CycleEvent :=
  match c.ctl with
  | .tail => some .complete
  | _ => (Legacy.handled c e).map CycleEvent.ofCall

/-! ### Lockstep -/

/-- The step sees no stop of the whole process, and calls no handler that reads the clocks or was
changed on one side. -/
structure Common (c : Config) (e : Env) : Prop where
  noSignal : e.vmStopRequested = false
  noTimer : ExecutesNoTimer c e
  unchanged : ∀ q ∈ handled c e, (opc q.2).toNat ∉ Legacy.changed

lemma common_iff {c : Config} {e : Env} :
    Common c e ↔ e.vmStopRequested = false ∧ ExecutesNoTimer c e ∧
      ∀ q ∈ handled c e, (opc q.2).toNat ∉ Legacy.changed :=
  ⟨fun h => ⟨h.noSignal, h.noTimer, h.unchanged⟩, fun h => ⟨h.1, h.2.1, h.2.2⟩⟩

instance : ∀ c e, Decidable (Common c e) := fun _ _ => decidable_of_iff _ common_iff.symm

/-- The state with other clocks and another number of the cycle. -/
def VmState.withClocksAndCount (vm : VmState) (k : Clocks) (n : UInt32) : VmState :=
  { vm.withClocks k with cycleCount := n }

/-- The standalone runtime at `c` and the embedded one at `d`. -/
inductive Embeds (edges : ℕ → Bool) : Config → Legacy.Config → Prop
  /-- Both are at the same point of their cycles. -/
  | running {c c' : Config} (halike : AlikeButClocks c c') (hloop : c.ctl ≠ .finished)
      (hstop : c.ctl = .reload ∨ c.ctl = .top → c.vm.stopRequested = false) :
      Embeds edges c (c'.toLegacy edges)
  /-- The program has stopped: the calls return, and the loop is on its way to its end. -/
  | stopped {vm : VmState} {ctl : Ctl} (k : Clocks) (n : UInt32) (hstop : vm.stopRequested = true)
      (hctl : ctl = .reload ∨ ctl = .top ∨ ctl = .finished) :
      Embeds edges ⟨vm, ctl⟩ ⟨⟨vm.withClocksAndCount k n, edges⟩, .entry⟩

section Steps

variable {edges : ℕ → Bool} {c : Config} {d : Legacy.Config} {e : Env}

/-- Without a program directory no step begins to watch one. -/
lemma programDir_step (hdir : c.vm.programDir = none) :
    (step vmDecodeInstruction c e).vm.programDir = none := by
  obtain ⟨vm, ctl⟩ := c
  by_cases hpoll : ctl = .poll
  · subst hpoll
    exact (pollDirectory_keeps (f := VmState.programDir) (fun _ _ _ => rfl) vm e.dir).trans hdir
  by_cases hreload : ctl = .reload
  · subst hreload
    exact (applyPendingReload_keeps (f := VmState.programDir) (fun _ _ _ _ _ _ => rfl) vm
      e.dir).trans hdir
  · have hkeep := congrArg Bookkeeping.programDir
      (step_bookkeeping (c := ⟨vm, ctl⟩) hpoll hreload e)
    exact hkeep.trans hdir

lemma again_toLegacy (hloop : c.ctl ≠ .finished) :
    Legacy.again (c.toLegacy edges) = c.toLegacy edges := by
  obtain ⟨vm, ctl⟩ := c
  cases ctl with
  | finished => exact absurd rfl hloop
  | _ => rfl

/-- In its cycle the embedded runtime executes what the standalone one executes. -/
lemma handled_toLegacy (hsame : ∀ q ∈ handled c e, (opc q.2).toNat ∉ Legacy.changed) :
    Legacy.handled (c.toLegacy edges) e = handled c e := by
  obtain ⟨vm, ctl⟩ := c
  cases ctl with
  | instr idx mod count startMs =>
    by_cases hkeep : keepsRunning vm count = true
    · simp only [handled, outcome, hkeep, if_true] at hsame ⊢
      simp only [Config.toLegacy, Legacy.handled, hkeep, if_true,
        Legacy.vmRunInstruction_eq edges hsame]
      rfl
    · simp only [handled, outcome, Config.toLegacy, Legacy.handled, hkeep, Bool.false_eq_true,
        if_false]
      rfl
  | _ => rfl

lemma event_toLegacy (hsame : ∀ q ∈ handled c e, (opc q.2).toNat ∉ Legacy.changed) :
    Legacy.event (c.toLegacy edges) e = event c e := by
  have hhandled := @handled_toLegacy edges c e hsame
  obtain ⟨vm, ctl⟩ := c
  cases ctl with
  | tail startMs => rfl
  | _ => exact congrArg (Option.map CycleEvent.ofCall) hhandled

/-- What machines that differ in their clocks do. -/
lemma AlikeButClocks.event {c' : Config} (hc : AlikeButClocks c c')
    (hhandled : handled c' e = handled c e) : event c' e = Vm32.event c e := by
  obtain ⟨vm, ctl⟩ := c
  obtain ⟨vm', ctl'⟩ := c'
  obtain ⟨-, t, hctl⟩ := hc
  dsimp only at hctl
  subst hctl
  cases ctl with
  | tail startMs => rfl
  | _ => exact congrArg (Option.map CycleEvent.ofCall) hhandled

/-- Without a stop the loop goes on, and no stop appears before the modules. -/
lemma loop_goes_on (hloop : c.ctl ≠ .finished) (hsignal : e.vmStopRequested = false)
    (hstop : c.ctl = .poll ∨ c.ctl = .reload ∨ c.ctl = .top → c.vm.stopRequested = false) :
    (step vmDecodeInstruction c e).ctl ≠ .finished ∧
      ((step vmDecodeInstruction c e).ctl = .reload ∨ (step vmDecodeInstruction c e).ctl = .top →
        (step vmDecodeInstruction c e).vm.stopRequested = false) := by
  obtain ⟨vm, ctl⟩ := c
  cases ctl with
  | poll =>
    refine ⟨by simp [step], fun _ => ?_⟩
    exact (pollDirectory_keeps (f := VmState.stopRequested) (fun _ _ _ => rfl) vm e.dir).trans
      (hstop (Or.inl rfl))
  | reload =>
    refine ⟨by simp [step], fun _ => ?_⟩
    exact (applyPendingReload_keeps (f := VmState.stopRequested) (fun _ _ _ _ _ _ => rfl) vm
      e.dir).trans (hstop (Or.inr (Or.inl rfl)))
  | top =>
    have hvm : vm.stopRequested = false := hstop (Or.inr (Or.inr rfl))
    simp [step, hsignal, cycleTop_of_noStop hvm]
  | module idx startMs =>
    simp only [step]
    cases vm.modules[idx]? <;> simp
  | instr idx mod count startMs =>
    simp only [step]
    split_ifs
    · cases (runInstruction vmDecodeInstruction e.host vm mod (moduleEnd mod)).2 <;>
        simp [afterInstruction]
    · simp
  | tail startMs => simp [step]
  | finished => exact absurd rfl hloop

lemma AlikeButClocks.ne_finished {c' : Config} (halike : AlikeButClocks c c')
    (hloop : c.ctl ≠ .finished) : c'.ctl ≠ .finished := by
  obtain ⟨-, t, hctl⟩ := halike
  rw [hctl]
  cases hc : c.ctl with
  | finished => exact absurd hc hloop
  | _ => simp [Ctl.startingAt]

/-- The other machine proceeds too. -/
lemma AlikeButClocks.proceeds {c' : Config} (halike : AlikeButClocks c c')
    (htail : ¬∃ startMs, c.ctl = .tail startMs)
    (hstop : c.ctl = .poll ∨ c.ctl = .reload ∨ c.ctl = .top → c.vm.stopRequested = false)
    (hsignal : e.vmStopRequested = false) : Proceeds c' e := by
  obtain ⟨vm, ctl⟩ := c
  obtain ⟨vm', ctl'⟩ := c'
  obtain ⟨⟨k, hvm⟩, t, hctl⟩ := halike
  dsimp only at hvm hctl htail hstop
  subst hvm hctl
  cases ctl with
  | poll => exact ⟨by simp [Ctl.startingAt], fun _ => ⟨hsignal, hstop (Or.inl rfl)⟩⟩
  | top => exact ⟨by simp [Ctl.startingAt], fun _ => ⟨hsignal, hstop (Or.inr (Or.inr rfl))⟩⟩
  | tail startMs => exact absurd ⟨startMs, rfl⟩ htail
  | _ => exact ⟨by simp [Ctl.startingAt], by simp [Ctl.startingAt]⟩

/-- The embedded runtime ends its cycle at another time. -/
lemma alikeButClocks_tail {vm : VmState} (k : Clocks) (startMs : UInt64) :
    AlikeButClocks ⟨(cycleTail startMs vm).1, .poll⟩
      ⟨Legacy.cycleTail (vm.withClocks k), .poll⟩ := by
  obtain ⟨k₁, hleft⟩ := cycleTail_eq vm startMs
  obtain ⟨k₂, hright⟩ := cycleTail_eq (vm.withClocks k) (vm.withClocks k).timeMs
  have hlegacy : Legacy.cycleTail (vm.withClocks k) =
      (cycleTail (vm.withClocks k).timeMs (vm.withClocks k)).1 := rfl
  refine ⟨⟨k₂, ?_⟩, 0, rfl⟩
  show Legacy.cycleTail (vm.withClocks k) = (cycleTail startMs vm).1.withClocks k₂
  rw [hlegacy, hleft, hright]
  rfl

/-- Behind the modules. -/
lemma embeds_of_tail {c' : Config} (halike : AlikeButClocks c c') {startMs : UInt64}
    (htail : c.ctl = .tail startMs) :
    Embeds edges (step vmDecodeInstruction c e) (Legacy.loopStep (c'.toLegacy edges) e) := by
  obtain ⟨vm, ctl⟩ := c
  obtain ⟨vm', ctl'⟩ := c'
  obtain ⟨⟨k, hvm⟩, t, hctl⟩ := halike
  dsimp only at hvm hctl htail
  subst htail hvm hctl
  exact .running (alikeButClocks_tail k startMs) (by simp) (by simp)

/-- At the end of the cycle in which the program has stopped. -/
lemma embeds_of_stop {c' : Config} (halike : AlikeButClocks c c') (hdir : c.vm.programDir = none)
    (hpoll : c.ctl = .poll) (hstop : c.vm.stopRequested = true) :
    Embeds edges (step vmDecodeInstruction c e) (Legacy.loopStep (c'.toLegacy edges) e) := by
  obtain ⟨vm, ctl⟩ := c
  obtain ⟨vm', ctl'⟩ := c'
  obtain ⟨⟨k, hvm⟩, t, hctl⟩ := halike
  dsimp only at hvm hctl hpoll hdir hstop
  subst hpoll hvm hctl
  have hkeep : pollDirectory vm e.dir = vm := by simp only [pollDirectory, hdir]
  have hstep : step vmDecodeInstruction ⟨vm, .poll⟩ e = ⟨vm, .reload⟩ :=
    congrArg (Config.mk · .reload) hkeep
  have hreturned : Legacy.step ⟨⟨vm.withClocks k, edges⟩, .entry⟩ e =
      ⟨⟨vm.withClocks k, edges⟩, .returned 1⟩ := by
    have hstop' : (vm.withClocks k).stopRequested = true := hstop
    exact if_pos (by simp [hstop'])
  have hloop : Legacy.loopStep (Config.toLegacy edges ⟨vm.withClocks k, .poll⟩) e =
      ⟨⟨vm.withClocksAndCount k vm.cycleCount, edges⟩, .entry⟩ :=
    congrArg Legacy.again hreturned
  rw [hstep]
  exact hloop ▸ .stopped k vm.cycleCount hstop (Or.inl rfl)

/-- The program has stopped, and the loop is left. -/
lemma Embeds.step_stopped {vm : VmState} {ctl : Ctl} (k : Clocks) (n : UInt32)
    (hstop : vm.stopRequested = true) (hctl : ctl = .reload ∨ ctl = .top ∨ ctl = .finished)
    (hdir : vm.programDir = none) (hsignal : e.vmStopRequested = false) :
    Embeds edges (Vm32.step vmDecodeInstruction ⟨vm, ctl⟩ e)
        (Legacy.loopStep ⟨⟨vm.withClocksAndCount k n, edges⟩, .entry⟩ e) ∧
      Legacy.event ⟨⟨vm.withClocksAndCount k n, edges⟩, .entry⟩ e = event ⟨vm, ctl⟩ e := by
  have hreturned : Legacy.step ⟨⟨vm.withClocksAndCount k n, edges⟩, .entry⟩ e =
      ⟨⟨vm.withClocksAndCount k n, edges⟩, .returned 1⟩ := by
    have hstop' : (vm.withClocksAndCount k n).stopRequested = true := hstop
    exact if_pos (by simp [hstop'])
  have hloop : Legacy.loopStep ⟨⟨vm.withClocksAndCount k n, edges⟩, .entry⟩ e =
      ⟨⟨vm.withClocksAndCount k n, edges⟩, .entry⟩ := congrArg Legacy.again hreturned
  rw [hloop]
  rcases hctl with rfl | rfl | rfl
  · refine ⟨?_, rfl⟩
    have hstep : Vm32.step vmDecodeInstruction ⟨vm, .reload⟩ e = ⟨vm, .top⟩ :=
      congrArg (Config.mk · .top) (applyPendingReload_of_idle (Or.inl hdir) e.dir)
    rw [hstep]
    exact .stopped k n hstop (Or.inr (Or.inl rfl))
  · refine ⟨?_, rfl⟩
    have hstep : Vm32.step vmDecodeInstruction ⟨vm, .top⟩ e =
        ⟨{ vm with cycleCount := vm.cycleCount + 1 }, .finished⟩ := by
      simp [Vm32.step, cycleTop, hsignal, hstop]
    rw [hstep]
    -- the number of the cycle is the only thing that the loop still changes
    exact @Embeds.stopped edges { vm with cycleCount := vm.cycleCount + 1 } .finished k n hstop
      (Or.inr (Or.inr rfl))
  · exact ⟨.stopped k n hstop (Or.inr (Or.inr rfl)), rfl⟩

/-- One step of both runtimes. -/
theorem Embeds.step (h : Embeds edges c d) (hdir : c.vm.programDir = none) (hc : Common c e) :
    Embeds edges (Vm32.step vmDecodeInstruction c e) (Legacy.loopStep d e) ∧
      Legacy.event d e = event c e := by
  cases h with
  | stopped k n hstop hctl => exact Embeds.step_stopped k n hstop hctl hdir hc.noSignal
  | @running _ c' halike hloop hopen =>
    have hsame : e.AlikeButClock e := ⟨rfl, rfl, e.host.monotonic, rfl⟩
    obtain ⟨hnext, hhandled⟩ := halike.step hsame hc.noTimer
    have hunchanged : ∀ q ∈ handled c' e, (opc q.2).toNat ∉ Legacy.changed :=
      hhandled ▸ hc.unchanged
    refine ⟨?_, (event_toLegacy hunchanged).trans (halike.event hhandled)⟩
    by_cases htail : ∃ startMs, c.ctl = .tail startMs
    · obtain ⟨startMs, htail⟩ := htail
      exact embeds_of_tail halike htail
    by_cases hstopped : c.ctl = .poll ∧ c.vm.stopRequested = true
    · exact embeds_of_stop halike hdir hstopped.1 hstopped.2
    · -- neither sees a stop, so both go on
      have hstop : c.ctl = .poll ∨ c.ctl = .reload ∨ c.ctl = .top →
          c.vm.stopRequested = false := by
        rintro (hpoll | hbefore)
        · exact Bool.eq_false_iff.2 fun hrequested => hstopped ⟨hpoll, hrequested⟩
        · exact hopen hbefore
      obtain ⟨hgoes, hopen'⟩ := loop_goes_on hloop hc.noSignal hstop
      have hlegacy := step_toLegacy edges (halike.proceeds htail hstop hc.noSignal) hunchanged
      have hctl : (Vm32.step vmDecodeInstruction c' e).ctl ≠ .finished := hnext.ne_finished hgoes
      rw [Legacy.loopStep, hlegacy, again_toLegacy hctl]
      exact .running hnext hgoes hopen'

/-- What related states have in common. -/
lemma Embeds.vm (h : Embeds edges c d) :
    ∃ k n, d.vm = ⟨c.vm.withClocksAndCount k n, edges⟩ := by
  cases h with
  | stopped k n hstop hctl => exact ⟨k, n, rfl⟩
  | @running _ c' halike hloop hopen =>
    obtain ⟨vm, ctl⟩ := c
    obtain ⟨vm', ctl'⟩ := c'
    obtain ⟨⟨k, hvm⟩, t, hctl⟩ := halike
    dsimp only at hvm hctl
    subst hvm hctl
    -- at the two points before the modules the embedded runtime has counted the cycle already
    cases ctl with
    | reload => exact ⟨k, vm.cycleCount + 1, rfl⟩
    | top => exact ⟨k, vm.cycleCount + 1, rfl⟩
    | _ => exact ⟨k, vm.cycleCount, rfl⟩

end Steps

section Runs

variable {vm : VmState} {es : List Env}

/-- For a program that executes no timer, no edge detector, no latch and no `EXIT`, and without a
program directory and a signal, repeated calls of `vm_execute_single_cycle` do what the loop of
`run_program` does: they execute the same words and complete the same cycles in the same order,
and after every step the states differ in the clocks and in the number of the cycle only.  This
goes on after the program has stopped. -/
theorem embedded_runs (edges : ℕ → Bool) (k : Clocks) (hdir : vm.programDir = none)
    (hcommon : Along (step vmDecodeInstruction) Common ⟨vm, .poll⟩ es) :
    (∃ k' n, (run Legacy.loopStep ⟨⟨vm.withClocks k, edges⟩, .entry⟩ es).vm =
        ⟨(run (step vmDecodeInstruction) ⟨vm, .poll⟩ es).vm.withClocksAndCount k' n, edges⟩) ∧
      trace Legacy.loopStep Legacy.event ⟨⟨vm.withClocks k, edges⟩, .entry⟩ es =
        trace (step vmDecodeInstruction) event ⟨vm, .poll⟩ es := by
  have hstart : Embeds edges ⟨vm, .poll⟩ ⟨⟨vm.withClocks k, edges⟩, .entry⟩ :=
    @Embeds.running edges ⟨vm, .poll⟩ ⟨vm.withClocks k, .poll⟩ ⟨⟨k, rfl⟩, 0, rfl⟩ (by simp)
      (by simp)
  have hlabels : List.Forall₂ (fun e e' : Env => e = e') es es :=
    List.forall₂_same.2 fun _ _ => rfl
  have hstep : ∀ c d e e', (Embeds edges c d ∧ c.vm.programDir = none) → e = e' → Common c e →
      (Embeds edges (step vmDecodeInstruction c e) (Legacy.loopStep d e') ∧
          (step vmDecodeInstruction c e).vm.programDir = none) ∧
        Legacy.event d e' = event c e := by
    rintro c d e e' ⟨hembeds, hdir⟩ rfl hc
    obtain ⟨hnext, hevent⟩ := hembeds.step hdir hc
    exact ⟨⟨hnext, programDir_step hdir⟩, hevent⟩
  obtain ⟨⟨hembeds, -⟩, htrace⟩ := hcommon.related
    (R := fun c d => Embeds edges c d ∧ c.vm.programDir = none) ⟨hstart, hdir⟩ hlabels hstep
  exact ⟨hembeds.vm, htrace⟩

/-- A program that adds one to R1 and halts. -/
def countAndHalt : VmState :=
  machineWith [1, 3, 2, 0, 0, 0, 0, 0x84] (by decide) fun _ => 0

/-- Both runtimes execute the two words and complete one cycle; the standalone one is done at
1000 ms and has counted to two, the embedded one ends at 1020 ms and has counted to one. -/
theorem embedded_runs_countAndHalt :
    let es := List.replicate 20 idleEnv
    let c := run (step vmDecodeInstruction) ⟨countAndHalt, .poll⟩ es
    let d := run Legacy.loopStep ⟨⟨countAndHalt, fun _ => false⟩, .entry⟩ es
    (∃ k n, d.vm = ⟨c.vm.withClocksAndCount k n, fun _ => false⟩) ∧
      trace Legacy.loopStep Legacy.event ⟨⟨countAndHalt, fun _ => false⟩, .entry⟩ es =
        trace (step vmDecodeInstruction) event ⟨countAndHalt, .poll⟩ es ∧
      trace (step vmDecodeInstruction) event ⟨countAndHalt, .poll⟩ es =
        [.execute 0x3000 0x20301, .execute 0x3004 0x84000000, .complete] ∧
      (c.vm.timeMs = 1000 ∧ c.vm.cycleCount = 2) ∧ d.vm.timeMs = 1020 ∧ d.vm.cycleCount = 1 := by
  intro es c d
  obtain ⟨hvm, htrace⟩ :=
    @embedded_runs countAndHalt es (fun _ => false) countAndHalt.clocks rfl (by decide +kernel)
  exact ⟨hvm, htrace, by decide +kernel, by decide +kernel, by decide +kernel, by decide +kernel⟩

end Runs

end Vm32
