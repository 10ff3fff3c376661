/-
# Stopping

`HALT` and `EXIT` clear `running` and set `stop_requested`, an undefined opcode clears `running`
only.  The loop over the modules sets `running` again for every module, and `stop_requested` is
tested at the top of a cycle.  A stop is therefore final only if there is nothing left to execute
in the modules that the loop still enters.
-/
import Vm32.Vm.Bookkeeping
import Vm32.Vm.Lifecycle
import Vm32.Vm.CacheCoherence

namespace Vm32

open LabelledRun

/-- The call executes `HALT` or `EXIT` or rejects an undefined opcode. -/
def Outcome.stops : Outcome → Bool
  | .executed _ instr _ => opc instr == 65 || opc instr == 66
  | .invalidOpcode _ _ => true
  | _ => false

/-- Nothing is executed when the module is entered: it is empty, or its first word cannot be
executed. -/
def Idle (vm : VmState) (mod : ModuleInfo) : Prop :=
  moduleEnd mod ≤ mod.addr ∨ ¬Executable vm mod.addr

instance (vm : VmState) (mod : ModuleInfo) : Decidable (Idle vm mod) :=
  inferInstanceAs (Decidable (_ ∨ _))

/-- When the step stops the machine, the modules behind the current one are idle; and when a
cycle begins after a stop although no stop is requested, all modules are idle. -/
def StopSafe (x : Config × List Outcome) (e : Env) : Prop :=
  match x.1.ctl with
  | .instr idx _ _ _ =>
    ∀ o ∈ outcome vmDecodeInstruction x.1 e, o.stops = true →
      ∀ mod ∈ x.1.vm.modules.drop (idx + 1), Idle x.1.vm mod
  | .top =>
    (∃ o ∈ x.2, o.stops = true) → x.1.vm.stopRequested = false → e.vmStopRequested = false →
      ∀ mod ∈ x.1.vm.modules, Idle x.1.vm mod
  | _ => True

instance (x : Config × List Outcome) (e : Env) : Decidable (StopSafe x e) :=
  match x with
  | (⟨vm, .instr idx mod count startMs⟩, _) =>
    inferInstanceAs (Decidable
      (∀ o ∈ outcome vmDecodeInstruction ⟨vm, .instr idx mod count startMs⟩ e, o.stops = true →
        ∀ mod ∈ vm.modules.drop (idx + 1), Idle vm mod))
  | (⟨vm, .top⟩, past) =>
    inferInstanceAs (Decidable
      ((∃ o ∈ past, o.stops = true) → vm.stopRequested = false → e.vmStopRequested = false →
        ∀ mod ∈ vm.modules, Idle vm mod))
  | (⟨_, .poll⟩, _) | (⟨_, .reload⟩, _) | (⟨_, .module _ _⟩, _) | (⟨_, .tail _⟩, _)
  | (⟨_, .finished⟩, _) => isTrue trivial

/-! ### Calls that invoke no handler -/

variable {vm vm' : VmState} {mod : ModuleInfo}

lemma Idle.congr (hmem : vm'.mem = vm.mem) (hidle : Idle vm mod) : Idle vm' mod := by
  have hword : vmMr32 vm' mod.addr = vmMr32 vm mod.addr := by simp only [vmMr32, vmMr8, hmem]
  rw [Idle, Executable, hword]
  exact hidle

/-- An idle module is left without a call of a handler. -/
lemma Idle.not_handled (hidle : Idle vm mod) (hpc : vm.pc = mod.addr) (h : Host) :
    (runInstruction vmDecodeInstruction h vm mod (moduleEnd mod)).2.handled = none := by
  by_contra hsome
  obtain ⟨q, hq⟩ := Option.ne_none_iff_exists'.1 hsome
  obtain ⟨hin, hexec, -⟩ := runInstruction_handled hq
  rw [hpc] at hin hexec
  rcases hidle with hempty | hno
  · exact hin (Or.inl hempty)
  · exact hno hexec

/-! ### Steps after a stop -/

/-- A machine that stopped: the module it is in has ended or is idle, and the modules that the
loop still enters in this cycle are idle. -/
def AfterStop (c : Config) : Prop :=
  match c.ctl with
  | .instr idx mod _ _ =>
    (c.vm.running = false ∨ c.vm.pc = mod.addr ∧ Idle c.vm mod) ∧
      ∀ m ∈ c.vm.modules.drop (idx + 1), Idle c.vm m
  | .module idx _ => ∀ m ∈ c.vm.modules.drop idx, Idle c.vm m
  | _ => True

/-- `HALT` and `EXIT` clear `running` and leave memory alone. -/
lemma dispatch_halt {instr : UInt32} (hop : opc instr = 65 ∨ opc instr = 66) (h : Host)
    (vm : VmState) (raw : UInt32) :
    (dispatch h vm instr raw).1.running = false ∧ (dispatch h vm instr raw).1.mem = vm.mem := by
  have hcall : ∀ op, opEx (opc instr) = some op →
      (dispatch h vm instr raw).1.running = (op h vm raw).running ∧
        (dispatch h vm instr raw).1.mem = (op h vm raw).mem := by
    intro op hop
    rw [dispatch_of_handler hop]
    exact ⟨callHandler_keeps (fun _ _ => rfl) (fun _ _ _ => rfl) op h vm raw,
      callHandler_keeps (fun _ _ => rfl) (fun _ _ _ => rfl) op h vm raw⟩
  rcases hop with hop | hop
  · exact hcall opExit (by rw [hop]; rfl)
  · exact hcall opHalt (by rw [hop]; rfl)

/-- A call that stops the machine. -/
lemma runInstruction_of_stops {h : Host} {moduleEnd : UInt32}
    (hstop : (runInstruction vmDecodeInstruction h vm mod moduleEnd).2.stops = true) :
    (runInstruction vmDecodeInstruction h vm mod moduleEnd).1.running = false ∧
      (runInstruction vmDecodeInstruction h vm mod moduleEnd).1.mem = vm.mem := by
  rcases vmRunInstruction_cases h vm mod moduleEnd with heq | heq | ⟨k, heq⟩ | ⟨k, raw, heq⟩
  · simp [heq, Outcome.stops] at hstop
  · simp [heq, Outcome.stops] at hstop
  · simp [heq, Outcome.stops] at hstop
  · rw [heq]
    rw [heq, dispatch_outcome] at hstop
    cases hop : opEx (opc (vmMr32 vm vm.pc)) with
    | none =>
      rw [dispatch, hop]
      exact ⟨rfl, rfl⟩
    | some op =>
      rw [hop, Option.isSome_some, if_pos rfl] at hstop
      exact dispatch_halt (by simpa [Outcome.stops] using hstop) h (vm.withCache k) raw

/-- The step that stops the machine. -/
lemma afterStop_of_stops {c : Config} {e : Env} {past : List Outcome} (hsafe : StopSafe (c, past) e)
    {o : Outcome} (ho : outcome vmDecodeInstruction c e = some o) (hstop : o.stops = true) :
    AfterStop (step vmDecodeInstruction c e) := by
  obtain ⟨vm, ctl⟩ := c
  cases ctl with
  | instr idx mod count startMs =>
    have hidle := hsafe o ho hstop
    simp only [outcome, Option.ite_none_right_eq_some, Option.some.injEq] at ho
    obtain ⟨hrun, rfl⟩ := ho
    obtain ⟨hstopped, hmem⟩ := runInstruction_of_stops hstop
    have hmods := modules_of_bookkeeping
      (runInstruction_bookkeeping e.host vm mod (moduleEnd mod))
    have hlater : ∀ m ∈ (runInstruction vmDecodeInstruction e.host vm mod
        (moduleEnd mod)).1.modules.drop (idx + 1),
        Idle (runInstruction vmDecodeInstruction e.host vm mod (moduleEnd mod)).1 m := by
      rw [hmods]
      exact fun m hm => (hidle m hm).congr hmem
    simp only [step, if_pos hrun]
    cases hout : (runInstruction vmDecodeInstruction e.host vm mod (moduleEnd mod)).2 with
    | executed pc instr raw => exact ⟨Or.inl hstopped, hlater⟩
    | _ => exact hlater
  | _ => cases ho

/-- A cycle goes on only if no stop is requested. -/
lemma cycleTop_goes_on {b : Bool} {vm : VmState} (hon : (cycleTop b vm).2 = false) :
    vm.stopRequested = false ∧ b = false := by
  cases b with
  | true => simp [cycleTop] at hon
  | false =>
    simp only [cycleTop, Bool.false_eq_true, if_false] at hon
    split_ifs at hon with hstop
    · exact ⟨by simpa using hstop, rfl⟩
    · exact ⟨by simpa using hstop, rfl⟩

/-- A step after a stop invokes no handler. -/
theorem AfterStop.next {c : Config} {e : Env} {past : List Outcome} (hc : AfterStop c)
    (hpast : ∃ o ∈ past, o.stops = true) (hsafe : StopSafe (c, past) e) :
    AfterStop (step vmDecodeInstruction c e) ∧
      (∀ o ∈ outcome vmDecodeInstruction c e, o.handled = none) ∧
      (step vmDecodeInstruction c e).vm.exitCode = c.vm.exitCode := by
  obtain ⟨vm, ctl⟩ := c
  cases ctl with
  | poll =>
    exact ⟨trivial, by simp [outcome],
      pollDirectory_keeps (f := VmState.exitCode) (fun _ _ _ => rfl) vm e.dir⟩
  | reload =>
    exact ⟨trivial, by simp [outcome],
      applyPendingReload_keeps (f := VmState.exitCode) (fun _ _ _ _ _ _ => rfl) vm e.dir⟩
  | top =>
    refine ⟨?_, by simp [outcome],
      cycleTop_keeps (f := VmState.exitCode) (fun _ _ _ _ => rfl) e.vmStopRequested vm⟩
    -- a stop that the cycle top sees ends the run, else every module has to be idle
    cases hon : (cycleTop e.vmStopRequested vm).2 with
    | true => simp [step, hon, AfterStop]
    | false =>
      obtain ⟨hrequested, henv⟩ := cycleTop_goes_on hon
      have hmem := cycleTop_keeps (f := VmState.mem) (fun _ _ _ _ => rfl) e.vmStopRequested vm
      have hmods :=
        cycleTop_keeps (f := VmState.modules) (fun _ _ _ _ => rfl) e.vmStopRequested vm
      simp only [step, hon, Bool.false_eq_true, if_false]
      intro m hm
      rw [List.drop_zero, hmods] at hm
      exact (hsafe hpast hrequested henv m hm).congr hmem
  | module idx startMs =>
    simp only [step, outcome]
    cases hmod : vm.modules[idx]? with
    | none => exact ⟨trivial, by simp, rfl⟩
    | some mod =>
      -- the module that is entered is idle, and so are the modules behind it
      have hidle : ∀ m ∈ vm.modules.drop idx, Idle vm m := hc
      obtain ⟨hlt, hget⟩ := List.getElem?_eq_some_iff.1 hmod
      rw [List.drop_eq_getElem_cons hlt, hget] at hidle
      refine ⟨⟨Or.inr ⟨rfl, (hidle mod List.mem_cons_self).congr rfl⟩, fun m hm => ?_⟩, by simp,
        rfl⟩
      exact (hidle m (List.mem_cons_of_mem _ hm)).congr rfl
  | instr idx mod count startMs =>
    obtain ⟨hcur, hlater⟩ : (vm.running = false ∨ vm.pc = mod.addr ∧ Idle vm mod) ∧
      ∀ m ∈ vm.modules.drop (idx + 1), Idle vm m := hc
    simp only [step, outcome]
    cases hrun : keepsRunning vm count with
    | false => exact ⟨hlater, by simp, rfl⟩
    | true =>
      -- `keepsRunning` rules out that the machine has stopped
      rcases hcur with hstopped | ⟨hpc, hidle⟩
      · simp [keepsRunning, hstopped] at hrun
      have hnone := hidle.not_handled hpc e.host
      obtain ⟨k, b, heq⟩ := runInstruction_of_not_handled hnone
      simp only [if_true, heq]
      refine ⟨?_, by simpa using hnone, rfl⟩
      have hafter : ∀ m ∈ vm.modules.drop (idx + 1),
          Idle { vm.withCache k with running := b } m := fun m hm => (hlater m hm).congr rfl
      cases hout : (runInstruction vmDecodeInstruction e.host vm mod (moduleEnd mod)).2 with
      | executed pc instr raw =>
        rw [hout] at hnone
        cases hnone
      | _ => exact hafter
  | tail startMs =>
    exact ⟨trivial, by simp [outcome],
      cycleTail_keeps (f := VmState.exitCode) (fun _ _ _ => rfl) startMs vm⟩
  | finished => exact ⟨trivial, by simp [outcome], rfl⟩

/-- A run after a stop invokes no handler. -/
theorem AfterStop.run {c : Config} {es : List Env} {past : List Outcome} (hc : AfterStop c)
    (hpast : ∃ o ∈ past, o.stops = true)
    (hsafe : Along (recording (step vmDecodeInstruction) (outcome vmDecodeInstruction)) StopSafe
      (c, past) es) :
    (∀ o ∈ trace (step vmDecodeInstruction) (outcome vmDecodeInstruction) c es,
        o.handled = none) ∧
      (LabelledRun.run (step vmDecodeInstruction) c es).vm.exitCode = c.vm.exitCode := by
  induction es generalizing c past with
  | nil => exact ⟨by simp, rfl⟩
  | cons e es ih =>
    obtain ⟨hnext, hnone, hexit⟩ := hc.next hpast hsafe.1
    obtain ⟨hrest, hexit'⟩ := ih hnext
      (hpast.imp fun o ho => ⟨List.mem_append_left _ ho.1, ho.2⟩) hsafe.2
    refine ⟨fun o ho => ?_, hexit'.trans hexit⟩
    rcases List.mem_append.1 ho with ho | ho
    · exact hnone o (Option.mem_toList.1 ho)
    · exact hrest o ho

/-- A run after which a stop has occurred is a run after a stop. -/
lemma afterStop_of_mem_trace {c : Config} {es : List Env} {past : List Outcome}
    (hsafe : Along (recording (step vmDecodeInstruction) (outcome vmDecodeInstruction)) StopSafe
      (c, past) es) (hc : (∃ o ∈ past, o.stops = true) → AfterStop c)
    (hstop : ∃ o ∈ past ++ trace (step vmDecodeInstruction) (outcome vmDecodeInstruction) c es,
      o.stops = true) :
    AfterStop (run (step vmDecodeInstruction) c es) := by
  have hinv := hsafe.invariant (I := fun x => (∃ o ∈ x.2, o.stops = true) → AfterStop x.1) hc ?_
  · rw [run_recording] at hinv
    exact hinv hstop
  rintro ⟨c, past⟩ e hc hsafe hpast
  by_cases hbefore : ∃ o ∈ past, o.stops = true
  · exact ((hc hbefore).next hbefore hsafe).1
  · obtain ⟨o, ho, hstop⟩ := hpast
    rcases List.mem_append.1 ho with ho | ho
    · exact absurd ⟨o, ho, hstop⟩ hbefore
    · exact afterStop_of_stops hsafe (Option.mem_toList.1 ho) hstop

/-- In a run that stops only where nothing is left to execute, a stop is final: no handler is
invoked after it, and the exit code stays what it is. -/
theorem stop_final {c : Config} {pre post : List Env}
    (hsafe : Along (recording (step vmDecodeInstruction) (outcome vmDecodeInstruction)) StopSafe
      (c, []) (pre ++ post))
    (hstop : ∃ o ∈ trace (step vmDecodeInstruction) (outcome vmDecodeInstruction) c pre,
      o.stops = true) :
    (∀ o ∈ trace (step vmDecodeInstruction) (outcome vmDecodeInstruction)
        (run (step vmDecodeInstruction) c pre) post, o.handled = none) ∧
      (run (step vmDecodeInstruction) c (pre ++ post)).vm.exitCode =
        (run (step vmDecodeInstruction) c pre).vm.exitCode := by
  obtain ⟨hpre, hpost⟩ := along_append.1 hsafe
  have hafter := afterStop_of_mem_trace hpre (by simp) (by simpa using hstop)
  rw [run_recording, List.nil_append] at hpost
  rw [run_append]
  exact hafter.run hstop hpost

/-- A machine into which two programs of one instruction each were loaded. -/
def twoModules (a b : UInt32) : VmState :=
  let file (w : UInt32) : File := .readable (uint32Bytes w) (by simp [uint32Bytes])
  (loadPrograms (vmTablesInit vmCreate) [⟨[97], file a⟩, ⟨[98], file b⟩]).1

/-- `NOP` in the first module, `EXIT #3` in the second one. -/
theorem stop_final_last_module :
    let c : Config := ⟨twoModules 0x86000000 0x82000103, .top⟩
    let pre := List.replicate 6 idleEnv
    let post := List.replicate 9 idleEnv
    (∀ o ∈ trace (step vmDecodeInstruction) (outcome vmDecodeInstruction)
        (run (step vmDecodeInstruction) c pre) post, o.handled = none) ∧
      (run (step vmDecodeInstruction) c (pre ++ post)).vm.exitCode =
        (run (step vmDecodeInstruction) c pre).vm.exitCode :=
  stop_final (by decide +kernel) (by decide +kernel)

/-- `EXIT #3` in the first module, `EXIT #4` in the second one: the second one is executed as well
and replaces the exit code. -/
theorem exit_not_final :
    let c : Config := ⟨twoModules 0x82000103 0x82000104, .top⟩
    let pre := List.replicate 3 idleEnv
    let post := List.replicate 3 idleEnv
    trace (step vmDecodeInstruction) (outcome vmDecodeInstruction) c pre =
        [.executed 0x3000 0x82000103 0x82000103] ∧
      trace (step vmDecodeInstruction) (outcome vmDecodeInstruction)
          (run (step vmDecodeInstruction) c pre) post =
        [.executed 0x3004 0x82000104 0x82000104] ∧
      (run (step vmDecodeInstruction) c pre).vm.exitCode = 3 ∧
      (run (step vmDecodeInstruction) c (pre ++ post)).vm.exitCode = 4 := by
  decide +kernel

end Vm32
