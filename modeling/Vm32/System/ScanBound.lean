/-
# How long a cycle can last

`MAX_INSTRUCTIONS` bounds the instructions that a module executes in a cycle, and a stop request
is looked at once in a cycle.  Whatever the program does (jump, loop, change its own code) and
whatever the environment does (replace the files, move the clock), the instructions of a run are
bounded by the modules of the cycles that were begun, the end of each cycle is reached, and a
requested stop ends `run_program` after a number of steps that only depends on the modules.
-/
import Vm32.Lib.Progress
import Vm32.System.SingleCycle
import Vm32.Vm.Stop

namespace Vm32

open LabelledRun

/-! ### The instructions of a run -/

/-- The number of instructions that the cycle can still execute. -/
def Config.allowance (c : Config) : ℕ :=
  match c.ctl with
  | .module idx _ => (c.vm.modules.length - idx) * maxInstructions
  | .instr idx _ count _ =>
    (c.vm.modules.length - (idx + 1)) * maxInstructions + (maxInstructions - count)
  | _ => 0

/-- The number of modules of the cycle that a step begins, if it begins one. -/
def begun (c : Config) (e : Env) : Option ℕ :=
  match c.ctl with
  | .top => if (cycleTop e.vmStopRequested c.vm).2 then none else some c.vm.modules.length
  | _ => none

/-- Inside a cycle each executed instruction is taken from the allowance. -/
lemma step_allowance_of_inCycle {c : Config} (hc : c.ctl.InCycle) (e : Env) :
    (handled c e).toList.length + (step vmDecodeInstruction c e).allowance ≤ c.allowance := by
  have hmodules := modules_of_step hc e
  obtain ⟨vm, ctl⟩ := c
  cases ctl with
  | module idx startMs =>
    simp only [step, handled, outcome] at hmodules ⊢
    cases hmod : vm.modules[idx]? with
    | none => simp [Config.allowance]
    | some mod =>
      have hlt : idx < vm.modules.length := (List.getElem?_eq_some_iff.1 hmod).1
      have hleft : vm.modules.length - idx = vm.modules.length - (idx + 1) + 1 := by omega
      simp [Config.allowance, enterModule, hleft, Nat.succ_mul]
  | instr idx mod count startMs =>
    by_cases hkeep : keepsRunning vm count = true
    · have hlt : count < maxInstructions := by
        rw [keepsRunning, Bool.and_eq_true, decide_eq_true_eq] at hkeep
        exact hkeep.2
      simp only [step, handled, outcome, hkeep, if_true] at hmodules ⊢
      cases (runInstruction vmDecodeInstruction e.host vm mod (moduleEnd mod)).2 <;>
        simp [afterInstruction, Config.allowance, hmodules, Outcome.handled]
      omega
    · simp [step, handled, outcome, hkeep, Config.allowance]
  | _ => cases hc

/-- The allowance of a cycle is granted at its top. -/
lemma step_allowance (c : Config) (e : Env) :
    (handled c e).toList.length + (step vmDecodeInstruction c e).allowance ≤
      c.allowance + ((begun c e).map (maxInstructions * ·)).getD 0 := by
  obtain ⟨vm, ctl⟩ := c
  cases ctl with
  | top =>
    have hmodules := cycleTop_keeps (f := VmState.modules) (fun _ _ _ _ => rfl) e.vmStopRequested vm
    simp only [step, handled, outcome, begun]
    split_ifs <;> simp [Config.allowance, hmodules, Nat.mul_comm]
  | module idx startMs =>
    exact (step_allowance_of_inCycle (c := ⟨vm, .module idx startMs⟩) trivial e).trans
      (Nat.le_add_right _ _)
  | instr idx mod count startMs =>
    exact (step_allowance_of_inCycle (c := ⟨vm, .instr idx mod count startMs⟩) trivial e).trans
      (Nat.le_add_right _ _)
  | _ => simp [step, handled, outcome, Config.allowance]

/-! ### The end of a cycle -/

/-- Behind its top a cycle gets to the next poll, whatever the program does. -/
lemma within_poll {c : Config} (hc : c.ctl.InCycle) {n : ℕ} (hn : c.rank ≤ n) :
    Within (step vmDecodeInstruction) (fun _ => True) (fun c => c.ctl = .poll) (n + 1) c := by
  have htail : Within (step vmDecodeInstruction) (fun _ => True) Config.AtTail n c := by
    refine within_of_rank (I := fun c => c.ctl.InCycle ∨ c.AtTail) Config.rank ?_ ?_
      (Or.inl hc) hn
    · rintro ⟨vm, ctl⟩ hI hzero
      refine hI.resolve_left fun hcycle => ?_
      cases ctl with
      | module idx startMs => simp [Config.rank] at hzero
      | instr idx mod count startMs => simp [Config.rank] at hzero
      | _ => exact hcycle
    · intro c e hI hnot _
      exact step_rank (hI.resolve_right hnot) e
  refine htail.trans fun c hc => Within.next fun e _ => Within.here ?_
  obtain ⟨after, startMs, rfl⟩ := hc
  rfl

lemma rank_of_begun {c : Config} {e : Env} {m : ℕ} (hm : m ∈ begun c e) :
    (step vmDecodeInstruction c e).ctl.InCycle ∧
      (step vmDecodeInstruction c e).rank = m * (maxInstructions + 2) + 1 := by
  obtain ⟨vm, ctl⟩ := c
  cases ctl with
  | top =>
    have hmodules := cycleTop_keeps (f := VmState.modules) (fun _ _ _ _ => rfl) e.vmStopRequested vm
    rw [begun, Option.mem_def, Option.ite_none_left_eq_some, Option.some.injEq] at hm
    obtain ⟨hon, rfl⟩ := hm
    simp only [step, if_neg hon, Config.rank, hmodules, Nat.sub_zero]
    exact ⟨trivial, trivial⟩
  | _ => simp [begun] at hm

/-- In every run of `run_program` the executed instructions are at most `MAX_INSTRUCTIONS` for
each module of each cycle that was begun, and every cycle that is begun gets to the next poll. -/
theorem scan_bounded (h : Host) (vm : VmState) (es : List Env) :
    (trace (step vmDecodeInstruction) handled (start h vm) es).length ≤
        maxInstructions * (trace (step vmDecodeInstruction) begun (start h vm) es).sum ∧
      ∀ e, ∀ m ∈ begun (runProgram h vm es) e,
        Within (step vmDecodeInstruction) (fun _ => True) (fun c => c.ctl = .poll)
          (m * (maxInstructions + 2) + 2) (step vmDecodeInstruction (runProgram h vm es) e) := by
  constructor
  · have halong : Along (step vmDecodeInstruction)
        (fun c e => (handled c e).toList.length + (step vmDecodeInstruction c e).allowance ≤
          c.allowance + ((begun c e).map (maxInstructions * ·)).getD 0) (start h vm) es :=
      along_of_invariant (I := fun _ => True) (L := fun _ => True) trivial
        (fun _ _ _ _ => trivial) (fun c e _ _ => step_allowance c e) fun _ _ => trivial
    have hpaid := trace_length_add_le Config.allowance
      (fun c e => (begun c e).map (maxInstructions * ·)) halong
    rw [trace_map, List.sum_map_mul_left] at hpaid
    simpa [start, Config.allowance] using (Nat.le_add_right _ _).trans hpaid
  · intro e m hm
    obtain ⟨hcycle, hrank⟩ := rank_of_begun hm
    exact within_poll hcycle hrank.le

/-- The endless loop `ADD R1, R1, #1; JMP R7`. -/
theorem scan_bounded_addLoop :
    Within (step vmDecodeInstruction) (fun _ => True) (fun c => c.ctl = .poll)
      (1 * (maxInstructions + 2) + 2)
      (step vmDecodeInstruction (runProgram idleHost addLoop [idleEnv, idleEnv]) idleEnv) :=
  (scan_bounded idleHost addLoop [idleEnv, idleEnv]).2 idleEnv 1 (by decide +kernel)

/-! ### A requested stop -/

/-- A request to stop is not withdrawn. -/
lemma stopRequested_of_step {c : Config} (hstop : c.vm.stopRequested = true) (e : Env) :
    (step vmDecodeInstruction c e).vm.stopRequested = true := by
  obtain ⟨vm, ctl⟩ := c
  replace hstop : vm.stopRequested = true := hstop
  cases ctl with
  | poll =>
    exact (pollDirectory_keeps (f := VmState.stopRequested) (fun _ _ _ => rfl) vm e.dir).trans hstop
  | reload =>
    exact (applyPendingReload_keeps (f := VmState.stopRequested) (fun _ _ _ _ _ _ => rfl) vm
      e.dir).trans hstop
  | top => cases hflag : e.vmStopRequested <;> simp [step, cycleTop, hflag, hstop]
  | module idx startMs =>
    simp only [step]
    cases vm.modules[idx]? <;> exact hstop
  | instr idx mod count startMs =>
    simp only [step]
    split_ifs
    · cases hout : (runInstruction vmDecodeInstruction e.host vm mod (moduleEnd mod)).2 with
      | executed pc instr raw =>
        obtain ⟨op, k, hop, heq⟩ := runInstruction_executed hout
        simp only [heq]
        rw [callHandler_keeps (f := VmState.stopRequested) (fun _ _ => rfl) (fun _ _ _ => rfl)]
        -- `HALT` and `EXIT` set the flag, and the other handlers leave it alone
        rcases opEx_cases hop with
          ⟨hblind, -⟩ | ⟨-, rfl⟩ | ⟨-, rfl⟩ | ⟨-, rfl⟩ | ⟨-, rfl⟩ | ⟨-, rfl⟩
        · have hframe := hblind.frame_eq e.host (vm.withCache k) raw
          exact (congrArg Frame.stopRequested hframe).trans hstop
        · exact hstop
        · rw [opJmpIf]
          split_ifs <;> exact hstop
        · rw [opJmpIfNot]
          split_ifs <;> exact hstop
        · rfl
        · rfl
      | _ =>
        have hnone : (runInstruction vmDecodeInstruction e.host vm mod
            (moduleEnd mod)).2.handled = none := by
          rw [hout]
          rfl
        obtain ⟨k, b, heq⟩ := runInstruction_of_not_handled hnone
        simp only [heq]
        exact hstop
    · exact hstop
  | tail startMs =>
    exact (cycleTail_keeps (f := VmState.stopRequested) (fun _ _ _ => rfl) startMs vm).trans hstop
  | finished => exact hstop

/-- The loop is left at the top of a cycle if a stop is requested. -/
lemma cycleTop_of_stop {b : Bool} {vm : VmState} (hstop : vm.stopRequested = true ∨ b = true) :
    (cycleTop b vm).2 = true := by
  by_contra hon
  obtain ⟨hvm, hflag⟩ := cycleTop_goes_on (Bool.not_eq_true _ ▸ hon)
  simp [hvm, hflag] at hstop

lemma begun_of_stop {c : Config} {e : Env}
    (hstop : c.vm.stopRequested = true ∨ e.vmStopRequested = true) : begun c e = none := by
  obtain ⟨vm, ctl⟩ := c
  cases ctl with
  | top => exact if_pos (cycleTop_of_stop hstop)
  | _ => rfl

/-- The number of steps after which a machine that is asked to stop has left its loop. -/
def Config.stepsToStop (c : Config) : ℕ :=
  match c.ctl with
  | .poll => 3
  | .reload => 2
  | .top => 1
  | .module _ _ | .instr _ _ _ _ => c.rank + 4
  | .tail _ => 4
  | .finished => 0

lemma step_stepsToStop {c : Config} {e : Env}
    (hstop : c.vm.stopRequested = true ∨ e.vmStopRequested = true) (hon : c.ctl ≠ .finished) :
    (step vmDecodeInstruction c e).stepsToStop < c.stepsToStop := by
  obtain ⟨vm, ctl⟩ := c
  have hcycle : ∀ c : Config, c.ctl.InCycle → c.stepsToStop = c.rank + 4 := by
    rintro ⟨vm, ctl⟩ hc
    cases ctl with
    | module idx startMs => rfl
    | instr idx mod count startMs => rfl
    | _ => cases hc
  have hin : ∀ c : Config, c.ctl.InCycle →
      (step vmDecodeInstruction c e).stepsToStop < c.stepsToStop := by
    intro c hc
    obtain ⟨hnext, hlt⟩ := step_rank hc e
    rw [hcycle c hc]
    rcases hnext with hnext | ⟨after, startMs, htail⟩
    · rw [hcycle _ hnext]
      omega
    · rw [htail] at hlt ⊢
      exact Nat.lt_add_of_pos_left (Nat.zero_lt_of_lt hlt)
  cases ctl with
  | top =>
    have hbreak : (cycleTop e.vmStopRequested vm).2 = true := cycleTop_of_stop hstop
    simp [step, hbreak, Config.stepsToStop]
  | module idx startMs => exact hin ⟨vm, .module idx startMs⟩ trivial
  | instr idx mod count startMs => exact hin ⟨vm, .instr idx mod count startMs⟩ trivial
  | finished => exact absurd rfl hon
  | _ => simp [step, Config.stepsToStop]

/-- Once a stop is requested, whether by the program or by the flag, `run_program` leaves its loop
after a number of steps that only depends on the modules, and executes at most what the cycle
still allows on the way. -/
theorem stop_obeyed {h : Host} {vm : VmState} {es es' : List Env}
    (hstop : (runProgram h vm es).vm.stopRequested = true ∨ ∀ e ∈ es', e.vmStopRequested = true)
    (hlen : (runProgram h vm es).stepsToStop ≤ es'.length) :
    (runProgram h vm (es ++ es')).ctl = .finished ∧
      (trace (step vmDecodeInstruction) handled (runProgram h vm es) es').length ≤
        (runProgram h vm es).allowance := by
  rw [runProgram, run_append, ← runProgram]
  generalize runProgram h vm es = c at hstop hlen
  -- either the state carries the request, or every label does
  let asked : Prop := c.vm.stopRequested = true
  have hkeep : ∀ s e, (asked → s.vm.stopRequested = true) → (¬asked → e.vmStopRequested = true) →
      (asked → (step vmDecodeInstruction s e).vm.stopRequested = true) :=
    fun s e hs _ hasked => stopRequested_of_step (hs hasked) e
  have hseen : ∀ (s : Config) (e : Env), (asked → s.vm.stopRequested = true) →
      (¬asked → e.vmStopRequested = true) →
      s.vm.stopRequested = true ∨ e.vmStopRequested = true := by
    intro s e hs he
    by_cases hasked : asked
    · exact Or.inl (hs hasked)
    · exact Or.inr (he hasked)
  have hlabels : ∀ e ∈ es', ¬asked → e.vmStopRequested = true :=
    fun e he hnot => (hstop.resolve_left hnot) e he
  constructor
  · have hwithin : Within (step vmDecodeInstruction) (fun e => ¬asked → e.vmStopRequested = true)
        (fun c => c.ctl = .finished) c.stepsToStop c := by
      refine within_of_rank (I := fun s => asked → s.vm.stopRequested = true)
        Config.stepsToStop ?_ ?_ id (le_refl _)
      · rintro ⟨vm, ctl⟩ - hzero
        cases ctl <;> simp_all [Config.stepsToStop]
      · intro s e hs hon he
        exact ⟨hkeep s e hs he, step_stepsToStop (hseen s e hs he) hon⟩
    refine hwithin.of_stable ?_ hlabels hlen
    rintro ⟨vm, ctl⟩ e rfl
    rfl
  · refine (Nat.le_add_right _ _).trans (trace_length_add_le_potential Config.allowance
      (along_of_invariant (I := fun s => asked → s.vm.stopRequested = true)
        (L := fun e => ¬asked → e.vmStopRequested = true) id hkeep (fun s e hs he => ?_) hlabels))
    have hpay := step_allowance s e
    rwa [begun_of_stop (hseen s e hs he)] at hpay

/-- The flag is set in the middle of an endless loop. -/
theorem stop_obeyed_addLoop :
    let c := runProgram idleHost addLoop (List.replicate 10 idleEnv)
    let es' := List.replicate c.stepsToStop ⟨idleHost, none, true⟩
    (runProgram idleHost addLoop (List.replicate 10 idleEnv ++ es')).ctl = .finished ∧
      (trace (step vmDecodeInstruction) handled c es').length ≤ c.allowance :=
  stop_obeyed (Or.inr fun e he => by rw [List.eq_of_mem_replicate he])
    (le_of_eq List.length_replicate.symm)

end Vm32
