/-
# One call against one iteration

The machine of `vm_execute_single_cycle` is compared with the machine of `run_program` under the
same environment.  From the first line to the end of the last module the two take the same steps,
as long as no handler is called that was changed on one side.  Behind the modules they differ:
the standalone runtime lets the cycle end one cycle time after its start, the copy one cycle time
after its last instruction.
-/
import Vm32.System.LegacyRuntime
import Vm32.Vm.CacheCoherence
import Vm32.Vm.VirtualTime

namespace Vm32

open LabelledRun

/-- From the poll at `vm`, the labels lead through one iteration of the loop of `run_program` to
the next poll. -/
def Iteration (vm : VmState) : List Env → VmState → Prop
  | [], _ => False
  | e :: es, vm' =>
    Along (step vmDecodeInstruction) (fun c _ => c.ctl ≠ .poll)
        (step vmDecodeInstruction ⟨vm, .poll⟩ e) es ∧
      run (step vmDecodeInstruction) (step vmDecodeInstruction ⟨vm, .poll⟩ e) es = ⟨vm', .poll⟩

/-- The address and the word for which a step calls a handler. -/
def handled (c : Config) (e : Env) : Option (UInt32 × UInt32) :=
  (outcome vmDecodeInstruction c e).bind Outcome.handled

/-- The instructions that are executed from the poll at `vm` on. -/
def executed (vm : VmState) (es : List Env) : List (UInt32 × UInt32) :=
  trace (step vmDecodeInstruction) handled ⟨vm, .poll⟩ es

/-! ### The clock in a cycle -/

/-- Before the end of the cycle, each executed instruction advances the clock, and nothing else
does. -/
lemma step_advances {c : Config} (hticks : c.vm.config.enableTickTiming = false)
    (htail : ∀ startMs, c.ctl ≠ .tail startMs) (e : Env) :
    (step vmDecodeInstruction c e).vm.clock =
      Clock.advance^[(handled c e).toList.length] c.vm.clock := by
  obtain ⟨vm, ctl⟩ := c
  cases ctl with
  -- the steps that execute no instruction leave the clock alone
  | poll => exact pollDirectory_keeps (f := VmState.clock) (fun _ _ _ => rfl) vm e.dir
  | reload => exact applyPendingReload_keeps (f := VmState.clock) (fun _ _ _ _ _ _ => rfl) vm e.dir
  | top => exact cycleTop_keeps (f := VmState.clock) (fun _ _ _ _ => rfl) e.vmStopRequested vm
  | module idx startMs =>
    simp only [step]
    cases vm.modules[idx]? <;> rfl
  | instr idx mod count startMs =>
    simp only [step, handled, outcome]
    split_ifs
    · cases hout : (runInstruction vmDecodeInstruction e.host vm mod (moduleEnd mod)).2 with
      | executed pc instr raw =>
        -- the handler counts the instruction it handles
        obtain ⟨op, k, hop, heq⟩ := runInstruction_executed hout
        rw [heq]
        exact @callHandler_clock _ op hop (vm.withCache k) hticks e.host raw
      | _ =>
        -- no handler ran, so nothing is counted
        have hnone : (runInstruction vmDecodeInstruction e.host vm mod
            (moduleEnd mod)).2.handled = none := by
          rw [hout]
          rfl
        obtain ⟨k, b, heq⟩ := runInstruction_of_not_handled hnone
        rw [heq]
        rfl
    · rfl
  | tail startMs => exact absurd rfl (htail startMs)
  | finished => rfl

lemma run_advances {c : Config} {es : List Env} (hticks : c.vm.config.enableTickTiming = false)
    (hes : Along (step vmDecodeInstruction) (fun c _ => ∀ startMs, c.ctl ≠ .tail startMs) c es) :
    (run (step vmDecodeInstruction) c es).vm.clock =
      Clock.advance^[(trace (step vmDecodeInstruction) handled c es).length] c.vm.clock := by
  induction es generalizing c with
  | nil => rfl
  | cons e es ih =>
    have hstep := step_advances hticks hes.1 e
    have hticks' : (step vmDecodeInstruction c e).vm.config.enableTickTiming = false := by
      have hconfig := congrArg Clock.config hstep
      rw [Clock.iterate_advance_config] at hconfig
      exact (congrArg VmConfig.enableTickTiming hconfig).trans hticks
    rw [run_cons, ih hticks' hes.2, trace_cons, List.length_append, Nat.add_comm,
      Function.iterate_add_apply, hstep]

/-! ### Lockstep -/

/-- The state after `vm->cycle_count++`. -/
def VmState.counted (vm : VmState) : VmState := { vm with cycleCount := vm.cycleCount + 1 }

lemma pollDirectory_counted (vm : VmState) (d : Dir) :
    pollDirectory vm.counted d = (pollDirectory vm d).counted := by
  have hcache := pollDirectory_keeps (f := VmState.decodedCache) (fun _ _ _ => rfl) vm d
  have hcount := pollDirectory_keeps (f := VmState.cycleCount) (fun _ _ _ => rfl) vm d
  refine (pollDirectory_withCacheAndCount vm vm.decodedCache (vm.cycleCount + 1) d).trans ?_
  rw [← hcache, ← hcount]
  rfl

lemma applyPendingReload_counted (vm : VmState) (d : Dir) :
    applyPendingReload vm.counted d = (applyPendingReload vm d).counted := by
  have hcache := applyPendingReload_keeps (f := VmState.decodedCache) (fun _ _ _ _ _ _ => rfl) vm d
  have hcount := applyPendingReload_keeps (f := VmState.cycleCount) (fun _ _ _ _ _ _ => rfl) vm d
  refine (applyPendingReload_withCacheAndCount vm vm.decodedCache (vm.cycleCount + 1) d).trans ?_
  rw [← hcache, ← hcount]
  rfl

lemma cycleTop_of_noStop {vm : VmState} (hstop : vm.stopRequested = false) :
    cycleTop false vm = (Legacy.rememberStartHash vm.counted, false) := by
  simp only [cycleTop, hstop, Bool.false_eq_true, if_false, Legacy.rememberStartHash,
    VmState.counted]
  split_ifs <;> rfl

/-- Where the machine of `vm_execute_single_cycle` is while the standalone runtime is at `c`.  It
counts the cycle earlier. -/
def Config.toLegacy (edges : ℕ → Bool) (c : Config) : Legacy.Config :=
  match c.ctl with
  | .poll => ⟨⟨c.vm, edges⟩, .entry⟩
  | .reload => ⟨⟨c.vm.counted, edges⟩, .reload⟩
  | .top => ⟨⟨c.vm.counted, edges⟩, .top⟩
  | .module idx _ => ⟨⟨c.vm, edges⟩, .module idx⟩
  | .instr idx mod count _ => ⟨⟨c.vm, edges⟩, .instr idx mod count⟩
  | .tail _ => ⟨⟨c.vm, edges⟩, .tail⟩
  | .finished => ⟨⟨c.vm, edges⟩, .returned 1⟩

/-- The step comes before the end of the cycle, and no stop is seen. -/
structure Proceeds (c : Config) (e : Env) : Prop where
  notTail : ∀ startMs, c.ctl ≠ .tail startMs
  noStop : c.ctl = .poll ∨ c.ctl = .top → e.vmStopRequested = false ∧ c.vm.stopRequested = false

lemma proceeds_of_inCycle {c : Config} {e : Env} (hc : c.ctl.InCycle) : Proceeds c e := by
  constructor
  · intro startMs htail
    rw [htail] at hc
    exact hc
  · rintro (hpoll | htop)
    · rw [hpoll] at hc
      exact hc.elim
    · rw [htop] at hc
      exact hc.elim

/-- One step of both machines. -/
lemma step_toLegacy (edges : ℕ → Bool) {c : Config} {e : Env} (hc : Proceeds c e)
    (hsame : ∀ q ∈ handled c e, (opc q.2).toNat ∉ Legacy.changed) :
    Legacy.step (c.toLegacy edges) e = (step vmDecodeInstruction c e).toLegacy edges := by
  obtain ⟨vm, ctl⟩ := c
  cases ctl with
  | poll =>
    obtain ⟨hglobal, hstop⟩ := hc.noStop (Or.inl rfl)
    have hstop' : vm.stopRequested = false := hstop
    -- no stop was requested, so the legacy loop enters its cycle too
    have hentry : Legacy.step ⟨⟨vm, edges⟩, .entry⟩ e =
        ⟨⟨pollDirectory vm.counted e.dir, edges⟩, .reload⟩ := if_neg (by simp [hglobal, hstop'])
    simp only [Config.toLegacy, step, hentry, pollDirectory_counted]
  | reload =>
    simp only [Config.toLegacy, Legacy.step, step, Legacy.VmState.map, applyPendingReload_counted]
  | top =>
    obtain ⟨hglobal, hstop⟩ := hc.noStop (Or.inr rfl)
    have hstop' : vm.stopRequested = false := hstop
    have hcounted : vm.counted.stopRequested = false := hstop
    simp only [Config.toLegacy, Legacy.step, step, hglobal, hcounted, cycleTop_of_noStop hstop',
      Bool.false_eq_true, if_false, Legacy.VmState.map]
  | module idx startMs =>
    simp only [Config.toLegacy, Legacy.step, step]
    cases vm.modules[idx]? <;> rfl
  | instr idx mod count startMs =>
    by_cases hkeep : keepsRunning vm count = true
    · -- the two differ only in the opcodes that `hsame` excludes
      simp only [handled, outcome, hkeep, if_true] at hsame
      simp only [Config.toLegacy, Legacy.step, step, hkeep, if_true,
        Legacy.vmRunInstruction_eq edges hsame, vmRunInstruction]
      cases (runInstruction vmDecodeInstruction e.host vm mod (moduleEnd mod)).2 <;> rfl
    · simp only [Config.toLegacy, Legacy.step, step, hkeep, Bool.false_eq_true, if_false]
  | tail startMs => exact absurd rfl (hc.notTail startMs)
  | finished => rfl

/-! ### The end of the modules is reached -/

/-- A bound on the steps to the end of the modules. -/
def Config.rank (c : Config) : ℕ :=
  match c.ctl with
  | .module idx _ => (c.vm.modules.length - idx) * (maxInstructions + 2) + 1
  | .instr idx _ count _ =>
    (c.vm.modules.length - (idx + 1)) * (maxInstructions + 2) + (maxInstructions - count) + 2
  | _ => 0

/-- The machine is behind the modules. -/
def Config.AtTail (c : Config) : Prop := ∃ after startMs, c = ⟨after, .tail startMs⟩

lemma modules_of_step {c : Config} (hc : c.ctl.InCycle) (e : Env) :
    (step vmDecodeInstruction c e).vm.modules = c.vm.modules :=
  modules_of_bookkeeping (bookkeeping_of_settled (step_settled hc e))

lemma step_rank {c : Config} (hc : c.ctl.InCycle) (e : Env) :
    ((step vmDecodeInstruction c e).ctl.InCycle ∨ (step vmDecodeInstruction c e).AtTail) ∧
      (step vmDecodeInstruction c e).rank < c.rank := by
  have hmodules := modules_of_step hc e
  obtain ⟨vm, ctl⟩ := c
  cases ctl with
  | module idx startMs =>
    cases hmod : vm.modules[idx]? with
    | none =>
      -- behind the last module the cycle is at its tail
      have hstep : step vmDecodeInstruction ⟨vm, .module idx startMs⟩ e = ⟨vm, .tail startMs⟩ := by
        simp only [step, hmod]
      rw [hstep]
      exact ⟨Or.inr ⟨vm, startMs, rfl⟩, Nat.succ_pos _⟩
    | some mod =>
      -- a module starts: its budget outweighs what is left of the step
      have hstep : step vmDecodeInstruction ⟨vm, .module idx startMs⟩ e =
          ⟨enterModule vm mod, .instr idx mod 0 startMs⟩ := by
        simp only [step, hmod]
      have hlt : idx < vm.modules.length := (List.getElem?_eq_some_iff.1 hmod).1
      have hleft : vm.modules.length - idx = vm.modules.length - (idx + 1) + 1 := by omega
      rw [hstep]
      refine ⟨Or.inl trivial, ?_⟩
      simp only [Config.rank, enterModule, hleft, Nat.succ_mul]
      omega
  | instr idx mod count startMs =>
    by_cases hkeep : keepsRunning vm count = true
    · -- one instruction of the budget is used up
      have hlt : count < maxInstructions := by simp_all [keepsRunning]
      simp only [step, hkeep, if_true] at hmodules ⊢
      cases (runInstruction vmDecodeInstruction e.host vm mod (moduleEnd mod)).2 <;>
        simp only [afterInstruction, Config.rank, hmodules]
      all_goals exact ⟨Or.inl trivial, by omega⟩
    · simp only [step, hkeep, Bool.false_eq_true, if_false, Config.rank]
      exact ⟨Or.inl trivial, by omega⟩
  | _ => cases hc

/-- Under every environment the machine gets behind the modules. -/
lemma exists_run_tail {c : Config} (hc : c.ctl.InCycle) (es : Stream' Env) :
    ∃ n, (run (step vmDecodeInstruction) c (es.take n)).AtTail ∧
      Along (step vmDecodeInstruction) (fun c _ => c.ctl.InCycle) c (es.take n) := by
  obtain ⟨n, htail, halong⟩ := exists_run (I := fun c => c.ctl.InCycle ∨ c.AtTail)
    (P := Config.AtTail) (Or.inl hc)
    (fun c e hc htail => step_rank (hc.resolve_right htail) e) es
  exact ⟨n, htail, halong.imp fun c e h => h.1.resolve_right h.2⟩

/-- The three steps before the modules, when no stop is seen. -/
lemma steps_to_modules {vm : VmState} (hstop : vm.stopRequested = false) {e₀ : Env} (e₁ : Env)
    {e₂ : Env} (hquiet₀ : e₀.vmStopRequested = false) (hquiet₂ : e₂.vmStopRequested = false) :
    ∃ loaded, run (step vmDecodeInstruction) ⟨vm, .poll⟩ [e₀, e₁, e₂] =
        ⟨loaded, .module 0 vm.timeMs⟩ ∧
      Along (step vmDecodeInstruction) Proceeds ⟨vm, .poll⟩ [e₀, e₁, e₂] := by
  have hpoll := pollDirectory_keeps (f := fun vm => (vm.stopRequested, vm.timeMs))
    (fun _ _ _ => rfl) vm e₀.dir
  have hreload := applyPendingReload_keeps (f := fun vm => (vm.stopRequested, vm.timeMs))
    (fun _ _ _ _ _ _ => rfl) (pollDirectory vm e₀.dir) e₁.dir
  obtain ⟨hstop', htime⟩ := Prod.mk.inj (hreload.trans hpoll)
  refine ⟨Legacy.rememberStartHash (applyPendingReload (pollDirectory vm e₀.dir) e₁.dir).counted,
    ?_, ⟨by simp, fun _ => ⟨hquiet₀, hstop⟩⟩, ⟨by simp [step], by simp [step]⟩,
    ⟨by simp [step], fun _ => ⟨hquiet₂, hstop'.trans hstop⟩⟩, trivial⟩
  simp only [run_cons, run_nil, step, hquiet₂, cycleTop_of_noStop (hstop'.trans hstop),
    Bool.false_eq_true, if_false, htime]

/-- Without a stop, an iteration is completed; its last step starts behind the modules. -/
lemma exists_iteration {vm : VmState} (hstop : vm.stopRequested = false) (es : Stream' Env)
    (hquiet : ∀ k ≤ 2, (es.get k).vmStopRequested = false) :
    ∃ n after, run (step vmDecodeInstruction) ⟨vm, .poll⟩ (es.take n) = ⟨after, .tail vm.timeMs⟩ ∧
      Along (step vmDecodeInstruction) Proceeds ⟨vm, .poll⟩ (es.take n) ∧
      Iteration vm (es.take (n + 1)) (cycleTail vm.timeMs after).1 := by
  obtain ⟨loaded, hloaded, hproceeds⟩ := steps_to_modules hstop (es.get 1)
    (hquiet 0 (Nat.zero_le 2)) (hquiet 2 (le_refl 2))
  obtain ⟨n, ⟨after, startMs, htail⟩, hcycle⟩ :=
    exists_run_tail (c := ⟨loaded, .module 0 vm.timeMs⟩) trivial (es.drop 3)
  -- the cycle start that the loop remembers is the time at the poll
  have hstart := run_cycleStart hcycle
  rw [htail] at hstart
  obtain rfl : startMs = vm.timeMs := Option.some.inj hstart
  have hsplit : es.take (n + 3) = [es.get 0, es.get 1, es.get 2] ++ (es.drop 3).take n := by
    rw [Nat.add_comm, Stream'.take_add]
    rfl
  have hrun : run (step vmDecodeInstruction) ⟨vm, .poll⟩ (es.take (n + 3)) =
      ⟨after, .tail vm.timeMs⟩ := by
    rw [hsplit, run_append, hloaded, htail]
  refine ⟨n + 3, after, hrun, ?_, ?_⟩
  · rw [hsplit, along_append, hloaded]
    exact ⟨hproceeds, hcycle.imp fun c e => proceeds_of_inCycle⟩
  · rw [Stream'.take_succ', hsplit]
    -- one more step, the tail, ends the iteration at the next poll
    have hlast : run (step vmDecodeInstruction) ⟨loaded, .module 0 vm.timeMs⟩
        ((es.drop 3).take n ++ [es.get (n + 3)]) = ⟨(cycleTail vm.timeMs after).1, .poll⟩ := by
      rw [run_append, htail]
      rfl
    have hcycle' : Along (step vmDecodeInstruction) (fun c _ => c.ctl ≠ .poll)
        ⟨loaded, .module 0 vm.timeMs⟩ ((es.drop 3).take n ++ [es.get (n + 3)]) := by
      rw [along_append, htail]
      refine ⟨hcycle.imp fun c _ hc hpoll => ?_, by simp, trivial⟩
      rw [hpoll] at hc
      exact hc
    rw [← hloaded] at hlast hcycle'
    exact ⟨⟨by simp [step], by simp [step], hcycle'⟩, hlast⟩

/-- The last step of an iteration executes no instruction. -/
lemma executed_succ {vm after : VmState} {startMs : UInt64} {es : Stream' Env} {n : ℕ}
    (htail : run (step vmDecodeInstruction) ⟨vm, .poll⟩ (es.take n) = ⟨after, .tail startMs⟩) :
    executed vm (es.take (n + 1)) = executed vm (es.take n) := by
  rw [executed, Stream'.take_succ', trace_append, htail]
  exact List.append_nil _

/-! ### The end of the cycle -/

/-- The registers, the memory, the timers, the counters and the time are the same. -/
structure SameResults (vm vm' : VmState) : Prop where
  reg : vm.reg = vm'.reg
  mem : vm.mem = vm'.mem
  tonTimers : vm.tonTimers = vm'.tonTimers
  tofTimers : vm.tofTimers = vm'.tofTimers
  tpTimers : vm.tpTimers = vm'.tpTimers
  tonrTimers : vm.tonrTimers = vm'.tonrTimers
  tofrTimers : vm.tofrTimers = vm'.tofrTimers
  ctuCounters : vm.ctuCounters = vm'.ctuCounters
  ctdCounters : vm.ctdCounters = vm'.ctdCounters
  ctudCounters : vm.ctudCounters = vm'.ctudCounters
  ctuPrevInput : vm.ctuPrevInput = vm'.ctuPrevInput
  ctdPrevInput : vm.ctdPrevInput = vm'.ctdPrevInput
  ctudPrevUp : vm.ctudPrevUp = vm'.ctudPrevUp
  ctudPrevDown : vm.ctudPrevDown = vm'.ctudPrevDown
  timeMs : vm.timeMs = vm'.timeMs

lemma SameResults.refl (vm : VmState) : SameResults vm vm :=
  ⟨rfl, rfl, rfl, rfl, rfl, rfl, rfl, rfl, rfl, rfl, rfl, rfl, rfl, rfl, rfl⟩

/-- A cycle of `n` instructions that starts with the clock `k` ends at the same time whether the
cycle time is counted from its start or from its last instruction: the instructions do not reach
the next millisecond, or neither sum is later than the last instruction, as it is without a cycle
time or when the sums overflow. -/
def EndsTogether (k : Clock) (n : ℕ) : Prop :=
  let cycleTime := k.config.cycleTimeMs.toUInt64
  let now := (Clock.advance^[n] k).timeMs
  now = k.timeMs ∨ now + cycleTime ≤ now ∧ k.timeMs + cycleTime ≤ now

/-- The nanoseconds of `n` instructions. -/
lemma Clock.iterate_advance_totalNs {k : Clock} {n : ℕ} (hvirtual : k.Virtual)
    (hbelow : k.instrNsAccum.toNat < 10 ^ 6) (hfits : ∀ i < n, (Clock.advance^[i] k).Fits) :
    (Clock.advance^[n] k).totalNs = k.totalNs + n * k.instrNs ∧
      (Clock.advance^[n] k).instrNsAccum.toNat < 10 ^ 6 := by
  induction n with
  | zero => exact ⟨by simp, hbelow⟩
  | succ n ih =>
    obtain ⟨htotal, -⟩ := ih fun i hi => hfits i (Nat.lt_succ_of_lt hi)
    have hconfig := k.iterate_advance_config n
    have hvirtual' : (Clock.advance^[n] k).Virtual :=
      ⟨hconfig ▸ hvirtual.noTicks, hconfig ▸ hvirtual.rate⟩
    have hadds := Clock.addsInstruction_advance hvirtual' (hfits n (Nat.lt_succ_self n))
    have hns : (Clock.advance^[n] k).instrNs = k.instrNs := by
      rw [Clock.instrNs, hconfig, Clock.instrNs]
    rw [Function.iterate_succ_apply']
    exact ⟨by rw [hadds.totalNs, htotal, hns, Nat.succ_mul, Nat.add_assoc], hadds.below⟩

/-- Within 64 bits the ends coincide if there is no cycle time or the instructions take less than
what is left of the millisecond, and only then. -/
theorem endsTogether_iff_of_fits {k : Clock} {n : ℕ} (hvirtual : k.Virtual)
    (hbelow : k.instrNsAccum.toNat < 10 ^ 6) (hfits : ∀ i < n, (Clock.advance^[i] k).Fits)
    (hend : (Clock.advance^[n] k).timeMs.toNat + k.config.cycleTimeMs.toNat < 2 ^ 64) :
    EndsTogether k n ↔
      k.config.cycleTimeMs = 0 ∨ k.instrNsAccum.toNat + n * k.instrNs < 10 ^ 6 := by
  obtain ⟨htotal, hbelow'⟩ := Clock.iterate_advance_totalNs hvirtual hbelow hfits
  simp only [Clock.totalNs] at htotal
  have hcycle : k.config.cycleTimeMs = 0 ↔ k.config.cycleTimeMs.toNat = 0 := by
    rw [← UInt32.toNat_inj, UInt32.toNat_zero]
  rw [EndsTogether, hcycle]
  generalize n * k.instrNs = ns at htotal ⊢
  simp only [← UInt64.toNat_inj, UInt64.le_iff_toNat_le, UInt64.toNat_add, UInt32.toNat_toUInt64]
  omega

/-- The two ends of a cycle, for the time `start` at its start and `now` behind the modules. -/
lemma cycleEnd_eq_iff (start now : UInt64) (cycleTime : UInt32) :
    (if now < now + cycleTime.toUInt64 then now + cycleTime.toUInt64 else now) =
        (if now < start + cycleTime.toUInt64 then start + cycleTime.toUInt64 else now) ↔
      now = start ∨ now + cycleTime.toUInt64 ≤ now ∧ start + cycleTime.toUInt64 ≤ now := by
  have hcycle := cycleTime.toNat_lt
  have hnow := now.toNat_lt
  have hstart := start.toNat_lt
  simp only [← UInt64.toNat_inj, apply_ite UInt64.toNat, UInt64.lt_iff_toNat_lt,
    UInt64.le_iff_toNat_le, UInt64.toNat_add, UInt32.toNat_toUInt64]
  split_ifs <;> omega

/-- Behind the modules the two runtimes differ in the start of the cycle only. -/
lemma sameResults_cycleTail_iff {vm : VmState} (hticks : vm.config.enableTickTiming = false)
    (startMs : UInt64) :
    SameResults (Legacy.cycleTail vm) (cycleTail startMs vm).1 ↔
      vm.timeMs = startMs ∨
        vm.timeMs + vm.config.cycleTimeMs.toUInt64 ≤ vm.timeMs ∧
          startMs + vm.config.cycleTimeMs.toUInt64 ≤ vm.timeMs := by
  have hend : ∀ start, (finishCycleTime start vm).timeMs =
      if vm.timeMs < start + vm.config.cycleTimeMs.toUInt64 then
        start + vm.config.cycleTimeMs.toUInt64
      else vm.timeMs := by
    intro start
    simp only [finishCycleTime, hticks, Bool.not_false, Bool.true_and, decide_eq_true_eq,
      apply_ite VmState.timeMs]
  -- both tails end the cycle, one from the current time and one from `startMs`
  rw [← cycleEnd_eq_iff, ← hend, ← hend]
  constructor
  · intro h
    exact h.timeMs
  · intro h
    have hsame : finishCycleTime vm.timeMs vm = finishCycleTime startMs vm := by
      -- the end of a cycle changes nothing but the time
      have hset : ∀ start, finishCycleTime start vm =
          { vm with timeMs := (finishCycleTime start vm).timeMs } := by
        intro start
        simp only [finishCycleTime]
        split_ifs <;> rfl
      rw [hset, h, ← hset]
    have heq : Legacy.cycleTail vm = (cycleTail startMs vm).1 := by
      simp only [Legacy.cycleTail, cycleTail, hsame]
    rw [heq]
    exact SameResults.refl _

/-! ### The comparison -/

/-- One call of `vm_execute_single_cycle` gives what one iteration of the loop of `run_program`
gives, for a program that calls no changed handler, exactly if the two ends of the cycle
coincide. -/
theorem single_cycle_agrees_iff {vm : VmState} (hticks : vm.config.enableTickTiming = false)
    (hstop : vm.stopRequested = false) (edges : ℕ → Bool) (es : Stream' Env)
    (hquiet : ∀ k ≤ 2, (es.get k).vmStopRequested = false) :
    ∃ n vm', Iteration vm (es.take n) vm' ∧
      ((∀ q ∈ executed vm (es.take n), (opc q.2).toNat ∉ Legacy.changed) →
        ∃ legacy, run Legacy.step ⟨⟨vm, edges⟩, .entry⟩ (es.take n) = ⟨legacy, .returned 0⟩ ∧
          (SameResults legacy.toVmState vm' ↔
            EndsTogether vm.clock (executed vm (es.take n)).length)) := by
  obtain ⟨n, after, htail, hproceeds, hiteration⟩ := exists_iteration hstop es hquiet
  refine ⟨n + 1, _, hiteration, fun hsame => ⟨⟨Legacy.cycleTail after, edges⟩, ?_, ?_⟩⟩
  · rw [executed_succ htail, executed, forall_mem_trace] at hsame
    have hlockstep := (hproceeds.and hsame).run_map Legacy.step (Config.toLegacy edges)
      fun c e h => step_toLegacy edges h.1 h.2
    rw [htail] at hlockstep
    rw [Stream'.take_succ', run_append]
    exact congrArg (Legacy.step · (es.get n)) hlockstep
  · have hclock := run_advances (c := ⟨vm, .poll⟩) hticks (hproceeds.imp fun c e h => h.notTail)
    rw [htail] at hclock
    have hconfig : after.config = vm.config :=
      (congrArg Clock.config hclock).trans (Clock.iterate_advance_config _ _)
    have htime : after.timeMs =
        (Clock.advance^[(executed vm (es.take n)).length] vm.clock).timeMs :=
      congrArg Clock.timeMs hclock
    rw [sameResults_cycleTail_iff (hconfig ▸ hticks), executed_succ htail, EndsTogether, ← htime,
      hconfig]
    rfl

/-- A program of one `NOP`. -/
theorem single_cycle_agrees_iff_nop :
    ∃ n vm', Iteration oneNop ((Stream'.const idleEnv).take n) vm' ∧
      ((∀ q ∈ executed oneNop ((Stream'.const idleEnv).take n), (opc q.2).toNat ∉ Legacy.changed) →
        ∃ legacy, run Legacy.step ⟨⟨oneNop, fun _ => false⟩, .entry⟩
            ((Stream'.const idleEnv).take n) = ⟨legacy, .returned 0⟩ ∧
          (SameResults legacy.toVmState vm' ↔
            EndsTogether oneNop.clock
              (executed oneNop ((Stream'.const idleEnv).take n)).length)) :=
  single_cycle_agrees_iff rfl rfl (fun _ => false) (Stream'.const idleEnv) fun _ _ => rfl

/-- In the configuration that `vm_create` sets, an instruction takes ten milliseconds, and already
the program of one `NOP` ends its cycle at different times. -/
theorem single_cycle_overtakes :
    (oneNop.config.enableTickTiming = false ∧ oneNop.config.enableHashCheck = false ∧
      oneNop.stopRequested = false ∧ oneNop.reloadPending = false ∧
      0 < oneNop.config.clockRateHz) ∧
    ∃ vm' legacy, Iteration oneNop (List.replicate 8 idleEnv) vm' ∧
      executed oneNop (List.replicate 8 idleEnv) = [(0x3000, 0x86000000)] ∧
      run Legacy.step ⟨⟨oneNop, fun _ => false⟩, .entry⟩ (List.replicate 8 idleEnv) =
        ⟨legacy, .returned 0⟩ ∧
      vm'.timeMs = 1000 ∧ legacy.timeMs = 1010 ∧ ¬SameResults legacy.toVmState vm' := by
  have hpoll : ∀ c : Config, c.ctl = .poll → c = ⟨c.vm, .poll⟩ := by
    rintro ⟨vm, ctl⟩ rfl
    rfl
  have hreturned : ∀ c : Legacy.Config, c.ctl = .returned 0 → c = ⟨c.vm, .returned 0⟩ := by
    rintro ⟨vm, ctl⟩ rfl
    rfl
  have hend : (run (step vmDecodeInstruction) ⟨oneNop, .poll⟩
      (List.replicate 8 idleEnv)).vm.timeMs = 1000 := by decide +kernel
  have hend' : (run Legacy.step ⟨⟨oneNop, fun _ => false⟩, .entry⟩
      (List.replicate 8 idleEnv)).vm.timeMs = 1010 := by decide +kernel
  refine ⟨by decide, _, _, ⟨by decide +kernel, hpoll _ (by decide +kernel)⟩, by decide +kernel,
    hreturned _ (by decide +kernel), hend, hend', fun h => ?_⟩
  have htime := hend'.symm.trans (h.timeMs.trans hend)
  exact absurd htime (by decide)

end Vm32
