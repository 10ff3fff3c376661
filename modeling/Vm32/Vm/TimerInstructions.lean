/-
# Timer instructions in runs of the machine

`TON`, `TOF` and `TP` call the timers of the runtime, and the end of every cycle evaluates all of
them.  So in a run of `run_program` a timer is evaluated at the executions of the instructions
that name it and at the ends of the cycles, each time at the virtual time of that moment, and
nothing else in the machine touches it.  What such an instruction leaves in register A is then
what the norm says of these evaluations, if time is what `ms_diff` makes of two stamps.
-/
import Vm32.Vm.Bookkeeping
import Vm32.Vm.Handlers
import Vm32.Vm.TimerRuns

namespace Vm32

open LabelledRun

/-- A use of the timers by a step of the machine. -/
inductive TimerUse
  /-- An instruction, with the number of register A. -/
  | call (k : TimerKind) (a id : UInt8) (timeMs : UInt64) (input : Bool) (pt : UInt32)
  /-- The end of a cycle. -/
  | endOfCycle (timeMs : UInt64)
deriving DecidableEq

/-- The timers that an opcode calls. -/
def TimerKind.ofOpcode (opcode : UInt8) : Option TimerKind :=
  if opcode = 47 then some .ton else if opcode = 48 then some .tof
  else if opcode = 49 then some .tp else none

/-- The call of a timer by an instruction; without an immediate, or with one that is no timer, it
does nothing. -/
def instructionUse (vm : VmState) : Outcome → Option TimerUse
  | .executed _ instr raw =>
    let id := (imm8 raw).toUInt8
    if fimm raw = true ∧ id.toNat < maxTimers then
      (TimerKind.ofOpcode (opc instr)).map fun k =>
        .call k (ra raw) id vm.timeMs (vm.reg (rb raw) != 0) (vm.reg (rc raw))
    else none
  | _ => none

/-- The use of the timers by a step. -/
def timerUse (c : Config) (e : Env) : Option TimerUse :=
  match c.ctl with
  | .tail startMs => some (.endOfCycle (finishCycleTime startMs c.vm).timeMs)
  | _ => (outcome vmDecodeInstruction c e).bind (instructionUse c.vm)

/-- The calls of the runtime that a use consists of. -/
def TimerUse.calls : TimerUse → List IecCall
  | call k _ id timeMs input pt => [.time timeMs, .set k id input pt]
  | endOfCycle timeMs => [.time timeMs, .updateAll]

/-- The evaluations of a timer by the uses. -/
def timerEvaluations (k : TimerKind) (id : UInt8) (uses : List TimerUse) : List TimerCall :=
  evaluations k id 0 (uses.flatMap TimerUse.calls)

/-! ### One step -/

section Steps

variable {vm vm' : VmState} {k : TimerKind} {c : Config} {e : Env}

/-- Two states with the same timers. -/
def SameTimers (vm vm' : VmState) : Prop := ∀ k : TimerKind, k.timers vm = k.timers vm'

lemma internal_timers (k : TimerKind) : Internal k.timers := by
  cases k <;> exact ⟨fun _ _ => rfl, fun _ _ => rfl, fun _ _ _ _ _ => rfl⟩

/-- The handlers of all other opcodes leave the timers alone. -/
lemma keeps_timers {opcode : UInt8} {op : OpEx} (hop : opEx opcode = some op)
    (hopcode : TimerKind.ofOpcode opcode = none) (k : TimerKind) : Keeps k.timers op := by
  refine (internal_timers k).keeps hop ?_
  have hgroup : instanceGroup opcode.toNat ≠ .timers := by
    intro htimers
    have hmem : opcode.toNat ∈ [47, 48, 49] := by
      by_contra hnot
      simp only [instanceGroup, hnot, if_false] at htimers
      split_ifs at htimers
    have hcode : opcode = UInt8.ofNat opcode.toNat := UInt8.ofNat_toNat.symm
    simp only [List.mem_cons, List.not_mem_nil, or_false] at hmem
    rcases hmem with h | h | h <;> · rw [hcode, h] at hopcode; cases hopcode
  cases hcase : instanceGroup opcode.toNat with
  | timers => exact absurd hcase hgroup
  | nothing => trivial
  | _ =>
    show ∀ _, _
    intro vm
    cases k <;> intros <;> rfl

lemma offCall_timers (k : TimerKind) : OffCall k.timers := by
  cases k <;> exact fun _ _ _ _ _ _ => rfl

/-- The handler of an instruction that calls timers. -/
lemma op_of_ofOpcode {opcode : UInt8} {op : OpEx} (hop : opEx opcode = some op)
    (hk : TimerKind.ofOpcode opcode = some k) : op = fun _ => opTimer k.set k.q := by
  simp only [TimerKind.ofOpcode] at hk
  split_ifs at hk with h47 h48 h49
  · subst h47
    obtain rfl := Option.some.inj hk
    exact (Option.some.inj hop).symm
  · subst h48
    obtain rfl := Option.some.inj hk
    exact (Option.some.inj hop).symm
  · subst h49
    obtain rfl := Option.some.inj hk
    exact (Option.some.inj hop).symm

/-- Calls at a given time do the same to the same timers. -/
lemma SameTimers.calls (h : SameTimers vm vm') (u : TimerUse) :
    SameTimers (run IecCall.apply vm u.calls) (run IecCall.apply vm' u.calls) := by
  have htime : ∀ timeMs, SameTimers { vm with timeMs := timeMs } { vm' with timeMs := timeMs } := by
    intro timeMs k
    have hk := h k
    cases k <;> exact hk
  intro k'
  cases u with
  | call k a id timeMs input pt =>
    show k'.timers (k.set { vm with timeMs := timeMs } id input pt) =
      k'.timers (k.set { vm' with timeMs := timeMs } id input pt)
    rw [timers_set, timers_set, htime timeMs k, htime timeMs k']
  | endOfCycle timeMs =>
    show k'.timers (updateAllTimers { vm with timeMs := timeMs }) =
      k'.timers (updateAllTimers { vm' with timeMs := timeMs })
    rw [timers_updateAllTimers, timers_updateAllTimers, htime timeMs k']

/-- What an instruction does to the timers. -/
lemma timers_executed {h : Host} {op : OpEx} {pc instr raw : UInt32}
    (hop : opEx (opc instr) = some op) :
    SameTimers (op h vm raw)
      (run IecCall.apply vm
        ((instructionUse vm (.executed pc instr raw)).toList.flatMap TimerUse.calls)) := by
  intro k'
  simp only [instructionUse]
  cases hk : TimerKind.ofOpcode (opc instr) with
  | none =>
    have hnone : (if fimm raw = true ∧ (imm8 raw).toUInt8.toNat < maxTimers then
        (none : Option TimerUse) else none) = none := ite_self _
    simp only [Option.map_none, hnone]
    exact keeps_timers hop hk k' h vm raw
  | some k =>
    rw [op_of_ofOpcode hop hk]
    by_cases huse : fimm raw = true ∧ (imm8 raw).toUInt8.toNat < maxTimers
    · have hlt : ¬maxTimers ≤ (imm8 raw).toUInt8.toNat := not_le.2 huse.2
      have hset : k'.timers (opTimer k.set k.q vm raw) =
          k'.timers (k.set vm (imm8 raw).toUInt8 (vm.reg (rb raw) != 0) (vm.reg (rc raw))) := by
        simp only [opTimer, huse.1, Bool.not_true, Bool.false_eq_true, if_false, hlt]
        exact (internal_timers k').setAVal _ _ _
      rw [hset, if_pos huse]
      rfl
    · have hskip : opTimer k.set k.q vm raw = vm := by
        by_cases himm : fimm raw = true
        · have hid : maxTimers ≤ (imm8 raw).toUInt8.toNat := not_lt.1 fun hlt => huse ⟨himm, hlt⟩
          simp only [opTimer, hid, if_true, ite_self]
        · simp only [opTimer, himm, Bool.not_false, if_true]
      show k'.timers (opTimer k.set k.q vm raw) = _
      rw [hskip, if_neg huse]
      rfl

/-- A step evaluates the timers as its use tells, and does nothing else to them. -/
lemma timers_step (c : Config) (e : Env) :
    SameTimers (step vmDecodeInstruction c e).vm
      (run IecCall.apply c.vm ((timerUse c e).toList.flatMap TimerUse.calls)) := by
  obtain ⟨vm, ctl⟩ := c
  intro k
  cases ctl with
  | poll =>
    exact pollDirectory_keeps (f := k.timers) (by cases k <;> exact fun _ _ _ => rfl) vm e.dir
  | reload =>
    exact applyPendingReload_keeps (f := k.timers) (by cases k <;> exact fun _ _ _ _ _ _ => rfl)
      vm e.dir
  | top =>
    exact cycleTop_keeps (f := k.timers) (by cases k <;> exact fun _ _ _ _ => rfl)
      e.vmStopRequested vm
  | module idx startMs =>
    simp only [step]
    cases vm.modules[idx]? with
    | none => rfl
    | some mod => exact offCall_timers k vm mod.addr true vm.decodedCache vm.timeMs vm.instrNsAccum
  | instr idx mod count startMs =>
    by_cases hrun : keepsRunning vm count = true
    · cases hout : (runInstruction vmDecodeInstruction e.host vm mod (moduleEnd mod)).2 with
      | executed pc instr raw =>
        have houtcome : outcome vmDecodeInstruction ⟨vm, .instr idx mod count startMs⟩ e =
            some (.executed pc instr raw) := by
          simp only [outcome, hrun, if_true, hout]
        obtain ⟨op, -, hop, -⟩ := runInstruction_executed hout
        rw [(offCall_timers k).step_executed houtcome hop]
        simp only [timerUse, houtcome, Option.bind_some]
        exact timers_executed hop k
      | _ =>
        have hnone : timerUse ⟨vm, .instr idx mod count startMs⟩ e = none := by
          simp [timerUse, outcome, hrun, hout, instructionUse]
        rw [hnone]
        simp only [step, hrun, if_true]
        refine runInstruction_keeps (offCall_timers k) ?_
        intro pc instr raw op hexec
        rw [hout] at hexec
        cases hexec
    · have hnone : timerUse ⟨vm, .instr idx mod count startMs⟩ e = none := by
        simp [timerUse, outcome, hrun]
      rw [hnone]
      simp only [step, hrun]
      rfl
  | tail startMs =>
    show k.timers (cycleTail startMs vm).1 =
      k.timers (updateAllTimers { vm with timeMs := (finishCycleTime startMs vm).timeMs })
    have hfinish : finishCycleTime startMs vm =
        { vm with timeMs := (finishCycleTime startMs vm).timeMs } := by
      rw [finishCycleTime]
      split_ifs <;> rfl
    rw [← hfinish]
    cases k <;> rfl
  | finished => rfl

end Steps

/-! ### Runs -/

section Runs

variable {k : TimerKind} {id : UInt8}

/-- In every run the timers are as the uses by its steps leave them. -/
theorem timers_runProgram (c : Config) (es : List Env) :
    SameTimers (run (step vmDecodeInstruction) c es).vm
      (run IecCall.apply c.vm
        ((trace (step vmDecodeInstruction) timerUse c es).flatMap TimerUse.calls)) := by
  have hcalls : ∀ (uses : List TimerUse) {vm vm' : VmState}, SameTimers vm vm' →
      SameTimers (run IecCall.apply vm (uses.flatMap TimerUse.calls))
        (run IecCall.apply vm' (uses.flatMap TimerUse.calls)) := by
    intro uses
    induction uses with
    | nil => exact fun h => h
    | cons u uses ih =>
      intro vm vm' h
      rw [List.flatMap_cons, run_append, run_append]
      exact ih (h.calls u)
  induction es generalizing c with
  | nil => exact fun _ => rfl
  | cons e es ih =>
    intro k
    rw [run_cons, ih, trace_cons, List.flatMap_append, run_append]
    exact hcalls _ (timers_step c e) k

/-- The time before the first use does not matter. -/
lemma evaluations_eq (timeMs : UInt64) (uses : List TimerUse) :
    evaluations k id timeMs (uses.flatMap TimerUse.calls) = timerEvaluations k id uses := by
  cases uses with
  | nil => rfl
  | cons u uses => cases u <;> rfl

/-- In every run a timer is evaluated by the uses of its steps, and changed by nothing else. -/
lemma timers_eq_calls {c : Config} (hid : id.toNat < maxTimers)
    (hcleared : k.timers c.vm id.toNat = .cleared) (es : List Env) :
    k.timers (run (step vmDecodeInstruction) c es).vm id.toNat =
      k.calls .cleared
        (timerEvaluations k id (trace (step vmDecodeInstruction) timerUse c es)) := by
  rw [timers_runProgram c es k, timers_run hid hcleared, evaluations_eq]

/-- An instruction evaluates its timer. -/
lemma timerEvaluations_concat (uses : List TimerUse) (a : UInt8) (timeMs : UInt64) (input : Bool)
    (pt : UInt32) :
    timerEvaluations k id (uses ++ [.call k a id timeMs input pt]) =
      timerEvaluations k id uses ++ [⟨timeMs, input, pt⟩] := by
  rw [timerEvaluations, evaluations, List.flatMap_append, trace_append]
  simp [TimerUse.calls, TimerView.next, TimerView.evaluation, timerEvaluations, evaluations]

/-- An instruction that calls a timer leaves its output in register A. -/
lemma reg_of_timerUse {c : Config} {e : Env} {a : UInt8} {timeMs : UInt64} {input : Bool}
    {pt : UInt32} (huse : timerUse c e = some (.call k a id timeMs input pt)) :
    id.toNat < maxTimers ∧ (step vmDecodeInstruction c e).vm.reg a =
      if (k.timers (step vmDecodeInstruction c e).vm id.toNat).output then 1 else 0 := by
  obtain ⟨vm, ctl⟩ := c
  cases ctl with
  | instr idx mod count startMs =>
    obtain ⟨o, hout, hinstr⟩ := Option.bind_eq_some_iff.1 huse
    cases o with
    | executed pc instr raw =>
      rw [instructionUse, Option.ite_none_right_eq_some] at hinstr
      obtain ⟨⟨himm, hid⟩, hmap⟩ := hinstr
      obtain ⟨k', hk, hcall⟩ := Option.map_eq_some_iff.1 hmap
      obtain ⟨rfl, rfl, rfl, -⟩ := TimerUse.call.inj hcall
      refine ⟨hid, ?_⟩
      have hexec := hout
      simp only [outcome, Option.ite_none_right_eq_some, Option.some.injEq] at hexec
      obtain ⟨op, -, hop, -⟩ := runInstruction_executed hexec.2
      have hoff : OffCall VmState.reg := fun _ _ _ _ _ _ => rfl
      rw [hoff.step_executed hout hop, (offCall_timers k').step_executed hout hop,
        op_of_ofOpcode hop hk]
      simp only [opTimer, himm, Bool.not_true, Bool.false_eq_true, if_false, not_le.2 hid]
      have hok : idOk (imm8 raw).toUInt8 = true := decide_eq_true hid
      rw [(internal_timers k').setAVal, q_eq, timerQ, if_pos hok]
      exact Function.update_self _ _ _
    | _ => cases hinstr
  | tail startMs => cases huse
  | _ => cases huse

end Runs

/-! ### What the instructions leave in register A -/

/-- The timers that delay their input. -/
inductive DelayTimer
  /-- `TON`. -/
  | on
  /-- `TOF`. -/
  | off
deriving DecidableEq, Repr

/-- The timers of the runtime. -/
def DelayTimer.kind : DelayTimer → TimerKind
  | on => .ton
  | off => .tof

/-- What the norm says of the output behind some evaluations: an on-delay is on if its input is on
and the preset has elapsed since it went on; an off-delay is on if its input is on, or was on and
no preset has elapsed since it went off.  The time that has elapsed is what `ms_diff` says. -/
def DelayTimer.IsOn : DelayTimer → List TimerCall → Prop
  | on, es => lastInput es = true ∧ ∃ r ∈ (onStretch es).head?, ∃ e ∈ onStretch es, r.Reaches e
  | off, es => lastInput es = true ∨ (∃ e ∈ es, e.input = true) ∧
      ∀ f ∈ (offStretch es).head?, ∀ e ∈ offStretch es, ¬f.Reaches e

section Delays

variable {es : List TimerCall}

lemma output_calls (d : DelayTimer) (hpts : ∀ e ∈ es, 1 ≤ e.pt) :
    (d.kind.calls .cleared es).output = true ↔ d.IsOn es := by
  cases d with
  | on =>
    have hton := ton_calls es hpts
    show (TimerKind.ton.calls .cleared es).output = true ↔ _
    rw [DelayTimer.IsOn]
    cases hstretch : onStretch es with
    | nil =>
      rw [hstretch] at hton
      simp [hton.2.1]
    | cons r rest =>
      have hon : lastInput es = true := lastInput_of_onStretch (by simp [hstretch])
      rw [hstretch] at hton
      rw [hton.2.1, hon]
      simp
  | off =>
    have htof := tof_calls es hpts
    show (TimerKind.tof.calls .cleared es).output = true ↔ _
    rw [DelayTimer.IsOn]
    cases hstretch : offStretch es with
    | nil =>
      rw [hstretch] at htof
      rw [htof.2.1]
      simpa using exists_of_lastInput
    | cons f rest =>
      have hoff : lastInput es = false := lastInput_of_offStretch (by simp [hstretch])
      rw [hstretch] at htof
      rw [htof.2.1, hoff]
      simp

/-- A machine with the program `TON R1, R2, #0`, a preset of 10 ms in `R0` and the input on. -/
def oneTon : VmState :=
  let vm := vmTablesInit vmCreate
  { vm with
    reg := Function.update (Function.update vm.reg 0 10) 2 1
    modules := [⟨[97], 0x3000, 4⟩]
    mem := overlay vm.mem 0x3000 (uint32Bytes 0x5E020500) }

end Delays

end Vm32
