/-
# What a cycle leaves alone

Between the reload of one cycle and the poll of the next one, no step touches the module table or
the fields by which the program directory is watched.
-/
import Vm32.Vm.RunProgram

namespace Vm32

/-- The module table and the fields that belong to the watching of the program directory. -/
structure Bookkeeping where
  pcStart : UInt32
  programDir : Option (List UInt8)
  programDirSignature : UInt32
  reloadPending : Bool
  modules : List ModuleInfo
deriving DecidableEq

/-- The bookkeeping of a state. -/
def VmState.bookkeeping (vm : VmState) : Bookkeeping :=
  ⟨vm.pcStart, vm.programDir, vm.programDirSignature, vm.reloadPending, vm.modules⟩

/-- The frame without the fields that an instruction can change. -/
def Frame.settled (f : Frame) : Frame :=
  { f with
    pc := 0, running := false, stopRequested := false, exitCode := 0, instrNsAccum := 0
    decodedCache := none }

/-- The machine is between the top of a cycle and its end. -/
def Ctl.InCycle : Ctl → Prop
  | .module _ _ => True
  | .instr _ _ _ _ => True
  | _ => False

/-- `cycle_start_ms`. -/
def Ctl.cycleStart : Ctl → Option UInt64
  | .module _ startMs => some startMs
  | .instr _ _ _ startMs => some startMs
  | .tail startMs => some startMs
  | _ => none

/-! ### Instructions -/

section Settled

variable {vm vm' : VmState}

lemma opEx_settled {opcode : UInt8} {op : OpEx} (hop : opEx opcode = some op) (h : Host)
    (vm : VmState) (i : UInt32) : (op h vm i).frame.settled = vm.frame.settled := by
  rcases opEx_cases hop with ⟨hblind, -⟩ | ⟨-, rfl⟩ | ⟨-, rfl⟩ | ⟨-, rfl⟩ | ⟨-, rfl⟩ | ⟨-, rfl⟩
  · rw [hblind.frame_eq h vm i]
  · rfl
  · rw [opJmpIf]
    split_ifs <;> rfl
  · rw [opJmpIfNot]
    split_ifs <;> rfl
  · rfl
  · rfl

/-- The value depends on nothing that a call of `vm_run_instruction` writes around the handler. -/
def OffCall {β : Type*} (f : VmState → β) : Prop :=
  ∀ (vm : VmState) pc running cache time accum,
    f { vm with
      pc := pc, running := running, decodedCache := cache, timeMs := time
      instrNsAccum := accum } = f vm

/-- A call of `vm_run_instruction` leaves alone what the handler leaves alone. -/
lemma runInstruction_keeps {β : Type*} {f : VmState → β} (hf : OffCall f) {h : Host}
    {vm : VmState} {mod : ModuleInfo} {moduleEnd : UInt32}
    (hop : ∀ pc instr raw op,
      (runInstruction vmDecodeInstruction h vm mod moduleEnd).2 = .executed pc instr raw →
        opEx (opc instr) = some op → ∀ vm, f (op h vm raw) = f vm) :
    f (runInstruction vmDecodeInstruction h vm mod moduleEnd).1 = f vm := by
  cases hout : (runInstruction vmDecodeInstruction h vm mod moduleEnd).2 with
  | executed pc instr raw =>
    obtain ⟨op, k, hopcode, heq⟩ := runInstruction_executed hout
    rw [heq, callHandler_keeps
      (fun vm pc => hf vm pc vm.running vm.decodedCache vm.timeMs vm.instrNsAccum)
      (fun vm time accum => hf vm vm.pc vm.running vm.decodedCache time accum),
      hop pc instr raw op hout hopcode]
    exact hf vm vm.pc vm.running k vm.timeMs vm.instrNsAccum
  | _ =>
    have hnone : (runInstruction vmDecodeInstruction h vm mod moduleEnd).2.handled = none := by
      rw [hout]
      rfl
    obtain ⟨k, b, heq⟩ := runInstruction_of_not_handled hnone
    rw [heq]
    exact hf vm vm.pc b k vm.timeMs vm.instrNsAccum

/-- A step that calls a handler does to such a value what the handler does to it. -/
lemma OffCall.step_executed {β : Type*} {f : VmState → β} (hf : OffCall f) {c : Config} {e : Env}
    {pc instr raw : UInt32} {op : OpEx}
    (hout : outcome vmDecodeInstruction c e = some (.executed pc instr raw))
    (hop : opEx (opc instr) = some op) :
    f (step vmDecodeInstruction c e).vm = f (op e.host c.vm raw) := by
  obtain ⟨vm, ctl⟩ := c
  cases ctl with
  | instr idx mod count startMs =>
    simp only [outcome, step] at hout ⊢
    split_ifs at hout ⊢
    obtain ⟨op', k, hop', heq⟩ := runInstruction_executed (Option.some.inj hout)
    obtain rfl := Option.some.inj (hop'.symm.trans hop)
    rw [heq, callHandler_keeps
      (fun vm pc => hf vm pc vm.running vm.decodedCache vm.timeMs vm.instrNsAccum)
      (fun vm time accum => hf vm vm.pc vm.running vm.decodedCache time accum),
      opEx_withCache hop]
    generalize op' e.host vm raw = after
    exact hf after after.pc after.running k after.timeMs after.instrNsAccum
  | _ => cases hout

lemma runInstruction_settled (h : Host) (vm : VmState) (mod : ModuleInfo) (moduleEnd : UInt32) :
    (runInstruction vmDecodeInstruction h vm mod moduleEnd).1.frame.settled =
      vm.frame.settled :=
  runInstruction_keeps (f := fun vm => vm.frame.settled) (fun _ _ _ _ _ _ => rfl)
    fun _ _ raw _ _ hop vm => opEx_settled hop h vm raw

/-- Inside a cycle only instructions change the state. -/
lemma step_settled {c : Config} (hc : c.ctl.InCycle) (e : Env) :
    (step vmDecodeInstruction c e).vm.frame.settled = c.vm.frame.settled := by
  obtain ⟨vm, ctl⟩ := c
  cases ctl with
  | module idx startMs =>
    simp only [step]
    cases vm.modules[idx]? <;> rfl
  | instr idx mod count startMs =>
    simp only [step]
    split_ifs
    · exact runInstruction_settled e.host vm mod (moduleEnd mod)
    · rfl
  | _ => cases hc

/-- Inside a cycle its start is remembered. -/
lemma step_cycleStart {c : Config} {e : Env} (hc : c.ctl.InCycle) :
    (step vmDecodeInstruction c e).ctl.cycleStart = c.ctl.cycleStart := by
  obtain ⟨vm, ctl⟩ := c
  cases ctl with
  | module idx startMs =>
    simp only [step]
    cases vm.modules[idx]? <;> rfl
  | instr idx mod count startMs =>
    simp only [step]
    split_ifs
    · simp only [afterInstruction]
      cases (runInstruction vmDecodeInstruction e.host vm mod (moduleEnd mod)).2 <;> rfl
    · rfl
  | _ => cases hc

end Settled

/-! ### Cycles -/

section Bookkeeping

variable {vm vm' : VmState}

/-- The bookkeeping is part of the settled frame. -/
lemma bookkeeping_of_settled (hsettled : vm'.frame.settled = vm.frame.settled) :
    vm'.bookkeeping = vm.bookkeeping := by
  have hof : ∀ v : VmState, v.bookkeeping =
      ⟨v.frame.settled.pcStart, v.frame.settled.programDir, v.frame.settled.programDirSignature,
        v.frame.settled.reloadPending, v.frame.settled.modules⟩ := fun _ => rfl
  rw [hof, hof, hsettled]

lemma modules_of_bookkeeping (h : vm'.bookkeeping = vm.bookkeeping) : vm'.modules = vm.modules :=
  congrArg Bookkeeping.modules h

lemma runInstruction_bookkeeping (h : Host) (vm : VmState) (mod : ModuleInfo)
    (moduleEnd : UInt32) :
    (runInstruction vmDecodeInstruction h vm mod moduleEnd).1.bookkeeping = vm.bookkeeping :=
  bookkeeping_of_settled (runInstruction_settled h vm mod moduleEnd)

/-- The top of a cycle may request the stop, counts the cycle and may remember the hash. -/
lemma cycleTop_keeps {β : Type*} {f : VmState → β}
    (hf : ∀ (vm : VmState) stop count hash,
      f { vm with stopRequested := stop, cycleCount := count, prevCycleHash := hash } = f vm)
    (b : Bool) (vm : VmState) : f (cycleTop b vm).1 = f vm := by
  cases b with
  | true => exact hf vm true (vm.cycleCount + 1) vm.prevCycleHash
  | false =>
    simp only [cycleTop, Bool.false_eq_true, if_false]
    split_ifs
    · exact hf vm vm.stopRequested _ vm.prevCycleHash
    · exact hf vm vm.stopRequested _ _
    · exact hf vm vm.stopRequested _ vm.prevCycleHash

/-- The end of a cycle changes the time, the timers and the remembered hash. -/
lemma cycleTail_keeps {β : Type*} {f : VmState → β}
    (hf : ∀ (vm : VmState) time hash,
      f { updateAllTimers { vm with timeMs := time } with prevCycleHash := hash } = f vm)
    (startMs : UInt64) (vm : VmState) : f (cycleTail startMs vm).1 = f vm := by
  simp only [cycleTail, finishCycleTime]
  split_ifs
  · exact hf vm _ _
  · exact hf vm vm.timeMs _

/-- Only the poll and the reload change the bookkeeping. -/
theorem step_bookkeeping {c : Config} (hpoll : c.ctl ≠ .poll) (hreload : c.ctl ≠ .reload)
    (e : Env) : (step vmDecodeInstruction c e).vm.bookkeeping = c.vm.bookkeeping := by
  obtain ⟨vm, ctl⟩ := c
  cases ctl with
  | poll => exact absurd rfl hpoll
  | reload => exact absurd rfl hreload
  | top => exact cycleTop_keeps (f := VmState.bookkeeping) (fun _ _ _ _ => rfl) e.vmStopRequested vm
  | module idx startMs =>
    exact bookkeeping_of_settled (step_settled (c := ⟨vm, .module idx startMs⟩) trivial e)
  | instr idx mod count startMs =>
    exact bookkeeping_of_settled (step_settled (c := ⟨vm, .instr idx mod count startMs⟩) trivial e)
  | tail startMs => exact cycleTail_keeps (f := VmState.bookkeeping) (fun _ _ _ => rfl) startMs vm
  | finished => rfl

end Bookkeeping

/-! ### What no step of the loop itself changes -/

/-- The value depends on nothing that `run_program` writes around the handlers. -/
structure OffLoop {β : Type*} (f : VmState → β) : Prop where
  poll : ∀ (vm : VmState) sig pending,
    f { vm with programDirSignature := sig, reloadPending := pending } = f vm
  reload : ∀ vm mem modules size hash pending,
    f ((VmState.withProgram vm mem modules size hash).setReloadPending pending) = f vm
  top : ∀ (vm : VmState) stop count hash,
    f { vm with stopRequested := stop, cycleCount := count, prevCycleHash := hash } = f vm
  call : OffCall f
  tail : ∀ (vm : VmState) time hash,
    f { updateAllTimers { vm with timeMs := time } with prevCycleHash := hash } = f vm

/-- A step leaves such a value alone, unless it calls a handler that does not. -/
theorem OffLoop.step {β : Type*} {f : VmState → β} (hf : OffLoop f) {c : Config} {e : Env}
    (hop : ∀ pc instr raw op, outcome vmDecodeInstruction c e = some (.executed pc instr raw) →
      opEx (opc instr) = some op → ∀ vm, f (op e.host vm raw) = f vm) :
    f (step vmDecodeInstruction c e).vm = f c.vm := by
  obtain ⟨vm, ctl⟩ := c
  cases ctl with
  | poll => exact pollDirectory_keeps hf.poll vm e.dir
  | reload => exact applyPendingReload_keeps hf.reload vm e.dir
  | top => exact cycleTop_keeps hf.top e.vmStopRequested vm
  | module idx startMs =>
    simp only [Vm32.step]
    cases vm.modules[idx]? with
    | none => rfl
    | some mod =>
      exact hf.call vm mod.addr true vm.decodedCache vm.timeMs vm.instrNsAccum
  | instr idx mod count startMs =>
    simp only [Vm32.step, outcome] at hop ⊢
    split_ifs at hop ⊢
    · exact runInstruction_keeps hf.call fun pc instr raw op hout =>
        hop pc instr raw op (congrArg some hout)
    · rfl
  | tail startMs => exact cycleTail_keeps hf.tail startMs vm
  | finished => rfl

end Vm32
