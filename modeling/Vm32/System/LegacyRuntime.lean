/-
# The runtime inside the embedding system

`vm_execute_single_cycle` of the copy of the virtual machine that `VM32Component` ticks, as a
machine that takes the same steps as the one of `run_program`.  Most of the copy is the code of
the standalone runtime, and is taken from there; what was changed on one side only is written
out here: the edge detectors share one array, a latch takes its number from a register, `EXIT`
chooses its code by a register, and the cycle keeps its books in another order.
-/
import Vm32.Vm.RunProgram

namespace Vm32

namespace Legacy

/-- `vm_state_t`.  The arrays of the standalone edge detectors are not used; there is one array
for all three. -/
structure VmState extends Vm32.VmState where
  edgePrevInput : ℕ → Bool

/-- A function of the standalone runtime on the state. -/
def VmState.map (f : Vm32.VmState → Vm32.VmState) (vm : VmState) : VmState :=
  { vm with toVmState := f vm.toVmState }

/-- `op_ex_f`. -/
abbrev OpEx := Host → VmState → UInt32 → VmState

/-! ### The handlers -/

/-- A handler of the standalone runtime. -/
def shared (op : Vm32.OpEx) : OpEx := fun h vm i => vm.map fun vm => op h vm i

/-- The common body of the edge detectors. -/
def opEdge (output : Bool → Bool → Bool) : OpEx := fun _ vm i =>
  let x := edgeId vm.toVmState i
  if idOutOfRange x.toInt32 then vm.map (setAVal · i 0)
  else
    let id := x.toNat
    let input := bv vm.toVmState i != 0
    let prev := vm.edgePrevInput id
    { vm.map (setAVal · i (if output input prev then 1 else 0)) with
      edgePrevInput := Function.update vm.edgePrevInput id input }

def opRisingEdge : OpEx := opEdge fun input prev => input && !prev
def opFallingEdge : OpEx := opEdge fun input prev => !input && prev
def opEdgeBoth : OpEx := opEdge fun input prev => input != prev

def opRsLatch : OpEx := shared fun _ vm i =>
  let x := edgeId vm i
  if idOutOfRange x.toInt32 then setAVal vm i 0
  else
    let id := x.toNat
    let s := vm.reg (rb i) != 0
    let r := vm.reg (rc i) != 0
    let q := if r then false else if s then true else vm.rsLatches id
    setAVal { vm with rsLatches := Function.update vm.rsLatches id q } i (if q then 1 else 0)

def opSrLatch : OpEx := shared fun _ vm i =>
  let x := edgeId vm i
  if idOutOfRange x.toInt32 then setAVal vm i 0
  else
    let id := x.toNat
    let s := vm.reg (rb i) != 0
    let r := vm.reg (rc i) != 0
    let q := if s then true else if r then false else vm.srLatches id
    setAVal { vm with srLatches := Function.update vm.srLatches id q } i (if q then 1 else 0)

/-- `op_exit`; the immediate is the exit code if register A holds zero, and else the number of
register A is. -/
def opExit : OpEx := shared fun _ vm i =>
  { vm with
    exitCode := if vm.reg (ra i) == 0 then (imm8 i).toNat else (ra i).toNat
    running := false
    stopRequested := true }

/-- `default_op_ex`. -/
def defaultOpEx : List OpEx :=
  (Vm32.defaultOpEx.take 56).map shared ++
    [opRisingEdge, opFallingEdge, opEdgeBoth, opRsLatch, opSrLatch, shared opDemux,
      shared opJmp, shared opJmpIf, shared opJmpIfNot, opExit, shared opHalt, shared opNop]

/-- `vm->op_ex`. -/
def opEx (opcode : UInt8) : Option OpEx := defaultOpEx[opcode.toNat]?

/-- The opcodes whose handlers were changed on one side: the edge detectors, the latches and
`EXIT`. -/
def changed : List ℕ := [56, 57, 58, 59, 60, 65]

/-- For all other opcodes the two runtimes have the same handler. -/
lemma opEx_of_not_changed {opcode : UInt8} (hopcode : opcode.toNat ∉ changed) :
    opEx opcode = (Vm32.opEx opcode).map shared := by
  rw [opEx, Vm32.opEx]
  generalize opcode.toNat = n at hopcode ⊢
  rcases Nat.lt_or_ge n 56 with hlt | hge
  · rw [defaultOpEx, List.getElem?_append_left (by simpa [Vm32.defaultOpEx] using hlt),
      List.getElem?_map, List.getElem?_take_of_lt hlt]
  rcases Nat.lt_or_ge n 68 with hlt | hend
  · interval_cases n
    all_goals first
      | rfl
      | exact absurd (by decide) hopcode
  · rw [List.getElem?_eq_none (by simpa [defaultOpEx, Vm32.defaultOpEx] using hend),
      List.getElem?_eq_none (by simpa [Vm32.defaultOpEx] using hend)]
    rfl

/-! ### One instruction -/

/-- The part of `vm_run_instruction` after the decoder returned `raw`. -/
def dispatch (h : Host) (vm : VmState) (instr raw : UInt32) : VmState × Outcome :=
  match opEx (opc instr) with
  | none => (vm.map fun vm => { vm with running := false }, .invalidOpcode vm.pc instr)
  | some op =>
    let finish := fun after : Vm32.VmState =>
      vmUpdateTimeAfterInstruction h
        (if after.pc == vm.pc then { after with pc := after.pc + 4 } else after)
    ((op h vm raw).map finish, .executed vm.pc instr raw)

/-- `vm_run_instruction`. -/
def vmRunInstruction (h : Host) (vm : VmState) (mod : ModuleInfo) (moduleEnd : UInt32) :
    VmState × Outcome :=
  if moduleEnd ≤ vm.pc ∨ vm.pc < mod.addr then (vm, .completed)
  else
    let instr := vmMr32 vm.toVmState vm.pc
    if instr == 0 then (vm, .endOfModule)
    else
      let decoded := vmDecodeInstruction vm.toVmState vm.pc
      let vm := vm.map fun _ => decoded.2
      match decoded.1 with
      | none => (vm.map fun vm => { vm with running := false }, .decodeFailed vm.pc instr)
      | some d => dispatch h vm instr d.rawInstr

/-- A word for which neither runtime has a handler, or both have the same. -/
lemma opEx_of_handled {h : Host} {vm : Vm32.VmState} {instr raw : UInt32}
    (hsame : ∀ q ∈ (Vm32.dispatch h vm instr raw).2.handled, (opc q.2).toNat ∉ changed) :
    opEx (opc instr) = (Vm32.opEx (opc instr)).map shared := by
  refine opEx_of_not_changed ?_
  cases hop : Vm32.opEx (opc instr) with
  | none =>
    have hend : 68 ≤ (opc instr).toNat := List.getElem?_eq_none_iff.1 hop
    simp only [changed, List.mem_cons, List.not_mem_nil, or_false, not_or]
    omega
  | some op =>
    rw [dispatch_of_handler hop] at hsame
    exact hsame (vm.pc, instr) rfl

lemma dispatch_eq {h : Host} {vm : Vm32.VmState} {instr raw : UInt32} (edges : ℕ → Bool)
    (hsame : ∀ q ∈ (Vm32.dispatch h vm instr raw).2.handled, (opc q.2).toNat ∉ changed) :
    dispatch h ⟨vm, edges⟩ instr raw =
      (⟨(Vm32.dispatch h vm instr raw).1, edges⟩, (Vm32.dispatch h vm instr raw).2) := by
  rw [dispatch, Vm32.dispatch, opEx_of_handled hsame]
  cases Vm32.opEx (opc instr) <;> rfl

/-- A call of `vm_run_instruction` that calls no changed handler is the call of the standalone
runtime. -/
lemma vmRunInstruction_eq {h : Host} {vm : Vm32.VmState} {mod : ModuleInfo} {moduleEnd : UInt32}
    (edges : ℕ → Bool)
    (hsame : ∀ q ∈ (Vm32.vmRunInstruction h vm mod moduleEnd).2.handled,
      (opc q.2).toNat ∉ changed) :
    vmRunInstruction h ⟨vm, edges⟩ mod moduleEnd =
      (⟨(Vm32.vmRunInstruction h vm mod moduleEnd).1, edges⟩,
        (Vm32.vmRunInstruction h vm mod moduleEnd).2) := by
  simp only [vmRunInstruction, Vm32.vmRunInstruction, runInstruction] at hsame ⊢
  split_ifs with hout hzero
  · rfl
  · rfl
  · simp only [if_neg hout, if_neg hzero] at hsame
    generalize vmDecodeInstruction vm vm.pc = decoded at hsame ⊢
    obtain ⟨_ | d, vm'⟩ := decoded
    · rfl
    · exact dispatch_eq edges hsame

/-! ### `vm_execute_single_cycle` -/

/-- Where `vm_execute_single_cycle` is. -/
inductive Ctl
  /-- At the first line. -/
  | entry
  /-- At the call of `apply_pending_reload`. -/
  | reload
  /-- At the second test of the stop flag. -/
  | top
  /-- At the head of the loop over the modules, with `mod_idx`. -/
  | module (idx : ℕ)
  /-- At the head of the loop of `vm_run_module`, with `instr_count`. -/
  | instr (idx : ℕ) (mod : ModuleInfo) (count : ℕ)
  /-- Behind the loop over the modules. -/
  | tail
  /-- Behind the `return`. -/
  | returned (rc : ℤ)
deriving DecidableEq

/-- The machine. -/
structure Config where
  vm : VmState
  ctl : Ctl

/-- The hash of the registers at the start of the first cycle is remembered. -/
def rememberStartHash (vm : Vm32.VmState) : Vm32.VmState :=
  let startHash := calculateRegistersHash vm.reg vm.config.hashAlgo
  if vm.config.enableHashCheck && vm.cycleCount == 1 then { vm with prevCycleHash := startHash }
  else vm

/-- The part of the cycle behind the modules; here `cycle_start_ms` is read. -/
def cycleTail (vm : Vm32.VmState) : Vm32.VmState :=
  let cycleStartMs := vm.timeMs
  let vm := updateAllTimers (finishCycleTime cycleStartMs vm)
  let endHash := calculateRegistersHash vm.reg vm.config.hashAlgo
  { vm with prevCycleHash := endHash }

/-- Where the loop of `vm_run_module` goes after a call of `vm_run_instruction`. -/
def afterInstruction (idx : ℕ) (mod : ModuleInfo) (count : ℕ) : Outcome → Ctl
  | .executed _ _ _ => .instr idx mod (count + 1)
  | _ => .module (idx + 1)

/-- One step of `vm_execute_single_cycle`. -/
def step (c : Config) (e : Env) : Config :=
  match c.ctl with
  | .entry =>
    if e.vmStopRequested || c.vm.stopRequested then ⟨c.vm, .returned 1⟩
    else
      ⟨c.vm.map fun vm => pollDirectory { vm with cycleCount := vm.cycleCount + 1 } e.dir, .reload⟩
  | .reload => ⟨c.vm.map (applyPendingReload · e.dir), .top⟩
  | .top =>
    if c.vm.stopRequested then ⟨c.vm, .returned 1⟩
    else ⟨c.vm.map rememberStartHash, .module 0⟩
  | .module idx =>
    match c.vm.modules[idx]? with
    | none => ⟨c.vm, .tail⟩
    | some mod => ⟨c.vm.map (enterModule · mod), .instr idx mod 0⟩
  | .instr idx mod count =>
    if keepsRunning c.vm.toVmState count then
      let result := vmRunInstruction e.host c.vm mod (moduleEnd mod)
      ⟨result.1, afterInstruction idx mod count result.2⟩
    else ⟨c.vm, .module (idx + 1)⟩
  | .tail => ⟨c.vm.map cycleTail, .returned 0⟩
  | .returned _ => c

end Legacy

end Vm32
