/-
# The cycle loop

`run_program` and `vm_run_module` of `vm_runtime.c`, as a machine that takes one step for each
phase of a cycle and for each instruction.  The label of a step is what the environment shows
to it: the answers of the host, the program directory as it is at that moment, and the global
stop flag.  A run is therefore a list of labels, and nothing is assumed about how the
environment changes between two steps.
-/
import Vm32.Lib.Runs
import Vm32.Vm.HotReload

namespace Vm32

open LabelledRun

/-- What the environment shows to one step. -/
structure Env where
  host : Host
  dir : Dir
  vmStopRequested : Bool

/-- A host on which the clock stands still and the functions of `math.h` are the identity. -/
def idleHost : Host where
  pow := fun x _ => x
  sqrt := id
  log := id
  log10 := id
  exp := id
  sin := id
  cos := id
  tan := id
  asin := id
  acos := id
  atan := id
  currentTm := ⟨0, 0, 0, 1, 0, 70⟩
  monotonic := ⟨0, 0⟩

/-- An environment in which nothing happens. -/
def idleEnv : Env := ⟨idleHost, none, false⟩

/-- Where `run_program` is. -/
inductive Ctl
  /-- At the call of `directory_changed`. -/
  | poll
  /-- At the call of `apply_pending_reload`. -/
  | reload
  /-- At the test of the stop flag. -/
  | top
  /-- At the head of the loop over the modules, with `mod_idx` and `cycle_start_ms`. -/
  | module (idx : ℕ) (startMs : UInt64)
  /-- At the head of the loop of `vm_run_module`, with `instr_count`. -/
  | instr (idx : ℕ) (mod : ModuleInfo) (count : ℕ) (startMs : UInt64)
  /-- Behind the loop over the modules. -/
  | tail (startMs : UInt64)
  /-- Behind the `break`. -/
  | finished
deriving DecidableEq

/-- The machine. -/
structure Config where
  vm : VmState
  ctl : Ctl

/-- `MAX_INSTRUCTIONS`. -/
def maxInstructions : ℕ := 100000

/-- `module_end`. -/
def moduleEnd (mod : ModuleInfo) : UInt32 := mod.addr + mod.size

/-- `calculate_registers_hash_ex` on the register file. -/
def calculateRegistersHash (reg : UInt8 → UInt32) (algo : HashAlgorithm) : UInt32 :=
  hashBuffer ((List.range 256).flatMap fun i => uint32Bytes (reg (UInt8.ofNat i))) algo

/-- The part of the cycle from the test of `vm_stop_requested` to the modules; the flag is
`true` for the `break`. -/
def cycleTop (vmStopRequested : Bool) (vm : VmState) : VmState × Bool :=
  let vm := if vmStopRequested then { vm with stopRequested := true } else vm
  let vm := { vm with cycleCount := vm.cycleCount + 1 }
  if vm.stopRequested then (vm, true)
  else
    let startHash := calculateRegistersHash vm.reg vm.config.hashAlgo
    if vm.config.enableHashCheck && vm.cycleCount == 1 then
      ({ vm with prevCycleHash := startHash }, false)
    else (vm, false)

/-- The lines at the head of `vm_run_module`. -/
def enterModule (vm : VmState) (mod : ModuleInfo) : VmState :=
  { vm with running := true, pc := mod.addr }

/-- The two mismatches that the end of a cycle can report. -/
structure IntegrityReport where
  hashMismatch : Bool
  programMismatch : Bool
deriving DecidableEq, Repr

/-- Without tick timing, virtual time advances to the end of the cycle. -/
def finishCycleTime (startMs : UInt64) (vm : VmState) : VmState :=
  let expectedEnd := startMs + vm.config.cycleTimeMs.toUInt64
  if !vm.config.enableTickTiming && vm.timeMs < expectedEnd then { vm with timeMs := expectedEnd }
  else vm

/-- The part of the cycle behind the modules. -/
def cycleTail (startMs : UInt64) (vm : VmState) : VmState × IntegrityReport :=
  let vm := updateAllTimers (finishCycleTime startMs vm)
  let endHash := calculateRegistersHash vm.reg vm.config.hashAlgo
  let curProgHash := calculateMemoryHash vm.mem vm.pcStart vm.programSize
  ({ vm with prevCycleHash := endHash },
    { hashMismatch :=
        vm.config.enableHashCheck && 1 < vm.cycleCount && endHash != vm.prevCycleHash
      programMismatch := vm.config.enableHashCheck && curProgHash != vm.programHash })

/-- The head of `vm_run_module`'s loop holds. -/
def keepsRunning (vm : VmState) (count : ℕ) : Bool := vm.running && count < maxInstructions

/-- Where the loop of `vm_run_module` goes after a call of `vm_run_instruction`. -/
def afterInstruction (idx : ℕ) (mod : ModuleInfo) (count : ℕ) (startMs : UInt64) :
    Outcome → Ctl
  | .executed _ _ _ => .instr idx mod (count + 1) startMs
  | _ => .module (idx + 1) startMs

/-- One step of `run_program`, for a given decoder. -/
def step (decode : Decoder) (c : Config) (e : Env) : Config :=
  match c.ctl with
  | .poll => ⟨pollDirectory c.vm e.dir, .reload⟩
  | .reload => ⟨applyPendingReload c.vm e.dir, .top⟩
  | .top =>
    ⟨(cycleTop e.vmStopRequested c.vm).1,
      if (cycleTop e.vmStopRequested c.vm).2 then .finished else .module 0 c.vm.timeMs⟩
  | .module idx startMs =>
    match c.vm.modules[idx]? with
    | none => ⟨c.vm, .tail startMs⟩
    | some mod => ⟨enterModule c.vm mod, .instr idx mod 0 startMs⟩
  | .instr idx mod count startMs =>
    if keepsRunning c.vm count then
      let result := runInstruction decode e.host c.vm mod (moduleEnd mod)
      ⟨result.1, afterInstruction idx mod count startMs result.2⟩
    else ⟨c.vm, .module (idx + 1) startMs⟩
  | .tail startMs => ⟨(cycleTail startMs c.vm).1, .poll⟩
  | .finished => c

/-- How the call of `vm_run_instruction` of a step ends, if the step makes one. -/
def outcome (decode : Decoder) (c : Config) (e : Env) : Option Outcome :=
  match c.ctl with
  | .instr _ mod count _ =>
    if keepsRunning c.vm count then
      some (runInstruction decode e.host c.vm mod (moduleEnd mod)).2
    else none
  | _ => none

/-- The lines of `run_program` before the loop. -/
def start (h : Host) (vm : VmState) : Config where
  vm :=
    { vm with
      timeMs := h.monotonic.tvSec.toUInt64 * 1000 + h.monotonic.tvNsec.toUInt64 / 1000000
      config := { vm.config with hashAlgo := .crc32 } }
  ctl := .poll

/-- `run_program`. -/
def runProgram (h : Host) (vm : VmState) (es : List Env) : Config :=
  run (step vmDecodeInstruction) (start h vm) es

end Vm32
