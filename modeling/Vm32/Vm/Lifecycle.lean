/-
# Creating and resetting a machine

`vm_lifecycle.c` without the allocation of the buffers, and `vm_tables_init` of `vm_tables.c`.
-/
import Vm32.Vm.State

namespace Vm32

/-- The zeroed state that `vm_create` gets from `calloc`. -/
def vmCalloc : VmState where
  config := ⟨0, 0, false, false, false, .simpleFnv1a⟩
  mem := fun _ => 0
  pcStart := 0
  pc := 0
  reg := fun _ => 0
  running := false
  stopRequested := false
  exitCode := 0
  reloadPending := false
  programDir := none
  programDirSignature := 0
  timeMs := 0
  instrNsAccum := 0
  programHash := 0
  programSize := 0
  prevCycleHash := 0
  cycleCount := 0
  modules := []
  decodedCache := none
  tonTimers := fun _ => .cleared
  tofTimers := fun _ => .cleared
  tpTimers := fun _ => .cleared
  tonrTimers := fun _ => .cleared
  tofrTimers := fun _ => .cleared
  ctuCounters := fun _ => ⟨0, 0⟩
  ctdCounters := fun _ => ⟨0, 0⟩
  ctudCounters := fun _ => ⟨0, 0⟩
  ctuPrevInput := fun _ => false
  ctdPrevInput := fun _ => false
  ctudPrevUp := fun _ => false
  ctudPrevDown := fun _ => false
  edgePrevRising := fun _ => false
  edgePrevFalling := fun _ => false
  edgePrevBoth := fun _ => false
  rsLatches := fun _ => false
  srLatches := fun _ => false

/-- `vm_state_init_registers`. -/
def vmStateInitRegisters (vm : VmState) : VmState := { vm with reg := fun _ => 0 }

/-- What `vm_state_clear_iec_state` resets of a `TON`, `TOF` or `TP` timer. -/
def IECTimer.clear (t : IECTimer) : IECTimer :=
  { t with
    enabled := false, input := false, output := false, prevInput := false, timing := false
    presetMs := 0, ET := 0 }

/-- What `vm_state_clear_iec_state` resets of a `TONR` or `TOFR` timer. -/
def IECTimer.disable (t : IECTimer) : IECTimer := { t with enabled := false }

/-- `vm_state_clear_iec_state`. -/
def vmStateClearIecState (vm : VmState) : VmState :=
  { vm with
    edgePrevRising := fun _ => false
    edgePrevFalling := fun _ => false
    edgePrevBoth := fun _ => false
    rsLatches := fun _ => false
    srLatches := fun _ => false
    tonTimers := fun t => (vm.tonTimers t).clear
    tofTimers := fun t => (vm.tofTimers t).clear
    tpTimers := fun t => (vm.tpTimers t).clear
    tonrTimers := fun t => (vm.tonrTimers t).disable
    tofrTimers := fun t => (vm.tofrTimers t).disable
    ctuCounters := fun _ => ⟨0, 0⟩
    ctdCounters := fun _ => ⟨0, 0⟩
    ctudCounters := fun _ => ⟨0, 0⟩
    ctuPrevInput := fun _ => false
    ctdPrevInput := fun _ => false
    ctudPrevUp := fun _ => false
    ctudPrevDown := fun _ => false }

/-- `DEFAULT_PC_START`. -/
def defaultPcStart : UInt32 := 0x3000

/-- `vm_state_init_common`. -/
def vmStateInitCommon (vm : VmState) : VmState :=
  vmStateClearIecState <| vmStateInitRegisters
    { vm with
      pcStart := defaultPcStart
      pc := 0
      running := true
      timeMs := 0
      instrNsAccum := 0
      programHash := 0
      programSize := 0
      cycleCount := 0
      prevCycleHash := 0
      exitCode := 0
      stopRequested := false
      reloadPending := false
      config :=
        { clockRateHz := 100
          cycleTimeMs := 1000
          enableCycleCheck := true
          enableHashCheck := false
          enableTickTiming := false
          hashAlgo := .crc32 } }

/-- `vm_state_reset_runtime`. -/
def vmStateResetRuntime (vm : VmState) : VmState :=
  vmStateClearIecState <| vmStateInitRegisters
    { vm with
      running := true
      exitCode := 0
      stopRequested := false
      reloadPending := false
      cycleCount := 0
      prevCycleHash := 0
      instrNsAccum := 0
      timeMs := 0
      pc := vm.pcStart }

/-- `vm_create`. -/
def vmCreate : VmState := vmStateInitCommon vmCalloc

/-- `vm_reset`. -/
def vmReset (vm : VmState) : VmState := vmStateResetRuntime vm

/-- `vm_tables_init`, as far as the decode cache is concerned. -/
def vmTablesInit (vm : VmState) : VmState := { vm with decodedCache := some .empty }

end Vm32
