/-
# The state of the virtual machine

`vm_state_t` of `main.h`, its memory, and the fields of an instruction word.  Memory is a
function on all addresses: the addresses from `vmMemBytes` on stand for the bytes behind the
buffer, so that an access out of bounds is visible as one.  What the program reads from the
machine it runs on (the C mathematics library, the local time, the monotonic clock) is a
`Host`, supplied anew to every instruction.
-/
import Vm32.Vm.DecodeCache
import Vm32.Vm.Timers

namespace Vm32

/-- `vm_config_t`. -/
structure VmConfig where
  clockRateHz : UInt32
  cycleTimeMs : UInt32
  enableCycleCheck : Bool
  enableHashCheck : Bool
  enableTickTiming : Bool
  hashAlgo : HashAlgorithm

/-- `module_info_t`. -/
structure ModuleInfo where
  name : List UInt8
  addr : UInt32
  size : UInt32
deriving DecidableEq, Repr

/-- `CT_Counter`. -/
structure CTCounter where
  value : UInt32
  preset : UInt32
deriving DecidableEq, Repr

/-- `MAX_TIMERS`. -/
def maxTimers : ℕ := 16

/-- `vm_state_t`, without the log file, the performance counters and the debugger's copies. -/
structure VmState where
  config : VmConfig
  mem : ℕ → UInt8
  pcStart : UInt32
  pc : UInt32
  reg : UInt8 → UInt32
  running : Bool
  stopRequested : Bool
  exitCode : ℤ
  reloadPending : Bool
  programDir : Option (List UInt8)
  programDirSignature : UInt32
  timeMs : UInt64
  instrNsAccum : UInt64
  programHash : UInt32
  programSize : UInt64
  prevCycleHash : UInt32
  cycleCount : UInt32
  modules : List ModuleInfo
  decodedCache : Option DecodeCache
  tonTimers : ℕ → IECTimer
  tofTimers : ℕ → IECTimer
  tpTimers : ℕ → IECTimer
  tonrTimers : ℕ → IECTimer
  tofrTimers : ℕ → IECTimer
  ctuCounters : ℕ → CTCounter
  ctdCounters : ℕ → CTCounter
  ctudCounters : ℕ → CTCounter
  ctuPrevInput : ℕ → Bool
  ctdPrevInput : ℕ → Bool
  ctudPrevUp : ℕ → Bool
  ctudPrevDown : ℕ → Bool
  edgePrevRising : ℕ → Bool
  edgePrevFalling : ℕ → Bool
  edgePrevBoth : ℕ → Bool
  rsLatches : ℕ → Bool
  srLatches : ℕ → Bool

/-- `struct tm`, as far as it is read. -/
structure Tm where
  tmSec : Int32
  tmMin : Int32
  tmHour : Int32
  tmMday : Int32
  tmMon : Int32
  tmYear : Int32
deriving DecidableEq, Repr

/-- What one instruction can ask of the machine it runs on.  The functions of `math.h` are
taken between the conversions to and from `double`. -/
structure Host where
  pow : UInt32 → UInt32 → UInt32
  sqrt : UInt32 → UInt32
  log : UInt32 → UInt32
  log10 : UInt32 → UInt32
  exp : UInt32 → UInt32
  sin : UInt32 → UInt32
  cos : UInt32 → UInt32
  tan : UInt32 → UInt32
  asin : UInt32 → UInt32
  acos : UInt32 → UInt32
  atan : UInt32 → UInt32
  currentTm : Tm
  monotonic : Timespec

/-! ### Memory access -/

/-- `vm_mr8`. -/
def vmMr8 (vm : VmState) (addr : UInt32) : UInt8 := vm.mem addr.toNat

/-- `vm_mw8`. -/
def vmMw8 (vm : VmState) (addr : UInt32) (v : UInt8) : VmState :=
  { vm with mem := Function.update vm.mem addr.toNat v }

/-- The little-endian word whose bytes are at the addresses `addr`, …, `addr + 3`. -/
def vmMr32 (vm : VmState) (addr : UInt32) : UInt32 :=
  (vmMr8 vm addr).toUInt32 ||| ((vmMr8 vm (addr + 1)).toUInt32 <<< 8) |||
    ((vmMr8 vm (addr + 2)).toUInt32 <<< 16) ||| ((vmMr8 vm (addr + 3)).toUInt32 <<< 24)

/-- `vm_mw32`. -/
def vmMw32 (vm : VmState) (addr val : UInt32) : VmState :=
  vmMw8 (vmMw8 (vmMw8 (vmMw8 vm addr val.toUInt8) (addr + 1) (val >>> 8).toUInt8)
    (addr + 2) (val >>> 16).toUInt8) (addr + 3) (val >>> 24).toUInt8

/-- `memmove` inside memory.  It also models `memcpy`, which the C standard describes for
disjoint ranges only. -/
def memmove (vm : VmState) (dest src n : ℕ) : VmState :=
  { vm with mem := fun a => if dest ≤ a ∧ a < dest + n then vm.mem (src + (a - dest)) else vm.mem a }

/-! ### Instruction words

The format is `[ opcode:7 ][ A:8 ][ B:8 ][ IMM:1 ][ C:8 ]`. -/

/-- `OPC`. -/
def opc (i : UInt32) : UInt8 := ((i >>> 25) &&& 0x7F).toUInt8

/-- `RA`. -/
def ra (i : UInt32) : UInt8 := ((i >>> 17) &&& 0xFF).toUInt8

/-- `RB`. -/
def rb (i : UInt32) : UInt8 := ((i >>> 9) &&& 0xFF).toUInt8

/-- `RC`. -/
def rc (i : UInt32) : UInt8 := (i &&& 0xFF).toUInt8

/-- `FIMM`. -/
def fimm (i : UInt32) : Bool := (i >>> 8) &&& 1 == 1

/-- `IMM8`. -/
def imm8 (i : UInt32) : UInt32 := i &&& 0xFF

/-- `sext`. -/
def sext (n b : UInt32) : UInt32 :=
  if (n >>> (b - 1)) &&& 1 == 1 then n ||| (0xFFFFFFFF <<< b) else n

/-- `SEXTIMM8`. -/
def sextimm8 (i : UInt32) : UInt32 := sext (imm8 i) 8

/-- `Bv`. -/
def bv (vm : VmState) (i : UInt32) : UInt32 := vm.reg (rb i)

/-- `Cv`. -/
def cv (vm : VmState) (i : UInt32) : UInt32 := vm.reg (rc i)

/-- `Cv_or_imm`. -/
def cvOrImm (vm : VmState) (i : UInt32) : UInt32 := if fimm i then sextimm8 i else cv vm i

/-- `SetA_val`. -/
def setAVal (vm : VmState) (i v : UInt32) : VmState :=
  { vm with reg := Function.update vm.reg (ra i) v }

/-! ### The timer arrays -/

/-- `timers_init`. -/
def timersInit (vm : VmState) : VmState :=
  { vm with
    tonTimers := fun _ => .cleared
    tofTimers := fun _ => .cleared
    tpTimers := fun _ => .cleared
    tonrTimers := fun _ => .cleared
    tofrTimers := fun _ => .cleared }

/-- One array after the loop of `update_all_timers`. -/
def updateEach (update : IECTimer → IECTimer) (timers : ℕ → IECTimer) (i : ℕ) : IECTimer :=
  if i < maxTimers then update (timers i) else timers i

/-- `update_all_timers`. -/
def updateAllTimers (vm : VmState) : VmState :=
  { vm with
    tonTimers := updateEach (updateTon vm.timeMs) vm.tonTimers
    tofTimers := updateEach (updateTof vm.timeMs) vm.tofTimers
    tpTimers := updateEach (updateTp vm.timeMs) vm.tpTimers
    tonrTimers := updateEach (updateTonr vm.timeMs) vm.tonrTimers
    tofrTimers := updateEach (updateTofr vm.timeMs) vm.tofrTimers }

/-- `id_ok`. -/
def idOk (id : UInt8) : Bool := id.toNat < maxTimers

/-- The assignments that every `*_set` makes before it evaluates the timer. -/
def IECTimer.set (t : IECTimer) (input : Bool) (pt : UInt32) : IECTimer :=
  { t with input := input, presetMs := pt, enabled := true }

/-- The common body of `ton_set`, …, `tofr_set` on one array. -/
def setTimer (update : IECTimer → IECTimer) (timers : ℕ → IECTimer) (id : UInt8) (input : Bool)
    (pt : UInt32) : ℕ → IECTimer :=
  if idOk id then Function.update timers id.toNat (update ((timers id.toNat).set input pt))
  else timers

/-- The common body of `ton_Q`, …, `tofr_Q`. -/
def timerQ (timers : ℕ → IECTimer) (id : UInt8) : Bool :=
  if idOk id then (timers id.toNat).output else false

/-- `ton_set`. -/
def tonSet (vm : VmState) (id : UInt8) (input : Bool) (pt : UInt32) : VmState :=
  { vm with tonTimers := setTimer (updateTon vm.timeMs) vm.tonTimers id input pt }

/-- `ton_Q`. -/
def tonQ (vm : VmState) (id : UInt8) : Bool := timerQ vm.tonTimers id

/-- `tof_set`. -/
def tofSet (vm : VmState) (id : UInt8) (input : Bool) (pt : UInt32) : VmState :=
  { vm with tofTimers := setTimer (updateTof vm.timeMs) vm.tofTimers id input pt }

/-- `tof_Q`. -/
def tofQ (vm : VmState) (id : UInt8) : Bool := timerQ vm.tofTimers id

/-- `tp_set`. -/
def tpSet (vm : VmState) (id : UInt8) (input : Bool) (pt : UInt32) : VmState :=
  { vm with tpTimers := setTimer (updateTp vm.timeMs) vm.tpTimers id input pt }

/-- `tp_Q`. -/
def tpQ (vm : VmState) (id : UInt8) : Bool := timerQ vm.tpTimers id

/-- `tonr_set`. -/
def tonrSet (vm : VmState) (id : UInt8) (input : Bool) (pt : UInt32) : VmState :=
  { vm with tonrTimers := setTimer (updateTonr vm.timeMs) vm.tonrTimers id input pt }

/-- `tonr_Q`. -/
def tonrQ (vm : VmState) (id : UInt8) : Bool := timerQ vm.tonrTimers id

/-- `tofr_set`. -/
def tofrSet (vm : VmState) (id : UInt8) (input : Bool) (pt : UInt32) : VmState :=
  { vm with tofrTimers := setTimer (updateTofr vm.timeMs) vm.tofrTimers id input pt }

/-- `tofr_Q`. -/
def tofrQ (vm : VmState) (id : UInt8) : Bool := timerQ vm.tofrTimers id

end Vm32
