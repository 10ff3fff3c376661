/-
# The opcode handlers of `funcs.c`

One definition for each of the 68 handlers, in the order of the table `default_op_ex`.
Intermediate lengths have type `size_t` in the C code and are natural numbers here; 32-bit
sums that can wrap around are sums of `UInt32`.
-/
import Vm32.Vm.State

namespace Vm32

/-- `op_ex_f`. -/
abbrev OpEx := Host → VmState → UInt32 → VmState

/-! ### Strings in memory -/

/-- `safe_mem_remaining`. -/
def safeMemRemaining (addr : UInt32) : ℕ :=
  if vmMemBytes ≤ addr.toNat then 0 else vmMemBytes - addr.toNat

/-- The loop of `safe_strlen_at`, with `rem` bytes to go. -/
def strlenLoop (mem : ℕ → UInt8) : ℕ → ℕ → ℕ
  | _, 0 => 0
  | a, rem + 1 => if mem a = 0 then 0 else strlenLoop mem (a + 1) rem + 1

/-- `safe_strlen_at`. -/
def safeStrlenAt (vm : VmState) (addr : UInt32) : ℕ :=
  strlenLoop vm.mem addr.toNat (safeMemRemaining addr)

/-- `safe_memmove`. -/
def safeMemmove (vm : VmState) (destAddr srcAddr : UInt32) (n : ℕ) : VmState :=
  memmove vm destAddr.toNat srcAddr.toNat
    (min n (min (safeMemRemaining destAddr) (safeMemRemaining srcAddr)))

/-- The guarded store of a terminator. -/
def setNullAt (vm : VmState) (a : ℕ) : VmState :=
  if a < vmMemBytes then { vm with mem := Function.update vm.mem a 0 } else vm

/-! ### Date and time -/

/-- `TOD_t`. -/
structure TOD where
  hours : Int32
  minutes : Int32
  seconds : Int32

/-- `DATE_t`. -/
structure DATE where
  year : Int32
  month : Int32
  day : Int32

/-- `DT_t`. -/
structure DT where
  date : DATE
  time : TOD

/-- `tm_to_tod`. -/
def tmToTod (t : Tm) : TOD := ⟨t.tmHour, t.tmMin, t.tmSec⟩

/-- `tm_to_date`. -/
def tmToDate (t : Tm) : DATE := ⟨t.tmYear + 1900, t.tmMon + 1, t.tmMday⟩

/-- `tm_to_dt`. -/
def tmToDt (t : Tm) : DT := ⟨tmToDate t, tmToTod t⟩

/-- `tod_to_seconds`. -/
def todToSeconds (t : TOD) : Int32 := t.hours * 3600 + t.minutes * 60 + t.seconds

/-! ### Arithmetic -/

/-- Handlers that set register A to a function of register B and operand C. -/
def opBinary (f : UInt32 → UInt32 → UInt32) (vm : VmState) (i : UInt32) : VmState :=
  setAVal vm i (f (bv vm i) (cvOrImm vm i))

/-- Handlers that set register A to a function of register B. -/
def opUnary (f : UInt32 → UInt32) (vm : VmState) (i : UInt32) : VmState :=
  setAVal vm i (f (bv vm i))

def opAdd : OpEx := fun _ => opBinary (· + ·)
def opSub : OpEx := fun _ => opBinary (· - ·)
def opMul : OpEx := fun _ => opBinary (· * ·)
def opDiv : OpEx := fun _ => opBinary fun b c => if c != 0 then b / c else 0
def opMod : OpEx := fun _ => opBinary fun b c => if c != 0 then b % c else 0
def opExpt : OpEx := fun h => opBinary h.pow

/-- `op_abs`; `abs(INT_MIN)` is taken to be `INT_MIN`. -/
def opAbs : OpEx := fun _ => opUnary fun b => if b.toInt32 < 0 then -b else b

def opSqrt : OpEx := fun h => opUnary h.sqrt
def opLn : OpEx := fun h => opUnary h.log
def opLog : OpEx := fun h => opUnary h.log10
def opExp : OpEx := fun h => opUnary h.exp
def opSin : OpEx := fun h => opUnary h.sin
def opCos : OpEx := fun h => opUnary h.cos
def opTan : OpEx := fun h => opUnary h.tan
def opAsin : OpEx := fun h => opUnary h.asin
def opAcos : OpEx := fun h => opUnary h.acos
def opAtan : OpEx := fun h => opUnary h.atan

/-! ### Logic and comparison -/

def opAnd : OpEx := fun _ => opBinary (· &&& ·)
def opOr : OpEx := fun _ => opBinary (· ||| ·)
def opXor : OpEx := fun _ => opBinary (· ^^^ ·)
def opNot : OpEx := fun _ => opUnary (~~~ ·)

def opEq : OpEx := fun _ => opBinary fun b c => if b == c then 1 else 0
def opNe : OpEx := fun _ => opBinary fun b c => if b != c then 1 else 0
def opGt : OpEx := fun _ => opBinary fun b c => if c < b then 1 else 0
def opGe : OpEx := fun _ => opBinary fun b c => if c ≤ b then 1 else 0
def opLt : OpEx := fun _ => opBinary fun b c => if b < c then 1 else 0
def opLe : OpEx := fun _ => opBinary fun b c => if b ≤ c then 1 else 0

/-! ### Date and time handlers -/

def opTime : OpEx := fun h vm i =>
  setAVal vm i (todToSeconds (tmToTod h.currentTm)).toUInt32

def opDate : OpEx := fun h vm i =>
  let d := tmToDate h.currentTm
  setAVal vm i (d.year * 10000 + d.month * 100 + d.day).toUInt32

def opTod : OpEx := fun h vm i =>
  let t := tmToTod h.currentTm
  setAVal vm i (t.hours * 10000 + t.minutes * 100 + t.seconds).toUInt32

def opDt : OpEx := fun h vm i =>
  let dt := tmToDt h.currentTm
  setAVal vm i (dt.date.year * 1000000 + dt.date.month * 10000 + dt.date.day * 100 +
    dt.time.hours).toUInt32

def opAddTime : OpEx := fun _ => opBinary (· + ·)
def opSubTime : OpEx := fun _ => opBinary (· - ·)
def opYear : OpEx := fun h vm i => setAVal vm i (tmToDate h.currentTm).year.toUInt32
def opMonth : OpEx := fun h vm i => setAVal vm i (tmToDate h.currentTm).month.toUInt32
def opDay : OpEx := fun h vm i => setAVal vm i (tmToDate h.currentTm).day.toUInt32
def opHour : OpEx := fun h vm i => setAVal vm i (tmToTod h.currentTm).hours.toUInt32
def opMinute : OpEx := fun h vm i => setAVal vm i (tmToTod h.currentTm).minutes.toUInt32
def opSecond : OpEx := fun h vm i => setAVal vm i (tmToTod h.currentTm).seconds.toUInt32

/-! ### String handlers -/

def opLen : OpEx := fun _ vm i =>
  let addr := bv vm i
  if vmMemBytes ≤ addr.toNat then setAVal vm i 0
  else setAVal vm i (UInt32.ofNat (safeStrlenAt vm addr))

def opConcat : OpEx := fun _ vm i =>
  let destAddr := bv vm i
  let srcAddr := cv vm i
  if vmMemBytes ≤ destAddr.toNat ∨ vmMemBytes ≤ srcAddr.toNat then vm
  else
    let destLen := safeStrlenAt vm destAddr
    let srcLen := safeStrlenAt vm srcAddr
    let rem := safeMemRemaining destAddr
    if rem = 0 then vm
    else
      let maxAppend := if destLen < rem then rem - destLen - 1 else 0
      let toCopy := min srcLen maxAppend
      let vm := memmove vm (destAddr.toNat + destLen) srcAddr.toNat toCopy
      setNullAt vm (destAddr.toNat + destLen + toCopy)

def opLeft : OpEx := fun _ vm i =>
  let addr := bv vm i
  let n := cvOrImm vm i
  if vmMemBytes ≤ addr.toNat then vm
  else if safeStrlenAt vm addr ≤ n.toNat then vm
  else setNullAt vm (addr + n).toNat

def opRight : OpEx := fun _ vm i =>
  let addr := bv vm i
  let n := cvOrImm vm i
  if vmMemBytes ≤ addr.toNat then vm
  else
    let len := safeStrlenAt vm addr
    if len = 0 then vm
    else if len ≤ n.toNat then vm
    else
      let src := addr + UInt32.ofNat (len - n.toNat)
      setNullAt (safeMemmove vm addr src n.toNat) (addr + n).toNat

def opMid : OpEx := fun _ vm i =>
  let addr := bv vm i
  let start := cvOrImm vm i
  if vmMemBytes ≤ addr.toNat then vm
  else
    let len := safeStrlenAt vm addr
    if len ≤ start.toNat then setNullAt vm addr.toNat
    else
      let newlen := len - start.toNat
      setNullAt (safeMemmove vm addr (addr + start) newlen) (addr.toNat + newlen)

def opInsert : OpEx := fun _ vm i =>
  let destAddr := vm.reg (ra i)
  let insAddr := bv vm i
  let pos := cvOrImm vm i
  if vmMemBytes ≤ destAddr.toNat ∨ vmMemBytes ≤ insAddr.toNat then vm
  else
    let destLen := safeStrlenAt vm destAddr
    let insLen := safeStrlenAt vm insAddr
    let pos := if destLen < pos.toNat then UInt32.ofNat destLen else pos
    let rem := safeMemRemaining destAddr
    if rem = 0 then vm
    else
      let maxInsert := if destLen < rem then rem - destLen - 1 else 0
      let toInsert := min insLen maxInsert
      if 0 < toInsert then
        let tail := destLen - pos.toNat
        let at' := (destAddr + pos).toNat
        if vmMemBytes < at' + toInsert + tail + 1 ∧ vmMemBytes < at' + toInsert + 1 then vm
        else
          let hole := destAddr.toNat + pos.toNat
          memmove (memmove vm (hole + toInsert) hole (tail + 1)) hole insAddr.toNat toInsert
      else vm

def opDelete : OpEx := fun _ vm i =>
  let addr := vm.reg (ra i)
  let pos := bv vm i
  let n := cvOrImm vm i
  if vmMemBytes ≤ addr.toNat then vm
  else
    let len := safeStrlenAt vm addr
    if len ≤ pos.toNat then vm
    else
      let n := if len - pos.toNat < n.toNat then UInt32.ofNat (len - pos.toNat) else n
      safeMemmove vm (addr + pos) (addr + pos + n) (len - pos.toNat - n.toNat + 1)

def opReplace : OpEx := fun _ vm i =>
  let addr := vm.reg (ra i)
  let repAddr := bv vm i
  let pos := cvOrImm vm i
  if vmMemBytes ≤ addr.toNat ∨ vmMemBytes ≤ repAddr.toNat then vm
  else
    let len := safeStrlenAt vm addr
    let repLen := safeStrlenAt vm repAddr
    if len < pos.toNat then vm
    else
      let repLen := if len < pos.toNat + repLen then len - pos.toNat else repLen
      let vm := safeMemmove vm (addr + pos) (UInt32.ofNat ((addr + pos).toNat + repLen))
        (len - pos.toNat - repLen + 1)
      let rem := safeMemRemaining addr
      let currentLen := safeStrlenAt vm addr
      let maxInsert := if currentLen < rem then rem - currentLen - 1 else 0
      let toInsert := min repLen maxInsert
      if 0 < toInsert then
        let tail := currentLen - pos.toNat
        let hole := addr.toNat + pos.toNat
        memmove (memmove vm (hole + toInsert) hole (tail + 1)) hole repAddr.toNat toInsert
      else vm

/-! ### Timers and counters -/

/-- The common body of `op_ton`, `op_tof` and `op_tp`. -/
def opTimer (set : VmState → UInt8 → Bool → UInt32 → VmState) (q : VmState → UInt8 → Bool)
    (vm : VmState) (i : UInt32) : VmState :=
  if !fimm i then vm
  else
    let id := (imm8 i).toUInt8
    if maxTimers ≤ id.toNat then vm
    else
      let vm := set vm id (vm.reg (rb i) != 0) (vm.reg (rc i))
      setAVal vm i (if q vm id then 1 else 0)

def opTon : OpEx := fun _ => opTimer tonSet tonQ
def opTof : OpEx := fun _ => opTimer tofSet tofQ
def opTp : OpEx := fun _ => opTimer tpSet tpQ

/-- The check of an `int` instance number. -/
def idOutOfRange (id : Int32) : Bool := id < 0 || 16 ≤ id

/-- The instance numbers that pass the check are those below `MAX_TIMERS`, as unsigned numbers
too. -/
lemma idOutOfRange_iff (x : UInt32) : idOutOfRange x.toInt32 = true ↔ maxTimers ≤ x.toNat := by
  have hint : x.toInt32.toInt = if 2 * x.toNat < 2 ^ 32 then (x.toNat : ℤ) else x.toNat - 2 ^ 32 :=
    BitVec.toInt_eq_toNat_cond x.toBitVec
  have hlt := x.toNat_lt
  simp only [idOutOfRange, Bool.or_eq_true, decide_eq_true_eq, Int32.lt_iff_toInt_lt,
    Int32.le_iff_toInt_le, hint, Int32.reduceToInt, maxTimers]
  split_ifs <;> omega

def opCtu : OpEx := fun _ vm i =>
  let x := vm.reg (ra i)
  if idOutOfRange x.toInt32 then vm
  else
    let id := x.toNat
    let input := vm.reg (rb i) != 0
    let preset := cvOrImm vm i
    let rising := input && !vm.ctuPrevInput id
    let c := vm.ctuCounters id
    let value := if rising && c.value < 0xFFFFFFFF then c.value + 1 else c.value
    setAVal
      { vm with
        ctuCounters := Function.update vm.ctuCounters id { c with value := value }
        ctuPrevInput := Function.update vm.ctuPrevInput id input }
      i (if preset ≤ value then 1 else 0)

def opCtd : OpEx := fun _ vm i =>
  let x := vm.reg (ra i)
  if idOutOfRange x.toInt32 then vm
  else
    let id := x.toNat
    let input := vm.reg (rb i) != 0
    let preset := cvOrImm vm i
    let rising := input && !vm.ctdPrevInput id
    let c := vm.ctdCounters id
    let value := if rising && 0 < c.value then c.value - 1 else c.value
    setAVal
      { vm with
        ctdCounters := Function.update vm.ctdCounters id { c with value := value }
        ctdPrevInput := Function.update vm.ctdPrevInput id input }
      i (if value ≤ preset then 1 else 0)

def opCtud : OpEx := fun _ vm i =>
  let x := vm.reg (ra i)
  if idOutOfRange x.toInt32 then vm
  else
    let id := x.toNat
    let up := vm.reg (rb i) != 0
    let down := vm.reg (rc i) != 0
    let upRising := up && !vm.ctudPrevUp id
    let downRising := down && !vm.ctudPrevDown id
    let c := vm.ctudCounters id
    let value := if upRising && c.value < 0xFFFFFFFF then c.value + 1 else c.value
    let value := if downRising && 0 < value then value - 1 else value
    setAVal
      { vm with
        ctudCounters := Function.update vm.ctudCounters id { c with value := value }
        ctudPrevUp := Function.update vm.ctudPrevUp id up
        ctudPrevDown := Function.update vm.ctudPrevDown id down }
      i value

/-! ### `limit`, `sel` and `mux` -/

def opLimit : OpEx := fun _ vm i =>
  let x := vm.reg (ra i)
  let lo := bv vm i
  let hi := cvOrImm vm i
  let x := if x < lo then lo else x
  let x := if hi < x then hi else x
  setAVal vm i x

def opSel : OpEx := fun _ vm i =>
  let cond := bv vm i
  let base := vm.reg (rc i)
  if vmMemBytes ≤ base.toNat then setAVal vm i 0
  else
    let v1 := if (base + 4).toNat ≤ vmMemBytes then vmMr32 vm base else 0
    let v2 := if (base + 8).toNat ≤ vmMemBytes then vmMr32 vm (base + 4) else 0
    setAVal vm i (if cond != 0 then v1 else v2)

def opMux : OpEx := fun _ vm i =>
  let base := bv vm i
  let idx := cvOrImm vm i
  let addr := base.toUInt64 + idx.toUInt64 * 4
  if vmMemBytes < (addr + 4).toNat then setAVal vm i 0
  else setAVal vm i (vmMr32 vm addr.toUInt32)

/-! ### Edge detectors, latches and the demultiplexer -/

/-- The instance number of an edge detector: the immediate, or else the contents of register
A. -/
def edgeId (vm : VmState) (i : UInt32) : UInt32 := if fimm i then imm8 i else vm.reg (ra i)

def opRisingEdge : OpEx := fun _ vm i =>
  let x := edgeId vm i
  if idOutOfRange x.toInt32 then setAVal vm i 0
  else
    let id := x.toNat
    let input := bv vm i != 0
    let rising := input && !vm.edgePrevRising id
    setAVal { vm with edgePrevRising := Function.update vm.edgePrevRising id input } i
      (if rising then 1 else 0)

def opFallingEdge : OpEx := fun _ vm i =>
  let x := edgeId vm i
  if idOutOfRange x.toInt32 then setAVal vm i 0
  else
    let id := x.toNat
    let input := bv vm i != 0
    let falling := !input && vm.edgePrevFalling id
    setAVal { vm with edgePrevFalling := Function.update vm.edgePrevFalling id input } i
      (if falling then 1 else 0)

def opEdgeBoth : OpEx := fun _ vm i =>
  let x := edgeId vm i
  if idOutOfRange x.toInt32 then setAVal vm i 0
  else
    let id := x.toNat
    let input := bv vm i != 0
    let changed := input != vm.edgePrevBoth id
    setAVal { vm with edgePrevBoth := Function.update vm.edgePrevBoth id input } i
      (if changed then 1 else 0)

/-- The instance number of a latch: the immediate, or else the number of register A itself. -/
def latchId (i : UInt32) : UInt32 := if fimm i then imm8 i else (ra i).toUInt32

def opRsLatch : OpEx := fun _ vm i =>
  let x := latchId i
  if idOutOfRange x.toInt32 then setAVal vm i 0
  else
    let id := x.toNat
    let s := vm.reg (rb i) != 0
    let r := vm.reg (rc i) != 0
    let q := if r then false else if s then true else vm.rsLatches id
    setAVal { vm with rsLatches := Function.update vm.rsLatches id q } i (if q then 1 else 0)

def opSrLatch : OpEx := fun _ vm i =>
  let x := latchId i
  if idOutOfRange x.toInt32 then setAVal vm i 0
  else
    let id := x.toNat
    let s := vm.reg (rb i) != 0
    let r := vm.reg (rc i) != 0
    let q := if s then true else if r then false else vm.srLatches id
    setAVal { vm with srLatches := Function.update vm.srLatches id q } i (if q then 1 else 0)

def opDemux : OpEx := fun _ vm i =>
  let base := bv vm i
  let idx := cvOrImm vm i
  let addr := base.toUInt64 + idx.toUInt64 * 4
  if vmMemBytes < (addr + 4).toNat then vm
  else vmMw32 vm addr.toUInt32 (vm.reg (ra i))

/-! ### Jumps and control -/

/-- Where a jump goes. -/
def jumpTarget (vm : VmState) (i : UInt32) : UInt32 := if fimm i then sextimm8 i else bv vm i

def opJmp : OpEx := fun _ vm i => { vm with pc := jumpTarget vm i }

def opJmpIf : OpEx := fun _ vm i =>
  if cv vm i != 0 then { vm with pc := jumpTarget vm i } else vm

def opJmpIfNot : OpEx := fun _ vm i =>
  if cv vm i == 0 then { vm with pc := jumpTarget vm i } else vm

/-- `op_exit`; without an immediate the exit code is the number of register A. -/
def opExit : OpEx := fun _ vm i =>
  { vm with
    exitCode := if fimm i then (imm8 i).toNat else (ra i).toNat
    running := false
    stopRequested := true }

def opHalt : OpEx := fun _ vm _ => { vm with running := false, stopRequested := true }

def opNop : OpEx := fun _ vm _ => vm

/-! ### The opcode table -/

/-- `default_op_ex`, up to the handlers that are `NULL`. -/
def defaultOpEx : List OpEx :=
  [opAdd, opSub, opMul, opDiv, opMod, opExpt, opAbs, opSqrt, opLn, opLog,
    opExp, opSin, opCos, opTan, opAsin, opAcos, opAtan,
    opAnd, opOr, opXor, opNot,
    opEq, opNe, opGt, opGe, opLt, opLe,
    opTime, opDate, opTod, opDt, opAddTime, opSubTime,
    opYear, opMonth, opDay, opHour, opMinute, opSecond,
    opLen, opConcat, opLeft, opRight, opMid, opInsert, opDelete, opReplace,
    opTon, opTof, opTp,
    opCtu, opCtd, opCtud,
    opLimit, opSel, opMux,
    opRisingEdge, opFallingEdge, opEdgeBoth,
    opRsLatch, opSrLatch, opDemux,
    opJmp, opJmpIf, opJmpIfNot,
    opExit,
    opHalt,
    opNop]

/-- `vm->op_ex`, as `vm_state_init_opcode_table` fills it. -/
def opEx (opcode : UInt8) : Option OpEx := defaultOpEx[opcode.toNat]?

lemma length_defaultOpEx : defaultOpEx.length = 68 := rfl

end Vm32
