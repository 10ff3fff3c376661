/-
# The handlers with their accesses recorded

The handlers of `funcs.c` that touch memory or an instance array, once more, with every access
they make and every subtraction of lengths reported as an event.  A read or a store reports its
address, a call of `memcpy` or `memmove` the two ranges it is handed, an array access the index,
and a subtraction of unsigned numbers its operands.  Except for these reports the definitions
follow the C code line by line, as those of `Funcs` do.
-/
import Vm32.Lib.Logged
import Vm32.Vm.Funcs

namespace Vm32

/-- What a handler does that can go wrong. -/
inductive Access
  /-- The byte at the address is read or written. -/
  | byte (addr : ℕ)
  /-- The range of `n` bytes from the address on is handed to `memcpy`, `memmove` or a hash
  function. -/
  | range (addr n : ℕ)
  /-- The element of an array of `MAX_TIMERS` elements is read or written. -/
  | index (id : ℕ)
  /-- The unsigned difference `a - b` is computed. -/
  | sub (a b : ℕ)
deriving DecidableEq, Repr

/-- The access stays inside memory or inside the array; the difference does not underflow. -/
def Access.Safe : Access → Prop
  | .byte addr => addr < vmMemBytes
  | .range addr n => addr + n ≤ vmMemBytes
  | .index id => id < maxTimers
  | .sub a b => b ≤ a

/-- A handler that reports its accesses. -/
abbrev LoggedOpEx := Host → VmState → UInt32 → Logged Access VmState

namespace Accesses

open Logged

/-! ### Single accesses -/

/-- `vm->mem[addr]`, read. -/
def readByte (vm : VmState) (addr : ℕ) : Logged Access UInt8 := do
  tell (.byte addr)
  pure (vm.mem addr)

/-- `vm->mem[addr] = v`. -/
def storeByte (vm : VmState) (addr : ℕ) (v : UInt8) : Logged Access VmState := do
  tell (.byte addr)
  pure ({ vm with mem := Function.update vm.mem addr v })

/-- `memcpy` and `memmove` from memory to memory. -/
def copyBytes (vm : VmState) (dest src n : ℕ) : Logged Access VmState := do
  tell (.range dest n)
  tell (.range src n)
  pure (memmove vm dest src n)

/-- A difference of two lengths. -/
def sub (a b : ℕ) : Logged Access ℕ := do
  tell (.sub a b)
  pure (a - b)

/-- `vm_mr32`. -/
def vmMr32 (vm : VmState) (addr : UInt32) : Logged Access UInt32 := do
  let b₀ ← readByte vm addr.toNat
  let b₁ ← readByte vm (addr + 1).toNat
  let b₂ ← readByte vm (addr + 2).toNat
  let b₃ ← readByte vm (addr + 3).toNat
  pure (b₀.toUInt32 ||| (b₁.toUInt32 <<< 8) ||| (b₂.toUInt32 <<< 16) ||| (b₃.toUInt32 <<< 24))

/-- `vm_mw32`. -/
def vmMw32 (vm : VmState) (addr val : UInt32) : Logged Access VmState := do
  let vm ← storeByte vm addr.toNat val.toUInt8
  let vm ← storeByte vm (addr + 1).toNat (val >>> 8).toUInt8
  let vm ← storeByte vm (addr + 2).toNat (val >>> 16).toUInt8
  storeByte vm (addr + 3).toNat (val >>> 24).toUInt8

/-! ### Strings in memory -/

/-- `safe_mem_remaining`. -/
def safeMemRemaining (addr : UInt32) : Logged Access ℕ :=
  if vmMemBytes ≤ addr.toNat then pure 0 else sub vmMemBytes addr.toNat

/-- The loop of `safe_strlen_at`, with `rem` bytes to go. -/
def strlenLoop (vm : VmState) : ℕ → ℕ → Logged Access ℕ
  | _, 0 => pure 0
  | a, rem + 1 => do
    let b ← readByte vm a
    if b = 0 then pure 0
    else
      let n ← strlenLoop vm (a + 1) rem
      pure (n + 1)

/-- `safe_strlen_at`. -/
def safeStrlenAt (vm : VmState) (addr : UInt32) : Logged Access ℕ := do
  let rem ← safeMemRemaining addr
  strlenLoop vm addr.toNat rem

/-- `safe_memmove`. -/
def safeMemmove (vm : VmState) (destAddr srcAddr : UInt32) (n : ℕ) : Logged Access VmState := do
  let remDest ← safeMemRemaining destAddr
  let remSrc ← safeMemRemaining srcAddr
  copyBytes vm destAddr.toNat srcAddr.toNat (min n (min remDest remSrc))

/-- The guarded store of a terminator. -/
def setNullAt (vm : VmState) (a : ℕ) : Logged Access VmState :=
  if a < vmMemBytes then storeByte vm a 0 else pure vm

/-- `rem > len ? rem - len - 1 : 0`. -/
def roomBehind (rem len : ℕ) : Logged Access ℕ :=
  if len < rem then do
    let room ← sub rem len
    sub room 1
  else pure 0

/-! ### String handlers -/

def opLen : LoggedOpEx := fun _ vm i =>
  let addr := bv vm i
  if vmMemBytes ≤ addr.toNat then pure (setAVal vm i 0)
  else do
    let len ← safeStrlenAt vm addr
    pure (setAVal vm i (UInt32.ofNat len))

def opConcat : LoggedOpEx := fun _ vm i =>
  let destAddr := bv vm i
  let srcAddr := cv vm i
  if vmMemBytes ≤ destAddr.toNat ∨ vmMemBytes ≤ srcAddr.toNat then pure vm
  else do
    let destLen ← safeStrlenAt vm destAddr
    let srcLen ← safeStrlenAt vm srcAddr
    let rem ← safeMemRemaining destAddr
    if rem = 0 then pure vm
    else
      let maxAppend ← roomBehind rem destLen
      let toCopy := min srcLen maxAppend
      let vm ← (if 0 < toCopy then copyBytes vm (destAddr.toNat + destLen) srcAddr.toNat toCopy
        else pure vm)
      setNullAt vm (destAddr.toNat + destLen + toCopy)

def opLeft : LoggedOpEx := fun _ vm i =>
  let addr := bv vm i
  let n := cvOrImm vm i
  if vmMemBytes ≤ addr.toNat then pure vm
  else do
    let len ← safeStrlenAt vm addr
    if len ≤ n.toNat then pure vm
    else setNullAt vm (addr + n).toNat

def opRight : LoggedOpEx := fun _ vm i =>
  let addr := bv vm i
  let n := cvOrImm vm i
  if vmMemBytes ≤ addr.toNat then pure vm
  else do
    let len ← safeStrlenAt vm addr
    if len = 0 then pure vm
    else if len ≤ n.toNat then pure vm
    else
      let offset ← sub len n.toNat
      let vm ← safeMemmove vm addr (addr + UInt32.ofNat offset) n.toNat
      setNullAt vm (addr + n).toNat

def opMid : LoggedOpEx := fun _ vm i =>
  let addr := bv vm i
  let start := cvOrImm vm i
  if vmMemBytes ≤ addr.toNat then pure vm
  else do
    let len ← safeStrlenAt vm addr
    if len ≤ start.toNat then setNullAt vm addr.toNat
    else
      let newlen ← sub len start.toNat
      let vm ← safeMemmove vm addr (addr + start) newlen
      setNullAt vm (addr.toNat + newlen)

def opInsert : LoggedOpEx := fun _ vm i =>
  let destAddr := vm.reg (ra i)
  let insAddr := bv vm i
  let pos := cvOrImm vm i
  if vmMemBytes ≤ destAddr.toNat ∨ vmMemBytes ≤ insAddr.toNat then pure vm
  else do
    let destLen ← safeStrlenAt vm destAddr
    let insLen ← safeStrlenAt vm insAddr
    let pos := if destLen < pos.toNat then UInt32.ofNat destLen else pos
    let rem ← safeMemRemaining destAddr
    if rem = 0 then pure vm
    else
      let maxInsert ← roomBehind rem destLen
      let toInsert := min insLen maxInsert
      if 0 < toInsert then
        let tail ← sub destLen pos.toNat
        let at' := (destAddr + pos).toNat
        if vmMemBytes < at' + toInsert + tail + 1 ∧ vmMemBytes < at' + toInsert + 1 then pure vm
        else
          let hole := destAddr.toNat + pos.toNat
          let vm ← copyBytes vm (hole + toInsert) hole (tail + 1)
          copyBytes vm hole insAddr.toNat toInsert
      else pure vm

def opDelete : LoggedOpEx := fun _ vm i =>
  let addr := vm.reg (ra i)
  let pos := bv vm i
  let n := cvOrImm vm i
  if vmMemBytes ≤ addr.toNat then pure vm
  else do
    let len ← safeStrlenAt vm addr
    if len ≤ pos.toNat then pure vm
    else
      let behind ← sub len pos.toNat
      let n := if behind < n.toNat then UInt32.ofNat behind else n
      let left ← sub behind n.toNat
      safeMemmove vm (addr + pos) (addr + pos + n) (left + 1)

def opReplace : LoggedOpEx := fun _ vm i =>
  let addr := vm.reg (ra i)
  let repAddr := bv vm i
  let pos := cvOrImm vm i
  if vmMemBytes ≤ addr.toNat ∨ vmMemBytes ≤ repAddr.toNat then pure vm
  else do
    let len ← safeStrlenAt vm addr
    let repLen ← safeStrlenAt vm repAddr
    if len < pos.toNat then pure vm
    else
      let repLen ← (if len < pos.toNat + repLen then sub len pos.toNat else pure repLen)
      let behind ← sub len pos.toNat
      let left ← sub behind repLen
      let vm ← safeMemmove vm (addr + pos) (UInt32.ofNat ((addr + pos).toNat + repLen)) (left + 1)
      let rem ← safeMemRemaining addr
      let currentLen ← safeStrlenAt vm addr
      let maxInsert ← roomBehind rem currentLen
      let toInsert := min repLen maxInsert
      if 0 < toInsert then
        let tail ← sub currentLen pos.toNat
        let hole := addr.toNat + pos.toNat
        let vm ← copyBytes vm (hole + toInsert) hole (tail + 1)
        copyBytes vm hole repAddr.toNat toInsert
      else pure vm

/-! ### Timers and counters -/

/-- The access to the array of a kind of timers, behind the check of `id_ok`. -/
def timerElement (id : UInt8) : Logged Access PUnit :=
  if idOk id then tell (.index id.toNat) else pure ⟨⟩

/-- The common body of `op_ton`, `op_tof` and `op_tp`. -/
def opTimer (set : VmState → UInt8 → Bool → UInt32 → VmState) (q : VmState → UInt8 → Bool)
    (vm : VmState) (i : UInt32) : Logged Access VmState :=
  if !fimm i then pure vm
  else
    let id := (imm8 i).toUInt8
    if maxTimers ≤ id.toNat then pure vm
    else do
      timerElement id
      let vm := set vm id (vm.reg (rb i) != 0) (vm.reg (rc i))
      timerElement id
      pure (setAVal vm i (if q vm id then 1 else 0))

/-- An element of an instance array, read. -/
def readAt {α : Type} (array : ℕ → α) (id : ℕ) : Logged Access α := do
  tell (.index id)
  pure (array id)

/-- An element of an instance array, written. -/
def storeAt {α : Type} (array : ℕ → α) (id : ℕ) (v : α) : Logged Access (ℕ → α) := do
  tell (.index id)
  pure (Function.update array id v)

def opCtu : LoggedOpEx := fun _ vm i =>
  let x := vm.reg (ra i)
  if idOutOfRange x.toInt32 then pure vm
  else do
    let id := x.toNat
    let input := vm.reg (rb i) != 0
    let preset := cvOrImm vm i
    let prev ← readAt vm.ctuPrevInput id
    let rising := input && !prev
    let c ← readAt vm.ctuCounters id
    let value := if rising && c.value < 0xFFFFFFFF then c.value + 1 else c.value
    let counters ← storeAt vm.ctuCounters id { c with value := value }
    let prevInput ← storeAt vm.ctuPrevInput id input
    pure (setAVal { vm with ctuCounters := counters, ctuPrevInput := prevInput } i
      (if preset ≤ value then 1 else 0))

def opCtd : LoggedOpEx := fun _ vm i =>
  let x := vm.reg (ra i)
  if idOutOfRange x.toInt32 then pure vm
  else do
    let id := x.toNat
    let input := vm.reg (rb i) != 0
    let preset := cvOrImm vm i
    let prev ← readAt vm.ctdPrevInput id
    let rising := input && !prev
    let c ← readAt vm.ctdCounters id
    let value := if rising && 0 < c.value then c.value - 1 else c.value
    let counters ← storeAt vm.ctdCounters id { c with value := value }
    let prevInput ← storeAt vm.ctdPrevInput id input
    pure (setAVal { vm with ctdCounters := counters, ctdPrevInput := prevInput } i
      (if value ≤ preset then 1 else 0))

def opCtud : LoggedOpEx := fun _ vm i =>
  let x := vm.reg (ra i)
  if idOutOfRange x.toInt32 then pure vm
  else do
    let id := x.toNat
    let up := vm.reg (rb i) != 0
    let down := vm.reg (rc i) != 0
    let prevUp ← readAt vm.ctudPrevUp id
    let prevDown ← readAt vm.ctudPrevDown id
    let upRising := up && !prevUp
    let downRising := down && !prevDown
    let c ← readAt vm.ctudCounters id
    let value := if upRising && c.value < 0xFFFFFFFF then c.value + 1 else c.value
    let value := if downRising && 0 < value then value - 1 else value
    let counters ← storeAt vm.ctudCounters id { c with value := value }
    let prevUp ← storeAt vm.ctudPrevUp id up
    let prevDown ← storeAt vm.ctudPrevDown id down
    pure (setAVal
      { vm with ctudCounters := counters, ctudPrevUp := prevUp, ctudPrevDown := prevDown } i value)

/-! ### Edge detectors and latches -/

def opRisingEdge : LoggedOpEx := fun _ vm i =>
  let x := edgeId vm i
  if idOutOfRange x.toInt32 then pure (setAVal vm i 0)
  else do
    let id := x.toNat
    let input := bv vm i != 0
    let prev ← readAt vm.edgePrevRising id
    let rising := input && !prev
    let edges ← storeAt vm.edgePrevRising id input
    pure (setAVal { vm with edgePrevRising := edges } i (if rising then 1 else 0))

def opFallingEdge : LoggedOpEx := fun _ vm i =>
  let x := edgeId vm i
  if idOutOfRange x.toInt32 then pure (setAVal vm i 0)
  else do
    let id := x.toNat
    let input := bv vm i != 0
    let prev ← readAt vm.edgePrevFalling id
    let falling := !input && prev
    let edges ← storeAt vm.edgePrevFalling id input
    pure (setAVal { vm with edgePrevFalling := edges } i (if falling then 1 else 0))

def opEdgeBoth : LoggedOpEx := fun _ vm i =>
  let x := edgeId vm i
  if idOutOfRange x.toInt32 then pure (setAVal vm i 0)
  else do
    let id := x.toNat
    let input := bv vm i != 0
    let prev ← readAt vm.edgePrevBoth id
    let changed := input != prev
    let edges ← storeAt vm.edgePrevBoth id input
    pure (setAVal { vm with edgePrevBoth := edges } i (if changed then 1 else 0))

/-- The read at the end of `op_rs_latch` and `op_sr_latch`, which sets register A. -/
def latchOutput (latches : ℕ → Bool) (id : ℕ) : Logged Access UInt32 := do
  let q ← readAt latches id
  pure (if q then 1 else 0)

def opRsLatch : LoggedOpEx := fun _ vm i =>
  let x := latchId i
  if idOutOfRange x.toInt32 then pure (setAVal vm i 0)
  else do
    let id := x.toNat
    let s := vm.reg (rb i) != 0
    let r := vm.reg (rc i) != 0
    let latches ←
      (if r then storeAt vm.rsLatches id false
      else if s then storeAt vm.rsLatches id true
      else pure vm.rsLatches)
    let q ← latchOutput latches id
    pure (setAVal { vm with rsLatches := latches } i q)

def opSrLatch : LoggedOpEx := fun _ vm i =>
  let x := latchId i
  if idOutOfRange x.toInt32 then pure (setAVal vm i 0)
  else do
    let id := x.toNat
    let s := vm.reg (rb i) != 0
    let r := vm.reg (rc i) != 0
    let latches ←
      (if s then storeAt vm.srLatches id true
      else if r then storeAt vm.srLatches id false
      else pure vm.srLatches)
    let q ← latchOutput latches id
    pure (setAVal { vm with srLatches := latches } i q)

/-! ### `sel`, `mux` and `demux` -/

def opSel : LoggedOpEx := fun _ vm i =>
  let cond := bv vm i
  let base := vm.reg (rc i)
  if vmMemBytes ≤ base.toNat then pure (setAVal vm i 0)
  else do
    let v1 ← (if (base + 4).toNat ≤ vmMemBytes then vmMr32 vm base else pure 0)
    let v2 ← (if (base + 8).toNat ≤ vmMemBytes then vmMr32 vm (base + 4) else pure 0)
    pure (setAVal vm i (if cond != 0 then v1 else v2))

def opMux : LoggedOpEx := fun _ vm i =>
  let base := bv vm i
  let idx := cvOrImm vm i
  let addr := base.toUInt64 + idx.toUInt64 * 4
  if vmMemBytes < (addr + 4).toNat then pure (setAVal vm i 0)
  else do
    let v ← vmMr32 vm addr.toUInt32
    pure (setAVal vm i v)

def opDemux : LoggedOpEx := fun _ vm i =>
  let base := bv vm i
  let idx := cvOrImm vm i
  let addr := base.toUInt64 + idx.toUInt64 * 4
  if vmMemBytes < (addr + 4).toNat then pure vm
  else vmMw32 vm addr.toUInt32 (vm.reg (ra i))

/-! ### The opcode table -/

/-- A handler that accesses neither memory nor an instance array. -/
def silent (op : OpEx) : LoggedOpEx := fun h vm i => pure (op h vm i)

/-- `default_op_ex`, with the handlers that report their accesses. -/
def defaultOpEx : List LoggedOpEx :=
  [silent opAdd, silent opSub, silent opMul, silent opDiv, silent opMod, silent opExpt,
    silent opAbs, silent opSqrt, silent opLn, silent opLog,
    silent opExp, silent opSin, silent opCos, silent opTan, silent opAsin, silent opAcos,
    silent opAtan,
    silent opAnd, silent opOr, silent opXor, silent opNot,
    silent opEq, silent opNe, silent opGt, silent opGe, silent opLt, silent opLe,
    silent opTime, silent opDate, silent opTod, silent opDt, silent opAddTime, silent opSubTime,
    silent opYear, silent opMonth, silent opDay, silent opHour, silent opMinute, silent opSecond,
    opLen, opConcat, opLeft, opRight, opMid, opInsert, opDelete, opReplace,
    fun _ => opTimer tonSet tonQ, fun _ => opTimer tofSet tofQ, fun _ => opTimer tpSet tpQ,
    opCtu, opCtd, opCtud,
    silent opLimit, opSel, opMux,
    opRisingEdge, opFallingEdge, opEdgeBoth,
    opRsLatch, opSrLatch, opDemux,
    silent opJmp, silent opJmpIf, silent opJmpIfNot,
    silent opExit,
    silent opHalt,
    silent opNop]

end Accesses

/-- `vm->op_ex`, with the handlers that report their accesses. -/
def loggedOpEx (opcode : UInt8) : Option LoggedOpEx := Accesses.defaultOpEx[opcode.toNat]?

end Vm32
