/-
# The log

With logging switched on, `run_program` writes a text: a head, some lines at the beginning and at
the end of every cycle and of every module, and a block of lines for every instruction.
`log_before` takes a copy of the registers and of the first bytes of memory and prints the
instruction, and `log_after` prints where they have changed.  The names of the modules stand in the
text as they are.  As long as no name holds a newline, the blocks can be told from the other lines,
so that a reader who knows how to read a block can read the whole text.
-/
import Vm32.Asm.Disassembly
import Vm32.Lib.Deltas
import Vm32.Lib.Fields
import Vm32.Vm.RunProgram

namespace Vm32

open CText Deltas LabelledRun

/-! ### One instruction -/

/-- `fprintf_binary`. -/
def fprintfBinary (num : UInt32) : List UInt8 :=
  (List.range 32).reverse.flatMap fun c =>
    (if (c + 1) % 8 = 0 ∧ c ≠ 31 then [32] else []) ++
      decimal ((num >>> UInt32.ofNat c) &&& 1).toNat

/-- A horizontal rule. -/
def rule (c : String) (n : ℕ) : List UInt8 := (List.replicate n (bytes c)).flatten

/-- `log_instruction`, with the number of the instruction. -/
def logInstruction (n : UInt64) (pc instr : UInt32) : List (List UInt8) :=
  [bytes "┌─ Instruction #" ++ (decimal n.toNat ++ (bytes " " ++ rule "─" 41)),
    bytes "│ PC: 0x" ++ upperHex 8 pc.toNat,
    bytes "│ " ++ fprintfInst instr,
    bytes "│ Binary: " ++ fprintfBinary instr]

/-- The value of a register operand.  Every number of eight bits is that of a register. -/
def operandLine (reg : UInt8 → UInt32) (r : UInt8) (name : String) : List UInt8 :=
  bytes "│   R" ++ (decimal r.toNat ++ (bytes " (" ++ (bytes name ++ (bytes ") = 0x" ++
    (upperHex 8 (reg r).toNat ++ (bytes " (" ++ (padLeft 10 (decimal (reg r).toNat) ++
      bytes ")")))))))

/-- The value of operand C, which is a register or an immediate. -/
def operandCLine (reg : UInt8 → UInt32) (instr : UInt32) : List UInt8 :=
  if instrHasFimm instr then
    bytes "│   C (immediate) = #" ++ (decimalInt (instrImm8Signed instr).toInt ++
      (bytes " (raw=0x" ++ (upperHex 2 (instr &&& 0xFF).toUInt8.toNat ++ bytes ")")))
  else operandLine reg (instrCAsRegIndex instr) "C"

/-- What `log_before` prints. -/
def logBefore (n : UInt64) (pc instr : UInt32) (reg : UInt8 → UInt32) : List (List UInt8) :=
  logInstruction n pc instr ++
    [bytes "│", bytes "│ Operands BEFORE:", operandLine reg (instrRa instr) "A",
      operandLine reg (instrRb instr) "B", operandCLine reg instr]

/-- `MEM_LOG_SIZE`. -/
abbrev memLogSize : ℕ := 256

/-- `isprint`. -/
def isPrint (c : UInt8) : Bool := 32 ≤ c && c < 127

/-- The line about a register. -/
def regChangeLine (d : Delta UInt8 UInt32) : List UInt8 :=
  bytes "│   R" ++ (zeroPad 3 (decimal d.idx.toNat) ++ (bytes ": 0x" ++
    (upperHex 8 d.old.toNat ++ (bytes " -> 0x" ++ (upperHex 8 d.new.toNat ++ [])))))

/-- The line about a byte of memory. -/
def memChangeLine (d : Delta (Fin memLogSize) UInt8) : List UInt8 :=
  bytes "│   [0x" ++ (upperHex 8 d.idx ++ (bytes "]: 0x" ++ (upperHex 2 d.old.toNat ++
    (bytes " -> 0x" ++ (upperHex 2 d.new.toNat ++
      (bytes " '" ++ [if isPrint d.new then d.new else 46] ++ bytes "'"))))))

/-- The first bytes of memory. -/
def lowMem (mem : ℕ → UInt8) (i : Fin memLogSize) : UInt8 := mem i

/-- The registers that an instruction has changed. -/
def regDeltas (reg reg' : UInt8 → UInt32) : List (Delta UInt8 UInt32) :=
  deltas ((List.range 256).map UInt8.ofNat) reg reg'

/-- The first bytes of memory that an instruction has changed. -/
def memDeltas (mem mem' : ℕ → UInt8) : List (Delta (Fin memLogSize) UInt8) :=
  deltas (List.finRange memLogSize) (lowMem mem) (lowMem mem')

/-- The lines about the changes, or the line that there are none. -/
def changeSection (absent header : String) (changes : List (List UInt8)) : List (List UInt8) :=
  if changes = [] then [bytes absent] else bytes header :: changes

/-- The last lines of `log_after`. -/
def logEnd (prevPc pc : UInt32) : List (List UInt8) :=
  [bytes "│",
    if prevPc ≠ pc then
      bytes "│ PC changed: 0x" ++ (upperHex 8 prevPc.toNat ++ (bytes " -> 0x" ++
        upperHex 8 pc.toNat))
    else bytes "│ PC: 0x" ++ upperHex 8 pc.toNat,
    bytes "└" ++ rule "─" 62, []]

/-- What `log_after` prints. -/
def logAfter (reg reg' : UInt8 → UInt32) (mem mem' : ℕ → UInt8) (prevPc pc : UInt32) :
    List (List UInt8) :=
  bytes "│" ::
    (changeSection "│ Register changes: (none)" "│ Register CHANGES:"
        ((regDeltas reg reg').map regChangeLine) ++
      (changeSection "│ Memory changes: (none)" "│ Memory CHANGES (first 256 bytes):"
          ((memDeltas mem mem').map memChangeLine) ++ logEnd prevPc pc))

/-- What the two functions see of an instruction. -/
structure LoggedStep where
  pc : UInt32
  instr : UInt32
  reg : UInt8 → UInt32
  mem : ℕ → UInt8
  reg' : UInt8 → UInt32
  mem' : ℕ → UInt8
  pc' : UInt32

/-- The call of the two functions in a step, if the step makes it. -/
def loggedStep (c : Config) (e : Env) : Option LoggedStep :=
  match outcome vmDecodeInstruction c e with
  | some (.executed pc instr _) =>
    let after := (step vmDecodeInstruction c e).vm
    some ⟨pc, instr, c.vm.reg, c.vm.mem, after.reg, after.mem, after.pc⟩
  | _ => none

/-- The lines about an instruction. -/
def LoggedStep.lines (n : UInt64) (x : LoggedStep) : List (List UInt8) :=
  logBefore n x.pc x.instr x.reg ++ logAfter x.reg x.reg' x.mem x.mem' x.pc x.pc'

/-! ### Cycles and modules -/

/-- What the lines refer to besides the state: `dbg_instruction_count`, `total_instr_count` and
`cycle_start`. -/
structure LogState where
  instructionCount : UInt64
  totalInstrCount : UInt64
  cycleStart : Timespec

/-- `vm_get_elapsed_ms`. -/
def vmGetElapsedMs (start stop : Timespec) : Int64 :=
  (stop.tvSec - start.tvSec) * 1000 + (stop.tvNsec - start.tvNsec) / 1000000

/-- The conversion `%X`. -/
def hex (x : ℕ) : List UInt8 := upperHex (Nat.log 16 x + 1) x

/-- The head that `init_logging` prints; `date` is what `ctime` gives, without the newline. -/
def initLogging (date : List UInt8) (vm : VmState) : List (List UInt8) :=
  [bytes "╔" ++ (rule "═" 63 ++ bytes "╗"),
    bytes "║           VM32 Execution Log - " ++ date,
    bytes "╠" ++ (rule "═" 63 ++ bytes "╣"),
    bytes "║ Memory: " ++ (decimal vmMemBytes ++ bytes " bytes (64.00 MB)"),
    bytes "║ Registers: 256",
    bytes "║ Start PC: 0x" ++ upperHex 8 vm.pcStart.toNat,
    bytes "╚" ++ (rule "═" 63 ++ bytes "╝"), []]

/-- The summary that `close_logging` prints. -/
def closeLogging (l : LogState) (vm : VmState) : List (List UInt8) :=
  [[], bytes "╔" ++ (rule "═" 63 ++ bytes "╗"),
    bytes "║ Execution Summary",
    bytes "╠" ++ (rule "═" 63 ++ bytes "╣"),
    bytes "║ Total instructions executed: " ++ decimal l.instructionCount.toNat,
    bytes "║ Final PC: 0x" ++ upperHex 8 vm.pc.toNat,
    bytes "╚" ++ (rule "═" 63 ++ bytes "╝")]

/-- The lines at the beginning of a cycle, for the state behind them. -/
def cycleStartLines (vm : VmState) : List (List UInt8) :=
  [[], bytes "=== CYCLE " ++ (decimal vm.cycleCount.toNat ++ (bytes " START (time_ms=" ++
      (decimal vm.timeMs.toNat ++ bytes ") ==="))),
    bytes "Registers hash at start: 0x" ++
      upperHex 8 (calculateRegistersHash vm.reg vm.config.hashAlgo).toNat] ++
    if vm.config.enableHashCheck && vm.cycleCount == 1 then
      [bytes "Initialized prev_cycle_hash = 0x" ++ upperHex 8 vm.prevCycleHash.toNat]
    else []

/-- The lines at the head of `vm_run_module`. -/
def moduleLines (mod : ModuleInfo) : List (List UInt8) :=
  [[], bytes "--- Executing module: " ++ (mod.name ++ (bytes " (0x" ++ (hex mod.addr.toNat ++
    bytes ") ---")))]

/-- The line that `vm_run_instruction` prints for an outcome without an instruction. -/
def outcomeLines (mod : ModuleInfo) (pc : UInt32) : Option Outcome → List (List UInt8)
  | some .completed =>
    [bytes "INFO: Module " ++ (mod.name ++ (bytes " completed (PC=0x" ++ (hex pc.toNat ++
      bytes ")")))]
  | some .endOfModule =>
    [bytes "INFO: End of module " ++ (mod.name ++ (bytes " at PC=0x" ++ hex pc.toNat))]
  | _ => []

/-- The last line of `vm_run_module`. -/
def moduleEndLine (mod : ModuleInfo) (count : ℕ) : List UInt8 :=
  bytes "Module " ++ (mod.name ++ (bytes ": executed " ++ (decimal count ++
    bytes " instructions")))

/-- The lines at the end of a cycle that started at `startMs`, when the clock shows `now`. -/
def cycleEndLines (startMs : UInt64) (l : LogState) (now : Timespec) (vm : VmState) :
    List (List UInt8) :=
  let after := (cycleTail startMs vm).1
  let report := (cycleTail startMs vm).2
  let elapsed := decimalInt (vmGetElapsedMs l.cycleStart now).toInt
  (if report.hashMismatch then
    [bytes "!!! HASH MISMATCH: Previous 0x" ++ (upperHex 8 vm.prevCycleHash.toNat ++
      (bytes ", current 0x" ++ upperHex 8 after.prevCycleHash.toNat))]
  else []) ++
    ((if report.programMismatch then [bytes "!!! PROGRAM MEMORY HASH MISMATCH"] else []) ++
      [bytes "Registers hash at end: 0x" ++ upperHex 8 after.prevCycleHash.toNat,
        bytes "time_ms at end: " ++ (decimal after.timeMs.toNat ++ (bytes " (delta: " ++
          (decimal (after.timeMs - startMs).toNat ++ bytes " ms)"))),
        bytes "VM elapsed this cycle: " ++ (elapsed ++ bytes " ms"),
        bytes "=== CYCLE " ++ (decimal vm.cycleCount.toNat ++ (bytes " END: " ++
          (decimal l.totalInstrCount.toNat ++ (bytes " instructions in " ++
            (elapsed ++ bytes " ms ===")))))])

/-! ### What a run writes -/

/-- The lines of a step that executes no instruction. -/
def otherLines (c : Config) (l : LogState) (e : Env) : List (List UInt8) :=
  match c.ctl with
  | .top =>
    let (vm, stops) := cycleTop e.vmStopRequested c.vm
    if stops then closeLogging l vm else cycleStartLines vm
  | .module idx _ => (c.vm.modules[idx]?.map moduleLines).getD []
  | .instr _ mod count _ =>
    outcomeLines mod c.vm.pc (outcome vmDecodeInstruction c e) ++ [moduleEndLine mod count]
  | .tail startMs => cycleEndLines startMs l e.host.monotonic c.vm
  | _ => []

/-- The lines of a step. -/
def stepLines (c : Config) (l : LogState) (e : Env) : List (List UInt8) :=
  match loggedStep c e with
  | some x => x.lines (l.instructionCount + 1)
  | none => otherLines c l e

/-- What the lines behind a step refer to. -/
def LogState.next (l : LogState) (c : Config) (e : Env) : LogState :=
  match c.ctl with
  | .top => { l with totalInstrCount := 0, cycleStart := e.host.monotonic }
  | _ =>
    match loggedStep c e with
    | some _ =>
      { l with
        instructionCount := l.instructionCount + 1, totalInstrCount := l.totalInstrCount + 1 }
    | none => l

/-- The lines of the loop of `run_program`. -/
def runLines (c : Config) (l : LogState) : List Env → List (List UInt8)
  | [] => []
  | e :: es => stepLines c l e ++ runLines (step vmDecodeInstruction c e) (l.next c e) es

/-- The text that `run_program` has written to the log. -/
def vmLog (date : List UInt8) (h : Host) (vm : VmState) (es : List Env) : List UInt8 :=
  unlines (initLogging date vm ++ runLines (start h vm) ⟨0, 0, h.monotonic⟩ es)

/-! ### No newline in a line -/

section Newlines

@[simp] lemma newline_not_mem_decimal (n : ℕ) : 10 ∉ decimal n := fun h =>
  (isPlain_of_mem_decimal 10 h).2.1 rfl

@[simp] lemma newline_not_mem_upperHex (n x : ℕ) : 10 ∉ upperHex n x := fun h =>
  (isPlain_of_mem_upperHex 10 h).2.1 rfl

@[simp] lemma newline_not_mem_decimalInt (z : ℤ) : 10 ∉ decimalInt z := fun h =>
  (isPlain_of_mem_decimalInt 10 h).2.1 rfl

@[simp] lemma newline_not_mem_rule {c : String} (hc : 10 ∉ bytes c) (n : ℕ) : 10 ∉ rule c n := by
  intro h
  obtain ⟨l, hl, hmem⟩ := List.mem_flatten.1 h
  rw [(List.mem_replicate.1 hl).2] at hmem
  exact hc hmem

lemma newline_not_mem_fprintfBinary (num : UInt32) : 10 ∉ fprintfBinary num := by
  intro h
  obtain ⟨c, -, hc⟩ := List.mem_flatMap.1 h
  rcases List.mem_append.1 hc with hc | hc
  · split_ifs at hc
    · exact absurd (List.mem_singleton.1 hc) (by decide)
    · exact absurd hc List.not_mem_nil
  · exact newline_not_mem_decimal _ hc

/-- Padding with a character that is no newline. -/
lemma newline_not_mem_replicate {n : ℕ} {c : UInt8} (hc : 10 ≠ c) : 10 ∉ List.replicate n c :=
  fun h => hc (List.mem_replicate.1 h).2

lemma newline_not_mem_operandLine (reg : UInt8 → UInt32) (r : UInt8) {name : String}
    (hname : 10 ∉ bytes name) : 10 ∉ operandLine reg r name := by
  simp only [operandLine, padLeft, List.mem_append, not_or]
  exact ⟨by decide, newline_not_mem_decimal _, by decide, hname, by decide,
    newline_not_mem_upperHex _ _, by decide,
    ⟨newline_not_mem_replicate (by decide), newline_not_mem_decimal _⟩, by decide⟩

lemma newline_not_mem_operandCLine (reg : UInt8 → UInt32) (instr : UInt32) :
    10 ∉ operandCLine reg instr := by
  rw [operandCLine]
  split_ifs
  · simp only [List.mem_append, not_or]
    exact ⟨by decide, newline_not_mem_decimalInt _, by decide, newline_not_mem_upperHex _ _,
      by decide⟩
  · exact newline_not_mem_operandLine _ _ (by decide)

lemma newline_not_mem_regChangeLine (d : Delta UInt8 UInt32) : 10 ∉ regChangeLine d := by
  simp only [regChangeLine, zeroPad, List.mem_append, not_or]
  exact ⟨by decide, ⟨newline_not_mem_replicate (by decide), newline_not_mem_decimal _⟩, by decide,
    newline_not_mem_upperHex _ _, by decide, newline_not_mem_upperHex _ _, List.not_mem_nil⟩

/-- A byte is printed as a character only if it is printable, and a newline is not. -/
lemma newline_not_mem_memChangeLine (d : Delta (Fin memLogSize) UInt8) :
    10 ∉ memChangeLine d := by
  have hchar : 10 ∉ [if isPrint d.new then d.new else 46] := by
    rw [List.mem_singleton]
    split_ifs with hprint
    · intro heq
      rw [← heq] at hprint
      exact absurd hprint (by decide)
    · decide
  simp only [memChangeLine, List.mem_append, not_or]
  exact ⟨by decide, newline_not_mem_upperHex _ _, by decide, newline_not_mem_upperHex _ _,
    by decide, newline_not_mem_upperHex _ _, ⟨by decide, hchar⟩, by decide⟩

/-- What holds of the lines about changes and of the two lines without a change. -/
lemma forall_mem_changeSection {P : List UInt8 → Prop} {absent header : String}
    {changes : List (List UInt8)} (habsent : P (bytes absent)) (hheader : P (bytes header))
    (hchanges : ∀ l ∈ changes, P l) : ∀ l ∈ changeSection absent header changes, P l := by
  rw [changeSection]
  split_ifs
  · exact List.forall_mem_singleton.2 habsent
  · exact List.forall_mem_cons.2 ⟨hheader, hchanges⟩

lemma newline_not_mem_logBefore {n : UInt64} {pc instr : UInt32} {reg : UInt8 → UInt32}
    (hop : (instrOpcode instr).toNat < 68) : ∀ l ∈ logBefore n pc instr reg, 10 ∉ l := by
  have hinstr : 10 ∉ fprintfInst instr := fun h => (mem_fprintfInst hop 10 h).2.1 rfl
  simp only [logBefore, logInstruction, List.cons_append, List.nil_append, List.forall_mem_cons,
    List.not_mem_nil, false_imp_iff, implies_true, and_true, List.mem_append, not_or]
  exact ⟨⟨by decide, newline_not_mem_decimal _, by decide, newline_not_mem_rule (by decide) _⟩,
    ⟨by decide, newline_not_mem_upperHex _ _⟩, ⟨by decide, hinstr⟩,
    ⟨by decide, newline_not_mem_fprintfBinary _⟩, by decide, by decide,
    newline_not_mem_operandLine _ _ (by decide), newline_not_mem_operandLine _ _ (by decide),
    newline_not_mem_operandCLine _ _⟩

lemma newline_not_mem_logEnd (prevPc pc : UInt32) : ∀ l ∈ logEnd prevPc pc, 10 ∉ l := by
  have hpc : 10 ∉ if prevPc ≠ pc then
      bytes "│ PC changed: 0x" ++ (upperHex 8 prevPc.toNat ++ (bytes " -> 0x" ++
        upperHex 8 pc.toNat))
      else bytes "│ PC: 0x" ++ upperHex 8 pc.toNat := by
    split_ifs
    · simp only [List.mem_append, not_or]
      exact ⟨by decide, newline_not_mem_upperHex _ _, by decide, newline_not_mem_upperHex _ _⟩
    · simp only [List.mem_append, not_or]
      exact ⟨by decide, newline_not_mem_upperHex _ _⟩
  simp only [logEnd, List.forall_mem_cons, List.not_mem_nil, false_imp_iff, implies_true, and_true]
  refine ⟨by decide, hpc, fun h => ?_, not_false⟩
  rcases List.mem_append.1 h with h | h
  · exact absurd h (by decide)
  · exact newline_not_mem_rule (by decide) _ h

/-- No line of a block holds a newline. -/
lemma LoggedStep.newline_not_mem {n : UInt64} {x : LoggedStep}
    (hop : (instrOpcode x.instr).toNat < 68) : ∀ l ∈ x.lines n, 10 ∉ l := by
  have hregs : ∀ l ∈ (regDeltas x.reg x.reg').map regChangeLine, 10 ∉ l := by
    intro l hl
    obtain ⟨d, -, rfl⟩ := List.mem_map.1 hl
    exact newline_not_mem_regChangeLine d
  have hmems : ∀ l ∈ (memDeltas x.mem x.mem').map memChangeLine, 10 ∉ l := by
    intro l hl
    obtain ⟨d, -, rfl⟩ := List.mem_map.1 hl
    exact newline_not_mem_memChangeLine d
  rw [LoggedStep.lines, List.forall_mem_append, logAfter, List.forall_mem_cons,
    List.forall_mem_append, List.forall_mem_append]
  exact ⟨newline_not_mem_logBefore hop, by decide,
    forall_mem_changeSection (by decide) (by decide) hregs,
    forall_mem_changeSection (by decide) (by decide +kernel) hmems,
    newline_not_mem_logEnd _ _⟩

end Newlines

/-! ### The lines outside the blocks -/

/-- The two bytes with which the characters begin that a block is drawn with. -/
def boxLead : List UInt8 := [226, 148]

/-- A line that does not look like one of a block. -/
structure OffBlock (l : List UInt8) : Prop where
  outside : expect boxLead l = none
  newline : 10 ∉ l

/-- No module has a newline in its name. -/
def PlainNames (vm : VmState) : Prop := ∀ mod ∈ vm.modules, 10 ∉ mod.name

instance (vm : VmState) : Decidable (PlainNames vm) :=
  inferInstanceAs (Decidable (∀ mod ∈ vm.modules, 10 ∉ mod.name))

section OffBlock

variable {p s : List UInt8} {date : List UInt8} {vm : VmState} {mod : ModuleInfo} {c : Config}
  {l : LogState} {e : Env}

lemma offBlock_nil : OffBlock [] := ⟨rfl, List.not_mem_nil⟩

/-- A line is known by its first characters. -/
lemma offBlock_append (hp : Clash boxLead p) (hs : 10 ∉ p ++ s) : OffBlock (p ++ s) :=
  ⟨hp.expect_eq_none s, hs⟩

@[simp] lemma newline_not_mem_hex (x : ℕ) : 10 ∉ hex x := newline_not_mem_upperHex _ _

lemma offBlock_of_mem_initLogging (hdate : 10 ∉ date) : ∀ x ∈ initLogging date vm, OffBlock x := by
  simp only [initLogging, List.forall_mem_cons, List.not_mem_nil, false_imp_iff, implies_true,
    and_true]
  exact ⟨offBlock_append (by decide) (by simp +decide),
    offBlock_append (by decide) (by simp +decide [hdate]),
    offBlock_append (by decide) (by simp +decide),
    offBlock_append (by decide) (by simp +decide), ⟨by decide, by decide⟩,
    offBlock_append (by decide) (by simp +decide),
    offBlock_append (by decide) (by simp +decide), offBlock_nil⟩

lemma offBlock_of_mem_closeLogging : ∀ x ∈ closeLogging l vm, OffBlock x := by
  simp only [closeLogging, List.forall_mem_cons, List.not_mem_nil, false_imp_iff, implies_true,
    and_true]
  exact ⟨offBlock_nil, offBlock_append (by decide) (by simp +decide), ⟨by decide, by decide⟩,
    offBlock_append (by decide) (by simp +decide), offBlock_append (by decide) (by simp +decide),
    offBlock_append (by decide) (by simp +decide), offBlock_append (by decide) (by simp +decide)⟩

lemma offBlock_of_mem_cycleStartLines : ∀ x ∈ cycleStartLines vm, OffBlock x := by
  rw [cycleStartLines, List.forall_mem_append]
  refine ⟨?_, ?_⟩
  · simp only [List.forall_mem_cons, List.not_mem_nil, false_imp_iff, implies_true, and_true]
    exact ⟨offBlock_nil, offBlock_append (by decide) (by simp +decide),
      offBlock_append (by decide) (by simp +decide)⟩
  · split_ifs
    · exact List.forall_mem_singleton.2 (offBlock_append (by decide) (by simp +decide))
    · exact List.forall_mem_nil _

lemma offBlock_of_mem_moduleLines (hname : 10 ∉ mod.name) :
    ∀ x ∈ moduleLines mod, OffBlock x := by
  simp only [moduleLines, List.forall_mem_cons, List.not_mem_nil, false_imp_iff, implies_true,
    and_true]
  exact ⟨offBlock_nil, offBlock_append (by decide) (by simp +decide [hname])⟩

lemma offBlock_of_mem_outcomeLines (hname : 10 ∉ mod.name) (pc : UInt32) (o : Option Outcome) :
    ∀ x ∈ outcomeLines mod pc o, OffBlock x := by
  cases o with
  | none => exact List.forall_mem_nil _
  | some o =>
    cases o with
    | completed =>
      exact List.forall_mem_singleton.2 (offBlock_append (by decide) (by simp +decide [hname]))
    | endOfModule =>
      exact List.forall_mem_singleton.2 (offBlock_append (by decide) (by simp +decide [hname]))
    | _ => exact List.forall_mem_nil _

lemma offBlock_moduleEndLine (hname : 10 ∉ mod.name) (count : ℕ) :
    OffBlock (moduleEndLine mod count) :=
  offBlock_append (by decide) (by simp +decide [hname])

lemma offBlock_of_mem_cycleEndLines (startMs : UInt64) (now : Timespec) :
    ∀ x ∈ cycleEndLines startMs l now vm, OffBlock x := by
  simp only [cycleEndLines, List.forall_mem_append]
  refine ⟨?_, ?_, ?_⟩
  · split_ifs
    · exact List.forall_mem_singleton.2 (offBlock_append (by decide) (by simp +decide))
    · exact List.forall_mem_nil _
  · split_ifs
    · exact List.forall_mem_singleton.2 ⟨by decide, by decide⟩
    · exact List.forall_mem_nil _
  · simp only [List.forall_mem_cons, List.not_mem_nil, false_imp_iff, implies_true, and_true]
    exact ⟨offBlock_append (by decide) (by simp +decide),
      offBlock_append (by decide) (by simp +decide),
      offBlock_append (by decide) (by simp +decide),
      offBlock_append (by decide) (by simp +decide)⟩

/-- Every line that belongs to no instruction is outside the blocks. -/
lemma offBlock_of_mem_otherLines (hnames : PlainNames c.vm)
    (hname : ∀ idx mod count startMs, c.ctl = .instr idx mod count startMs → 10 ∉ mod.name) :
    ∀ x ∈ otherLines c l e, OffBlock x := by
  obtain ⟨vm, ctl⟩ := c
  cases ctl with
  | top =>
    simp only [otherLines]
    split_ifs
    · exact offBlock_of_mem_closeLogging
    · exact offBlock_of_mem_cycleStartLines
  | module idx startMs =>
    simp only [otherLines]
    cases hmod : vm.modules[idx]? with
    | none => exact List.forall_mem_nil _
    | some mod => exact offBlock_of_mem_moduleLines (hnames mod (List.mem_of_getElem? hmod))
  | instr idx mod count startMs =>
    have hmod := hname idx mod count startMs rfl
    simp only [otherLines, List.forall_mem_append]
    exact ⟨offBlock_of_mem_outcomeLines hmod _ _,
      List.forall_mem_singleton.2 (offBlock_moduleEndLine hmod _)⟩
  | tail startMs => exact offBlock_of_mem_cycleEndLines startMs _
  | poll => exact List.forall_mem_nil _
  | reload => exact List.forall_mem_nil _
  | finished => exact List.forall_mem_nil _

end OffBlock

/-! ### Reading the text -/

/-- A reader of lines that finds `items x` in the block of the instruction `x` and passes over the
other lines. -/
structure BlockReader {δ : Type*} (read : List (List UInt8) → List δ)
    (items : LoggedStep → List δ) : Prop where
  nil : read [] = []
  offBlock : ∀ {l : List UInt8} (ls : List (List UInt8)), OffBlock l → read (l :: ls) = read ls
  block : ∀ {x : LoggedStep} (n : UInt64) (ls : List (List UInt8)),
    (instrOpcode x.instr).toNat < 68 → read (x.lines n ++ ls) = items x ++ read ls

section Reading

variable {c : Config} {e : Env} {x : LoggedStep}

/-- What is logged is the state before and after a handler. -/
lemma loggedStep_some (hlog : loggedStep c e = some x) :
    (opc x.instr).toNat < 68 ∧
      (x.reg = c.vm.reg ∧ x.reg' = (step vmDecodeInstruction c e).vm.reg) ∧
      x.mem = c.vm.mem ∧ x.mem' = (step vmDecodeInstruction c e).vm.mem := by
  rw [loggedStep] at hlog
  split at hlog
  · next pc instr raw hout =>
    obtain rfl := Option.some.inj hlog
    refine ⟨?_, ⟨rfl, rfl⟩, rfl, rfl⟩
    obtain ⟨vm, ctl⟩ := c
    cases ctl with
    | instr idx mod count startMs =>
      simp only [outcome] at hout
      split_ifs at hout
      obtain ⟨op, k, hop, -⟩ := runInstruction_executed (Option.some.inj hout)
      exact (List.getElem?_eq_some_iff.1 hop).1
    | _ => cases hout
  · cases hlog

/-- A step that starts or goes on with a module takes its name from the module table. -/
lemma name_step (hnames : PlainNames c.vm)
    (hname : ∀ idx mod count startMs, c.ctl = .instr idx mod count startMs → 10 ∉ mod.name) :
    ∀ idx mod count startMs, (step vmDecodeInstruction c e).ctl = .instr idx mod count startMs →
      10 ∉ mod.name := by
  intro idx mod count startMs hnext
  obtain ⟨vm, ctl⟩ := c
  cases ctl with
  | module i s =>
    simp only [step] at hnext
    split at hnext
    · cases hnext
    · next m hmod =>
      cases hnext
      exact hnames _ (List.mem_of_getElem? hmod)
  | instr i m k s =>
    simp only [step] at hnext
    split_ifs at hnext
    generalize (runInstruction vmDecodeInstruction e.host vm m (moduleEnd m)).2 = o at hnext
    cases o with
    | executed =>
      cases hnext
      exact hname _ _ _ _ rfl
    | _ => cases hnext
  | top =>
    simp only [step] at hnext
    split_ifs at hnext
  | _ => cases hnext

variable {δ : Type*} {read : List (List UInt8) → List δ} {items : LoggedStep → List δ}

lemma BlockReader.append (hread : BlockReader read items) {ls : List (List UInt8)}
    (hls : ∀ l ∈ ls, OffBlock l) (rest : List (List UInt8)) : read (ls ++ rest) = read rest := by
  induction ls with
  | nil => rfl
  | cons l ls ih =>
    rw [List.forall_mem_cons] at hls
    rw [List.cons_append, hread.offBlock _ hls.1, ih hls.2]

/-- The lines of a run, for a reader of blocks. -/
lemma runLines_spec (hread : BlockReader read items) {es : List Env} (l : LogState)
    (rest : List (List UInt8))
    (hname : ∀ idx mod count startMs, c.ctl = .instr idx mod count startMs → 10 ∉ mod.name)
    (hnames : Along (step vmDecodeInstruction) (fun c _ => PlainNames c.vm) c es) :
    (∀ x ∈ runLines c l es, 10 ∉ x) ∧
      read (runLines c l es ++ rest) =
        (trace (step vmDecodeInstruction) loggedStep c es).flatMap items ++ read rest := by
  induction es generalizing c l with
  | nil => exact ⟨List.forall_mem_nil _, rfl⟩
  | cons e es ih =>
    obtain ⟨hlines, hrest⟩ := ih (l.next c e) (name_step hnames.1 hname) hnames.2
    rw [runLines, List.forall_mem_append, List.append_assoc, trace_cons, List.flatMap_append,
      stepLines]
    cases hlog : loggedStep c e with
    | none =>
      have hoff := @offBlock_of_mem_otherLines c l e hnames.1 hname
      exact ⟨⟨fun x hx => (hoff x hx).newline, hlines⟩, (hread.append hoff _).trans hrest⟩
    | some x =>
      have hop := (loggedStep_some hlog).1
      refine ⟨⟨x.newline_not_mem hop, hlines⟩, ?_⟩
      rw [hread.block _ _ hop, hrest, Option.toList_some, List.flatMap_singleton,
        List.append_assoc]

/-- A reader of blocks finds in the text of the log what belongs to the instructions of the run. -/
theorem BlockReader.read_vmLog (hread : BlockReader read items) {date : List UInt8} {h : Host}
    {vm : VmState} {es : List Env} (hdate : 10 ∉ date)
    (hnames : Along (step vmDecodeInstruction) (fun c _ => PlainNames c.vm) (start h vm) es) :
    read ((vmLog date h vm es).splitOn 10) =
      (trace (step vmDecodeInstruction) loggedStep (start h vm) es).flatMap items := by
  have hinit : ∀ x ∈ initLogging date vm, OffBlock x := offBlock_of_mem_initLogging hdate
  have hstart : ∀ idx mod count startMs,
      (start h vm).ctl = .instr idx mod count startMs → 10 ∉ mod.name := fun _ _ _ _ h => by cases h
  obtain ⟨hlines, hrun⟩ := runLines_spec hread ⟨0, 0, h.monotonic⟩ [[]] hstart hnames
  have hnewline : ∀ x ∈ initLogging date vm ++ runLines (start h vm) ⟨0, 0, h.monotonic⟩ es,
      10 ∉ x :=
    List.forall_mem_append.2 ⟨fun x hx => (hinit x hx).newline, hlines⟩
  rw [vmLog, splitOn_unlines hnewline, List.append_assoc, hread.append hinit, hrun,
    hread.offBlock _ offBlock_nil, hread.nil, List.append_nil]

end Reading

end Vm32
