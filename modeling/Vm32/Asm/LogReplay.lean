/-
# Replaying the log

No instruction is left out of the log and nothing else changes a register, so the lines about
changes are a complete history: read back from the text of the log, they lead from the registers at
the start to those at the end, and from the end back to the start.
-/
import Vm32.Asm.Log
import Vm32.Asm.StraightLine
import Vm32.Vm.Integrity

namespace Vm32

open CText Deltas LabelledRun

/-! ### Changes in a text -/

/-- How a change is written: what stands before the index, the base and the width of the index,
what stands behind it, and the width of the two values. -/
structure ChangeFormat where
  lead : List UInt8
  base : ℕ
  idxWidth : ℕ
  mid : List UInt8
  width : ℕ

/-- The index and the two values in a line. -/
def ChangeFormat.read (F : ChangeFormat) (line : List UInt8) : Option (Delta ℕ ℕ) := do
  let s ← expect F.lead line
  let (idx, s) ← field F.base F.idxWidth s
  let s ← expect F.mid s
  let (old, s) ← field 16 F.width s
  let s ← expect (bytes " -> 0x") s
  let (new, _) ← field 16 F.width s
  return ⟨idx, old, new⟩

/-- The lines about registers. -/
def regFormat : ChangeFormat := ⟨bytes "│   R", 10, 3, bytes ": 0x", 8⟩

/-- The lines about memory. -/
def memFormat : ChangeFormat := ⟨bytes "│   [0x", 16, 8, bytes "]: 0x", 2⟩

def readReg (line : List UInt8) : Option (Delta UInt8 UInt32) :=
  (regFormat.read line).map fun d => ⟨UInt8.ofNat d.idx, UInt32.ofNat d.old, UInt32.ofNat d.new⟩

def readMem (line : List UInt8) : Option (Delta (Fin memLogSize) UInt8) :=
  (memFormat.read line).map fun d =>
    ⟨Fin.ofNat memLogSize d.idx, UInt8.ofNat d.old, UInt8.ofNat d.new⟩

/-- The changes of registers in a log. -/
def readRegs (text : List UInt8) : List (Delta UInt8 UInt32) := (text.splitOn 10).filterMap readReg

/-- The changes of memory in a log. -/
def readMems (text : List UInt8) : List (Delta (Fin memLogSize) UInt8) :=
  (text.splitOn 10).filterMap readMem

/-! ### One line -/

section Lines

variable {F : ChangeFormat} {line : List UInt8}

lemma ChangeFormat.read_eq_none (h : expect F.lead line = none) : F.read line = none := by
  rw [ChangeFormat.read, h]
  rfl

/-- A line that begins in another way is no line of the format. -/
lemma ChangeFormat.read_of_clash {q : List UInt8} (h : Clash F.lead q) (s : List UInt8) :
    F.read (q ++ s) = none :=
  ChangeFormat.read_eq_none (h.expect_eq_none s)

/-- A line of the format. -/
lemma ChangeFormat.read_of_fields {t s : List UInt8} {idx old new : ℕ}
    (hlen : t.length = F.idxWidth) (hdigits : ∀ c ∈ t, digitVal c < F.base)
    (hidx : numeral F.base t = idx) (hold : old < 16 ^ F.width) (hnew : new < 16 ^ F.width) :
    F.read (F.lead ++ (t ++ (F.mid ++ (upperHex F.width old ++ (bytes " -> 0x" ++
      (upperHex F.width new ++ s)))))) = some ⟨idx, old, new⟩ := by
  simp only [ChangeFormat.read, expect_append, Option.bind_eq_bind, Option.bind_some,
    field_append hlen hdigits, field_upperHex, hidx, Nat.mod_eq_of_lt hold, Nat.mod_eq_of_lt hnew]
  rfl

/-- The index of a register has three digits. -/
lemma zeroPad_decimal : ∀ i < 256, (zeroPad 3 (decimal i)).length = 3 ∧
    (∀ c ∈ zeroPad 3 (decimal i), digitVal c < 10) ∧ numeral 10 (zeroPad 3 (decimal i)) = i := by
  decide +kernel

/-- The line about a register is read back. -/
lemma readReg_regChangeLine (d : Delta UInt8 UInt32) : readReg (regChangeLine d) = some d := by
  obtain ⟨hlen, hdigits, hvalue⟩ := zeroPad_decimal d.idx.toNat d.idx.toNat_lt
  have hread : regFormat.read (regChangeLine d) = some ⟨d.idx.toNat, d.old.toNat, d.new.toNat⟩ :=
    ChangeFormat.read_of_fields (F := regFormat) hlen hdigits hvalue d.old.toNat_lt d.new.toNat_lt
  rw [readReg, hread]
  simp

/-- The line about a byte of memory is read back. -/
lemma readMem_memChangeLine (d : Delta (Fin memLogSize) UInt8) :
    readMem (memChangeLine d) = some d := by
  have hidx : (d.idx : ℕ) < 16 ^ 8 := d.idx.2.trans (by norm_num)
  have hread : memFormat.read (memChangeLine d) = some ⟨d.idx, d.old.toNat, d.new.toNat⟩ :=
    ChangeFormat.read_of_fields (F := memFormat) length_upperHex
      (fun c hc => digitVal_of_mem_upperHex hc)
      (numeral_upperHex.trans (Nat.mod_eq_of_lt hidx)) d.old.toNat_lt d.new.toNat_lt
  rw [readMem, hread]
  simp [Fin.ofNat, Nat.mod_eq_of_lt d.idx.2]

/-! ### The other lines -/

/-- The line of an operand ends in a blank and a letter where the index of a change would go on. -/
lemma regFormat_read_operandLine (reg : UInt8 → UInt32) (r : UInt8) (name : String) :
    regFormat.read (operandLine reg r name) = none := by
  have hopen : bytes " (" = 32 :: [40] := by decide
  have hdigits : ∀ c ∈ decimal r.toNat, digitVal c < 10 := fun c hc => digitVal_of_mem_decimal hc
  have hlen : (decimal r.toNat).length ≤ 3 :=
    length_decimal_le (by decide) (r.toNat_lt.trans (by norm_num))
  simp only [ChangeFormat.read, operandLine, regFormat, expect_append, Option.bind_eq_bind,
    Option.bind_some, hopen, List.cons_append]
  rcases Nat.lt_or_eq_of_le hlen with hlt | heq
  · rw [field_eq_none hlt (by decide)]
    rfl
  · rw [field_append heq hdigits]
    rfl

/-- The line of an instruction begins with the name of its opcode. -/
lemma read_fprintfInst {instr : UInt32} (hop : (instrOpcode instr).toNat < 68) {t : List UInt8}
    (hlead : F.lead = bytes "│ " ++ 32 :: t) : F.read (bytes "│ " ++ fprintfInst instr) = none := by
  refine ChangeFormat.read_eq_none ?_
  rw [hlead, expect_append_left, fprintfInst_eq]
  obtain ⟨c, s, hname⟩ := List.exists_cons_of_ne_nil (opcodeName_ne_nil hop)
  have hspace := (opcodeNames_getElem _ hop).2.2 c (by
    show c ∈ (bytes (opcodeName (instrOpcode instr))).head?
    rw [hname]
    rfl)
  have hne : 32 ≠ c := by
    rintro rfl
    exact absurd hspace (by decide)
  rw [hname, List.cons_append, expect, if_neg hne]

/-- No line of `log_before` is about a change. -/
lemma read_of_mem_logBefore (hF : F = regFormat ∨ F = memFormat) {n : UInt64} {pc instr : UInt32}
    {reg : UInt8 → UInt32} (hop : (instrOpcode instr).toNat < 68) :
    ∀ l ∈ logBefore n pc instr reg, F.read l = none := by
  have hinstr : F.read (bytes "│ " ++ fprintfInst instr) = none := by
    rcases hF with rfl | rfl
    · exact read_fprintfInst hop (t := [32, 82]) (by decide)
    · exact read_fprintfInst hop (t := [32, 91, 48, 120]) (by decide)
  have hoperand : ∀ r name, F.read (operandLine reg r name) = none := by
    intro r name
    rcases hF with rfl | rfl
    · exact regFormat_read_operandLine reg r name
    · exact ChangeFormat.read_of_clash (by decide) _
  have hoperandC : F.read (operandCLine reg instr) = none := by
    rw [operandCLine]
    split_ifs
    · rcases hF with rfl | rfl <;> exact ChangeFormat.read_of_clash (by decide) _
    · exact hoperand _ _
  simp only [logBefore, logInstruction, List.cons_append, List.nil_append, List.forall_mem_cons,
    List.not_mem_nil, false_imp_iff, implies_true, and_true]
  rcases hF with rfl | rfl
  all_goals
    exact ⟨ChangeFormat.read_of_clash (by decide) _, ChangeFormat.read_of_clash (by decide) _,
      hinstr, ChangeFormat.read_of_clash (by decide) _, by decide, by decide, hoperand _ _,
      hoperand _ _, hoperandC⟩

/-- Neither is one of the last lines of `log_after`. -/
lemma read_of_mem_logEnd (hF : F = regFormat ∨ F = memFormat) {prevPc pc : UInt32} :
    ∀ l ∈ logEnd prevPc pc, F.read l = none := by
  have hpc : F.read (if prevPc ≠ pc then
      bytes "│ PC changed: 0x" ++ (upperHex 8 prevPc.toNat ++ (bytes " -> 0x" ++
        upperHex 8 pc.toNat))
      else bytes "│ PC: 0x" ++ upperHex 8 pc.toNat) = none := by
    split_ifs
    · rcases hF with rfl | rfl <;> exact ChangeFormat.read_of_clash (by decide) _
    · rcases hF with rfl | rfl <;> exact ChangeFormat.read_of_clash (by decide) _
  simp only [logEnd, List.forall_mem_cons, List.not_mem_nil, false_imp_iff, implies_true, and_true]
  refine ⟨?_, hpc, ?_, ?_⟩
  · rcases hF with rfl | rfl <;> decide
  · rcases hF with rfl | rfl <;> exact ChangeFormat.read_of_clash (by decide) _
  · rcases hF with rfl | rfl <;> decide

/-- A line outside the blocks is not about a change. -/
lemma read_of_offBlock (hF : F = regFormat ∨ F = memFormat) (hline : OffBlock line) :
    F.read line = none := by
  have hlead : F.lead = boxLead ++ F.lead.drop 2 := by
    rcases hF with rfl | rfl <;> decide
  refine ChangeFormat.read_eq_none ?_
  rw [hlead]
  exact expect_append_eq_none hline.outside

end Lines

/-! ### A block -/

section Block

variable {δ : Type*} {absent header : String} {line : δ → List UInt8} {ds : List δ}
  {read : List UInt8 → Option δ}

/-- A section gives back the changes that were printed. -/
lemma filterMap_changeSection (habsent : read (bytes absent) = none)
    (hheader : read (bytes header) = none) (hline : ∀ d, read (line d) = some d) :
    (changeSection absent header (ds.map line)).filterMap read = ds := by
  have hlines : (ds.map line).filterMap read = ds := by
    rw [List.filterMap_map]
    exact (List.filterMap_congr fun d _ => hline d).trans List.filterMap_some
  rw [changeSection]
  split_ifs with hnil
  · rw [List.map_eq_nil_iff.1 hnil, List.filterMap_cons, habsent]
    rfl
  · rw [List.filterMap_cons, hheader, hlines]

/-- A section about something else gives nothing. -/
lemma filterMap_changeSection_other {γ : Type*} {read : List UInt8 → Option γ}
    (habsent : read (bytes absent) = none) (hheader : read (bytes header) = none)
    (hline : ∀ d, read (line d) = none) :
    (changeSection absent header (ds.map line)).filterMap read = [] :=
  List.filterMap_eq_nil_iff.2 (forall_mem_changeSection (P := fun l => read l = none) habsent
    hheader (List.forall_mem_map.2 fun d _ => hline d))

lemma readReg_eq_none {l : List UInt8} (h : regFormat.read l = none) : readReg l = none := by
  rw [readReg, h]
  rfl

lemma readMem_eq_none {l : List UInt8} (h : memFormat.read l = none) : readMem l = none := by
  rw [readMem, h]
  rfl

lemma readReg_memChangeLine (d : Delta (Fin memLogSize) UInt8) : readReg (memChangeLine d) = none :=
  readReg_eq_none (ChangeFormat.read_of_clash (by decide) _)

lemma readMem_regChangeLine (d : Delta UInt8 UInt32) : readMem (regChangeLine d) = none :=
  readMem_eq_none (ChangeFormat.read_of_clash (by decide) _)

variable {n : UInt64} {x : LoggedStep} (hop : (instrOpcode x.instr).toNat < 68)
include hop

/-- A block gives back the registers that its instruction has changed. -/
lemma LoggedStep.filterMap_readReg : (x.lines n).filterMap readReg = regDeltas x.reg x.reg' := by
  have hbefore : (logBefore n x.pc x.instr x.reg).filterMap readReg = [] :=
    List.filterMap_eq_nil_iff.2 fun l hl =>
      readReg_eq_none (read_of_mem_logBefore (Or.inl rfl) hop l hl)
  have hend : (logEnd x.pc x.pc').filterMap readReg = [] :=
    List.filterMap_eq_nil_iff.2 fun l hl => readReg_eq_none (read_of_mem_logEnd (Or.inl rfl) l hl)
  have hbar : readReg (bytes "│") = none := by decide
  rw [LoggedStep.lines, List.filterMap_append, hbefore, logAfter, List.filterMap_cons, hbar,
    List.filterMap_append, List.filterMap_append, hend,
    filterMap_changeSection (by decide) (by decide) readReg_regChangeLine,
    filterMap_changeSection_other (by decide) (by decide +kernel) readReg_memChangeLine]
  simp

/-- A block gives back the first bytes of memory that its instruction has changed. -/
lemma LoggedStep.filterMap_readMem : (x.lines n).filterMap readMem = memDeltas x.mem x.mem' := by
  have hbefore : (logBefore n x.pc x.instr x.reg).filterMap readMem = [] :=
    List.filterMap_eq_nil_iff.2 fun l hl =>
      readMem_eq_none (read_of_mem_logBefore (Or.inr rfl) hop l hl)
  have hend : (logEnd x.pc x.pc').filterMap readMem = [] :=
    List.filterMap_eq_nil_iff.2 fun l hl => readMem_eq_none (read_of_mem_logEnd (Or.inr rfl) l hl)
  have hbar : readMem (bytes "│") = none := by decide
  rw [LoggedStep.lines, List.filterMap_append, hbefore, logAfter, List.filterMap_cons, hbar,
    List.filterMap_append, List.filterMap_append, hend,
    filterMap_changeSection (by decide) (by decide +kernel) readMem_memChangeLine,
    filterMap_changeSection_other (by decide) (by decide) readMem_regChangeLine]
  simp

omit hop in
/-- The changes of registers are read block by block. -/
lemma blockReader_readReg :
    BlockReader (List.filterMap readReg) fun x => regDeltas x.reg x.reg' where
  nil := rfl
  offBlock := fun ls hl => by
    rw [List.filterMap_cons, readReg_eq_none (read_of_offBlock (Or.inl rfl) hl)]
  block := fun n ls hop => by rw [List.filterMap_append, LoggedStep.filterMap_readReg hop]

omit hop in
/-- So are those of memory. -/
lemma blockReader_readMem :
    BlockReader (List.filterMap readMem) fun x => memDeltas x.mem x.mem' where
  nil := rfl
  offBlock := fun ls hl => by
    rw [List.filterMap_cons, readMem_eq_none (read_of_offBlock (Or.inr rfl) hl)]
  block := fun n ls hop => by rw [List.filterMap_append, LoggedStep.filterMap_readMem hop]

end Block

/-! ### Runs -/

section Runs

variable {c : Config} {e : Env} {x : LoggedStep}

lemma not_executed_of_loggedStep (hlog : loggedStep c e = none) (pc instr raw : UInt32) :
    outcome vmDecodeInstruction c e ≠ some (.executed pc instr raw) := by
  intro hout
  rw [loggedStep, hout] at hlog
  cases hlog

lemma mem_registers (r : UInt8) : r ∈ (List.range 256).map UInt8.ofNat :=
  List.mem_map.2 ⟨r.toNat, List.mem_range.2 r.toNat_lt, UInt8.ofNat_toNat⟩

/-- A step changes the registers by what it logs. -/
lemma step_regDeltas (c : Config) (e : Env) :
    redo c.vm.reg ((loggedStep c e).toList.flatMap fun x => regDeltas x.reg x.reg') =
        (step vmDecodeInstruction c e).vm.reg ∧
      undo (step vmDecodeInstruction c e).vm.reg
        ((loggedStep c e).toList.flatMap fun x => regDeltas x.reg x.reg') = c.vm.reg := by
  cases hlog : loggedStep c e with
  | none =>
    have hkeep : (step vmDecodeInstruction c e).vm.reg = c.vm.reg :=
      offLoop_reg.step fun pc instr raw op hout =>
        absurd hout (not_executed_of_loggedStep hlog pc instr raw)
    exact ⟨hkeep.symm, hkeep⟩
  | some x =>
    obtain ⟨-, ⟨hreg, hreg'⟩, -⟩ := loggedStep_some hlog
    rw [← hreg, ← hreg', Option.toList_some, List.flatMap_singleton]
    exact ⟨redo_deltas mem_registers, undo_deltas mem_registers⟩

/-! The first bytes of memory -/

/-- A load writes from its start on. -/
lemma loadLoop_mem_of_lt {files : List NamedFile} {p : UInt32} {vm : VmState} {a : ℕ}
    (ha : a < p.toNat) : (loadLoop files p vm).1.mem a = vm.mem a := by
  induction files generalizing p vm with
  | nil => rfl
  | cons f fs ih =>
    have hread : overlay vm.mem p.toNat f.file.bytes a = vm.mem a :=
      overlay_of_not_mem vm.mem fun h => absurd h.1 (Nat.not_le.2 ha)
    simp only [loadLoop]
    split_ifs with hopens hseeks hzero hfits hshort
    · rfl
    · rfl
    · exact ih ha
    · rfl
    · exact hread
    · -- the file has been read whole, so the next one starts behind it
      have hlen : f.file.bytes.length < 2 ^ 63 :=
        (List.length_take_le' _ _).trans_lt f.file.length_data
      rw [not_not] at hshort
      rw [Nat.not_lt, UInt64.toNat_add, ← hshort, UInt32.toNat_toUInt64] at hfits
      have hp := p.toNat_lt
      have hbound : vmMemBytes < 2 ^ 32 := by decide
      have hnext : (p + UInt32.ofNat f.file.bytes.length).toNat =
          p.toNat + f.file.bytes.length := by
        rw [UInt32.toNat_add, UInt32.toNat_ofNat']
        omega
      exact (ih (by omega)).trans hread

lemma loadPrograms_mem_of_lt {files : List NamedFile} {vm : VmState} {a : ℕ}
    (ha : a < vm.pcStart.toNat) : (loadPrograms vm files).1.mem a = vm.mem a := by
  by_cases hne : files = []
  · rw [hne]
    rfl
  · rw [loadPrograms_eq hne]
    split_ifs
    · exact overlay_of_not_mem vm.mem fun h => absurd h.1 (Nat.not_le.2 ha)
    · exact @loadLoop_mem_of_lt files vm.pcStart (forgetProgram vm) a ha

/-- A reload leaves the memory before the program alone. -/
lemma applyPendingReload_mem_of_lt {vm : VmState} {a : ℕ} (ha : a < vm.pcStart.toNat) (d : Dir) :
    (applyPendingReload vm d).mem a = vm.mem a := by
  cases hdir : vm.programDir with
  | none => rw [applyPendingReload_of_idle (Or.inl hdir)]
  | some dir =>
    cases hpending : vm.reloadPending with
    | false => rw [applyPendingReload_of_idle (Or.inr hpending)]
    | true =>
      have hload := @loadPrograms_mem_of_lt (reloadFiles dir d) (vm.setReloadPending false) a ha
      rw [applyPendingReload_of_pending hdir hpending, reloadProgramsFromDirectory_eq]
      split_ifs <;> exact hload

lemma step_pcStart (c : Config) (e : Env) :
    (step vmDecodeInstruction c e).vm.pcStart = c.vm.pcStart := by
  have hoff : OffLoop VmState.pcStart :=
    ⟨fun _ _ _ => rfl, fun _ _ _ _ _ _ => rfl, fun _ _ _ _ => rfl, fun _ _ _ _ _ _ => rfl,
      fun _ _ _ => rfl⟩
  exact hoff.step fun _ _ raw _ _ hop vm => congrArg Frame.pcStart (opEx_settled hop e.host vm raw)

/-- A step that logs nothing leaves the first bytes of memory alone. -/
lemma lowMem_of_not_logged (hstart : memLogSize ≤ c.vm.pcStart.toNat)
    (hlog : loggedStep c e = none) :
    lowMem (step vmDecodeInstruction c e).vm.mem = lowMem c.vm.mem := by
  have hnot := not_executed_of_loggedStep hlog
  obtain ⟨vm, ctl⟩ := c
  by_cases hctl : ∃ idx mod count startMs, ctl = .instr idx mod count startMs
  · obtain ⟨idx, mod, count, startMs, rfl⟩ := hctl
    simp only [outcome] at hnot
    simp only [step]
    split_ifs at hnot ⊢
    · refine runInstruction_keeps (f := fun vm => lowMem vm.mem) (fun _ _ _ _ _ _ => rfl) ?_
      intro pc instr raw op hout
      exact absurd (congrArg some hout) (hnot pc instr raw)
    · rfl
  · by_cases hreload : ctl = .reload
    · subst hreload
      ext i
      exact congrArg UInt8.toNat
        (applyPendingReload_mem_of_lt (i.2.trans_le hstart) e.dir)
    · have hquiet : NoReload ⟨vm, ctl⟩ e := fun h => absurd h hreload
      have hkeep := step_leaves_programs hquiet
        (fun idx mod count startMs h => hctl ⟨idx, mod, count, startMs, h⟩) vmDecodeInstruction
      exact congrArg lowMem hkeep.1

/-- A step changes the first bytes of memory by what it logs. -/
lemma step_memDeltas (hstart : memLogSize ≤ c.vm.pcStart.toNat) :
    redo (lowMem c.vm.mem) ((loggedStep c e).toList.flatMap fun x => memDeltas x.mem x.mem') =
        lowMem (step vmDecodeInstruction c e).vm.mem ∧
      undo (lowMem (step vmDecodeInstruction c e).vm.mem)
        ((loggedStep c e).toList.flatMap fun x => memDeltas x.mem x.mem') = lowMem c.vm.mem := by
  cases hlog : loggedStep c e with
  | none =>
    have hkeep := lowMem_of_not_logged hstart hlog
    exact ⟨hkeep.symm, hkeep⟩
  | some x =>
    obtain ⟨-, -, hmem, hmem'⟩ := loggedStep_some hlog
    rw [← hmem, ← hmem', Option.toList_some, List.flatMap_singleton]
    exact ⟨redo_deltas List.mem_finRange, undo_deltas List.mem_finRange⟩

/-- The text of the log is a history of the registers, and of the first bytes of memory if programs
are loaded behind them: the changes that are read back from it lead from the state at the start of
the run to the state at its end, whatever the run does, and undone from last to first they lead
back.  This needs that no newline stands in the date or in the name of a module. -/
theorem log_replays {date : List UInt8} {h : Host} {vm : VmState} {es : List Env}
    (hdate : 10 ∉ date)
    (hnames : Along (step vmDecodeInstruction) (fun c _ => PlainNames c.vm) (start h vm) es) :
    let log := vmLog date h vm es
    let final := (runProgram h vm es).vm
    (redo vm.reg (readRegs log) = final.reg ∧ undo final.reg (readRegs log) = vm.reg) ∧
      (memLogSize ≤ vm.pcStart.toNat →
        redo (lowMem vm.mem) (readMems log) = lowMem final.mem ∧
          undo (lowMem final.mem) (readMems log) = lowMem vm.mem) := by
  intro log final
  have hregs : readRegs log = _ := blockReader_readReg.read_vmLog hdate hnames
  have hmems : readMems log = _ := blockReader_readMem.read_vmLog hdate hnames
  constructor
  · rw [hregs]
    exact redo_undo_trace (fun c => c.vm.reg) hnames
      (fun c e _ => (step_regDeltas c e).1) fun c e _ => (step_regDeltas c e).2
  · intro hstart
    have hbehind : Along (step vmDecodeInstruction) (fun c _ => memLogSize ≤ c.vm.pcStart.toNat)
        (start h vm) es :=
      hnames.strengthen (I := fun c => memLogSize ≤ c.vm.pcStart.toNat) hstart
        (fun c e h _ => by rw [step_pcStart]; exact h) fun _ _ h _ => h
    rw [hmems]
    exact redo_undo_trace (fun c => lowMem c.vm.mem) hbehind
      (fun c e h => (step_memDeltas h).1) fun c e h => (step_memDeltas h).2

/-- Two rounds of a loop that adds one to R1. -/
theorem log_replays_addLoop :
    let date := bytes "Thu Jan  1 00:00:00 1970"
    let es := List.replicate 8 idleEnv
    let log := vmLog date idleHost addLoop es
    readRegs log = [⟨1, 0, 1⟩, ⟨1, 1, 2⟩] ∧
      undo (runProgram idleHost addLoop es).vm.reg (readRegs log) = addLoop.reg :=
  ⟨by decide +kernel, (log_replays (by decide) (by decide +kernel)).1.2⟩

end Runs

end Vm32
