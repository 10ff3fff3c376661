/-
# Scans as functions on the register file

A source whose instructions compute on registers only is a function on the register file, and
`run_program` iterates it: after any number of cycles, whatever the host, the clock, the watched
directory and the stop flag did meanwhile, the registers are what the function gives when it is
applied once for each cycle that was begun.  From the footprints of the programs it follows that
the order of modules that do not share registers does not matter.
-/
import Vm32.Asm.StraightLine
import Vm32.Lib.Footprint
import Vm32.Vm.Integrity

namespace Vm32

open CText LabelledRun Footprint

/-! ### Register instructions -/

/-- The opcodes whose handlers compute registers from registers: arithmetic, logic, comparisons,
`ADD_TIME`, `SUB_TIME`, `LIMIT` and `NOP`, without the functions of `math.h`. -/
def registerOps : List ℕ :=
  [0, 1, 2, 3, 4, 6, 17, 18, 19, 20, 21, 22, 23, 24, 25, 26, 31, 32, 53, 67]

/-- The program is straight-line and computes on registers only. -/
structure RegisterProgram (prog : List SourceLine) : Prop where
  straight : StraightLine prog
  ops : ∀ line ∈ prog, line.ins.op ∈ registerOps

/-- The registers behind an instruction, computed on a machine in which everything else is as
`vm_create` leaves it. -/
def regStep (r : UInt8 → UInt32) (w : UInt32) : UInt8 → UInt32 :=
  match opEx (opc w) with
  | none => r
  | some op => (op idleHost { vmCreate with reg := r } w).reg

/-- One scan of the programs of the texts. -/
def scanRegs (rawHalt : Bool) (texts : List (List UInt8)) (r : UInt8 → UInt32) : UInt8 → UInt32 :=
  texts.foldl (fun r text => (words (sourceProgram rawHalt text)).foldl regStep r) r

section SameRegisters

variable {vm vm' : VmState} (hreg : vm.reg = vm'.reg) (i : UInt32)

include hreg

lemma reg_opBinary (F : UInt32 → UInt32 → UInt32) :
    (opBinary F vm i).reg = (opBinary F vm' i).reg := by
  simp only [opBinary, setAVal, bv, cvOrImm, cv, hreg]

lemma reg_opUnary (F : UInt32 → UInt32) : (opUnary F vm i).reg = (opUnary F vm' i).reg := by
  simp only [opUnary, setAVal, bv, hreg]

lemma reg_opLimit (h h' : Host) : (opLimit h vm i).reg = (opLimit h' vm' i).reg := by
  have hc : cvOrImm vm i = cvOrImm vm' i := by simp only [cvOrImm, cv, hreg]
  let clamp (x lo hi : UInt32) : UInt32 :=
    let x := if x < lo then lo else x
    if hi < x then hi else x
  show Function.update vm.reg (ra i) (clamp (vm.reg (ra i)) (vm.reg (rb i)) (cvOrImm vm i)) =
    Function.update vm'.reg (ra i) (clamp (vm'.reg (ra i)) (vm'.reg (rb i)) (cvOrImm vm' i))
  rw [hreg, hc]

end SameRegisters

/-- The registers behind a register instruction depend on the registers before it only. -/
lemma reg_of_registerOps : ∀ n ∈ registerOps, ∀ op, defaultOpEx[n]? = some op →
    ∀ h h' vm vm' i, vm.reg = vm'.reg → (op h vm i).reg = (op h' vm' i).reg := by
  simp only [registerOps, List.forall_mem_cons, List.not_mem_nil, false_imp_iff, implies_true,
    and_true]
  and_intros
  all_goals
    rintro op ⟨⟩ h h' vm vm' i hreg
    first
    | exact reg_opBinary hreg i _
    | exact reg_opUnary hreg i _
    | exact reg_opLimit hreg i h h'
    | exact hreg

/-- A line of the programs is executed on the registers as `regStep` says. -/
lemma reg_op_eq_regStep {line : SourceLine} (hop : line.ins.op ∈ registerOps) (h : Host)
    (vm : VmState) : (line.op h vm line.word).reg = regStep vm.reg line.word := by
  have hget : defaultOpEx[line.ins.op]? = some line.op := by
    rw [← line.toNat_opc]
    exact line.encoded
  have hcode : opEx (opc line.word) = some line.op := line.encoded
  rw [regStep, hcode]
  exact reg_of_registerOps _ hop _ hget h idleHost vm { vmCreate with reg := vm.reg } line.word rfl

section Runs

variable {progs : List (List SourceLine)}

/-- What the source machine executes is a line of its programs. -/
lemma sourceOutcome_executed {c : Config} {e : Env} {pc instr raw : UInt32}
    (hout : sourceOutcome progs c e = some (.executed pc instr raw)) :
    ∃ prog ∈ progs, ∃ line ∈ prog, instr = line.word ∧ raw = line.word := by
  obtain ⟨vm, ctl⟩ := c
  cases ctl with
  | instr idx mod count startMs =>
    simp only [sourceOutcome, Option.ite_none_right_eq_some, Option.some.injEq, runLine] at hout
    obtain ⟨-, hout⟩ := hout
    split_ifs at hout
    split at hout
    · cases hout
    · next line hat =>
      cases hout
      rw [lineAt, Option.ite_none_right_eq_some] at hat
      have hline := List.mem_of_getElem? hat.2
      rw [List.getD_eq_getElem?_getD] at hline
      cases hget : progs[idx]? with
      | none => simp [hget] at hline
      | some prog =>
        rw [hget, Option.getD_some] at hline
        exact ⟨prog, List.mem_of_getElem? hget, line, hline, rfl, rfl⟩
  | _ => cases hout

/-- A step of a scan of register programs does to the registers what its word says. -/
lemma Scanning.reg_step {t : Config} {e : Env} (ht : Scanning progs t)
    (hprogs : ∀ prog ∈ progs, RegisterProgram prog) (hquiet : NoReload t e) :
    (step vmDecodeInstruction t e).vm.reg = (executedWord t e).toList.foldl regStep t.vm.reg := by
  obtain ⟨s, hrel, -, hscan, -⟩ := ht.next (fun prog hprog => (hprogs prog hprog).straight) hquiet
  have hout := (hrel.next hscan.behaves).1
  by_cases hexec : ∃ pc instr raw, outcome vmDecodeInstruction t e = some (.executed pc instr raw)
  · obtain ⟨pc, instr, raw, hexec⟩ := hexec
    obtain ⟨prog, hprog, line, hline, rfl, rfl⟩ := sourceOutcome_executed (hout.trans hexec)
    have hword : executedWord t e = some line.word := by
      rw [executedWord, handled, hexec]
      rfl
    rw [hword, offLoop_reg.call.step_executed hexec line.encoded]
    exact reg_op_eq_regStep ((hprogs prog hprog).ops line hline) e.host t.vm
  · have hword : executedWord t e = none := by
      rw [executedWord, handled]
      cases hcase : outcome vmDecodeInstruction t e with
      | none => rfl
      | some o =>
        cases o with
        | executed pc instr raw => exact absurd ⟨pc, instr, raw, hcase⟩ hexec
        | _ => rfl
    rw [hword]
    exact offLoop_reg.step fun pc instr raw op h => absurd ⟨pc, instr, raw, h⟩ hexec

/-- Folding the repetition of a list is iterating the fold of the list. -/
lemma foldl_flatten_replicate {α β : Type*} (f : β → α → β) (as : List α) (n : ℕ) (b : β) :
    (List.replicate n as).flatten.foldl f b = (fun b => as.foldl f b)^[n] b := by
  induction n generalizing b with
  | zero => rfl
  | succ n ih =>
    rw [List.replicate_succ, List.flatten_cons, List.foldl_append, ih, Function.iterate_succ_apply]

/-- Between two cycles the registers are the iterated scan. -/
lemma Scanning.reg_run {t : Config} {es : List Env} (ht : Scanning progs t)
    (hprogs : ∀ prog ∈ progs, RegisterProgram prog)
    (hquiet : Along (step vmDecodeInstruction) NoReload t es) (hstart : todo progs t.ctl = [])
    (hend : todo progs (run (step vmDecodeInstruction) t es).ctl = []) :
    (run (step vmDecodeInstruction) t es).vm.reg =
      (fun r => (progs.flatMap words).foldl regStep r)^[
        (trace (step vmDecodeInstruction) begun t es).length] t.vm.reg := by
  have hstraight : ∀ prog ∈ progs, StraightLine prog := fun prog hprog =>
    (hprogs prog hprog).straight
  have hwords := ht.trace_executedWord hstraight hquiet
  rw [hstart, hend, List.append_nil, List.nil_append] at hwords
  have hfold : Along (step vmDecodeInstruction)
      (fun t e => (step vmDecodeInstruction t e).vm.reg =
        (executedWord t e).toList.foldl regStep t.vm.reg) t es :=
    hquiet.strengthen ht (fun t e ht hq => ht.keep hstraight hq) fun t e ht hq =>
      ht.reg_step hprogs hq
  rw [← foldl_flatten_replicate, ← hwords]
  exact foldl_trace (fun t : Config => t.vm.reg) regStep hfold

variable {rawHalt : Bool} {texts texts' : List (List UInt8)} {files files' : List NamedFile}
  {vm vm' : VmState} {h h' : Host} {es es' : List Env}

/-- The machine is between two cycles, or it has left its loop. -/
def Ctl.BetweenCycles (ctl : Ctl) : Prop := ctl = .poll ∨ ctl = .finished

instance : DecidablePred Ctl.BetweenCycles := fun ctl =>
  inferInstanceAs (Decidable (ctl = .poll ∨ ctl = .finished))

lemma todo_of_betweenCycles {ctl : Ctl} (hctl : ctl.BetweenCycles) : todo progs ctl = [] := by
  rcases hctl with rfl | rfl <;> rfl

/-- Sources that compute on registers are loaded and run without a reload, and the run ends between
two cycles. -/
structure RegisterRun (rawHalt : Bool) (vm : VmState) (texts : List (List UInt8))
    (files : List NamedFile) (h : Host) (es : List Env) : Prop where
  loads : LoadsSources rawHalt vm texts files
  programs : ∀ text ∈ texts, RegisterProgram (sourceProgram rawHalt text)
  quiet : Along (step vmDecodeInstruction) NoReload (start h (loadPrograms vm files).1) es
  ends : (runProgram h (loadPrograms vm files).1 es).ctl.BetweenCycles

/-- The number of cycles that the run begins. -/
def cyclesBegun (vm : VmState) (files : List NamedFile) (h : Host) (es : List Env) : ℕ :=
  (trace (step vmDecodeInstruction) begun (start h (loadPrograms vm files).1) es).length

lemma RegisterRun.reg (hrun : RegisterRun rawHalt vm texts files h es) :
    (runProgram h (loadPrograms vm files).1 es).vm.reg =
      (scanRegs rawHalt texts)^[cyclesBegun vm files h es] vm.reg := by
  have hreg := (hrun.loads.scanning h).reg_run (List.forall_mem_map.2 hrun.programs) hrun.quiet rfl
    (todo_of_betweenCycles hrun.ends)
  have hscan : (fun r => ((sourcePrograms rawHalt texts).flatMap words).foldl regStep r) =
      scanRegs rawHalt texts := by
    funext r
    rw [sourcePrograms, List.flatMap_map, List.foldl_flatMap]
    rfl
  have hstart : (start h (loadPrograms vm files).1).vm.reg = vm.reg := by
    obtain ⟨hne, hl⟩ := loadPrograms_ok_iff.1 hrun.loads.loads
    obtain ⟨hash, heq⟩ := loadPrograms_of_loadable vm hne hl
    rw [heq]
    rfl
  rw [hscan, hstart] at hreg
  exact hreg

/-- After any number of cycles the registers are the iterated scan of the sources and memory is as
it was loaded, whatever the environment does. -/
theorem register_scans (hrun : RegisterRun rawHalt vm texts files h es) :
    (runProgram h (loadPrograms vm files).1 es).vm.reg =
        (scanRegs rawHalt texts)^[cyclesBegun vm files h es] vm.reg ∧
      (runProgram h (loadPrograms vm files).1 es).vm.mem = (loadPrograms vm files).1.mem := by
  have hprogs : ∀ prog ∈ sourcePrograms rawHalt texts, StraightLine prog :=
    List.forall_mem_map.2 fun text htext => (hrun.programs text htext).straight
  exact ⟨hrun.reg, (hrun.loads.scanning h).mem_run hprogs hrun.quiet⟩

lemma registerRun_upDown :
    RegisterRun false (vmTablesInit vmCreate) [upDownSource] [upDownFile] idleHost
      (List.replicate 27 idleEnv) :=
  ⟨loadsSources_upDown, List.forall_mem_singleton.2 ⟨straightLine_upDown, by decide +kernel⟩,
    by decide +kernel, by decide +kernel⟩

/-- Three cycles. -/
theorem register_scans_upDown :
    let vm := (loadPrograms (vmTablesInit vmCreate) [upDownFile]).1
    let es := List.replicate 27 idleEnv
    (runProgram idleHost vm es).vm.reg =
        (scanRegs false [upDownSource])^[cyclesBegun (vmTablesInit vmCreate) [upDownFile] idleHost
          es] (vmTablesInit vmCreate).reg ∧
      (runProgram idleHost vm es).vm.mem = vm.mem :=
  register_scans registerRun_upDown

end Runs

end Vm32
