/-
# Modules that do not share registers

A word of a register program writes register A and reads the registers among its operands, so a
program has a footprint that can be read off its lines.  Programs neither of which writes a
register of the other commute, and the scan does not depend on the order in which the directory
lists their files.
-/
import Vm32.Asm.Scan

namespace Vm32

open CText LabelledRun Footprint

/-! ### The footprint of a program -/

/-- The registers among the operands of a word. -/
def operands (w : UInt32) : List UInt8 := ra w :: rb w :: if fimm w then [] else [rc w]

/-- The registers that a program reads or writes. -/
def reads (prog : List SourceLine) : Set UInt8 := {i | ∃ line ∈ prog, i ∈ operands line.word}

/-- The registers that a program writes. -/
def writes (prog : List SourceLine) : Set UInt8 := {i | ∃ line ∈ prog, i = ra line.word}

/-- Neither program writes a register of the other. -/
def Independent (p q : List SourceLine) : Prop :=
  ∀ l ∈ p, ∀ m ∈ q, ra l.word ∉ operands m.word ∧ ra m.word ∉ operands l.word

instance : ∀ p q, Decidable (Independent p q) := fun p q =>
  inferInstanceAs (Decidable
    (∀ l ∈ p, ∀ m ∈ q, ra l.word ∉ operands m.word ∧ ra m.word ∉ operands l.word))

section Handlers

variable {op : OpEx} {w : UInt32}

/-- The handler writes register A, as a function of the registers among the operands. -/
def WritesA (op : OpEx) : Prop :=
  ∀ (w : UInt32) (vm vm' : VmState), (∀ i ∈ operands w, vm.reg i = vm'.reg i) →
    (op idleHost vm w).reg (ra w) = (op idleHost vm' w).reg (ra w) ∧
      ∀ i, i ≠ ra w → (op idleHost vm w).reg i = vm.reg i

section SameOperands

variable {vm vm' : VmState} (hreg : ∀ i ∈ operands w, vm.reg i = vm'.reg i)

include hreg

lemma reg_ra_eq : vm.reg (ra w) = vm'.reg (ra w) := hreg _ List.mem_cons_self

lemma bv_eq : bv vm w = bv vm' w := hreg _ (List.mem_cons_of_mem _ List.mem_cons_self)

lemma cvOrImm_eq : cvOrImm vm w = cvOrImm vm' w := by
  rw [cvOrImm, cvOrImm]
  cases himm : fimm w with
  | true => rfl
  | false => exact hreg (rc w) (by simp [operands, himm])

end SameOperands

lemma writesA_opBinary (F : Host → UInt32 → UInt32 → UInt32) :
    WritesA fun h => opBinary (F h) := by
  intro w vm vm' hreg
  refine ⟨?_, fun i hi => Function.update_of_ne hi _ _⟩
  show Function.update vm.reg (ra w) (F idleHost (bv vm w) (cvOrImm vm w)) (ra w) =
    Function.update vm'.reg (ra w) (F idleHost (bv vm' w) (cvOrImm vm' w)) (ra w)
  rw [Function.update_self, Function.update_self, bv_eq hreg, cvOrImm_eq hreg]

lemma writesA_opUnary (F : Host → UInt32 → UInt32) : WritesA fun h => opUnary (F h) := by
  intro w vm vm' hreg
  refine ⟨?_, fun i hi => Function.update_of_ne hi _ _⟩
  show Function.update vm.reg (ra w) (F idleHost (bv vm w)) (ra w) =
    Function.update vm'.reg (ra w) (F idleHost (bv vm' w)) (ra w)
  rw [Function.update_self, Function.update_self, bv_eq hreg]

lemma writesA_opLimit : WritesA opLimit := by
  intro w vm vm' hreg
  refine ⟨?_, fun i hi => Function.update_of_ne hi _ _⟩
  let clamp (x lo hi : UInt32) : UInt32 :=
    let x := if x < lo then lo else x
    if hi < x then hi else x
  show Function.update vm.reg (ra w) (clamp (vm.reg (ra w)) (bv vm w) (cvOrImm vm w)) (ra w) =
    Function.update vm'.reg (ra w) (clamp (vm'.reg (ra w)) (bv vm' w) (cvOrImm vm' w)) (ra w)
  rw [Function.update_self, Function.update_self, reg_ra_eq hreg, bv_eq hreg, cvOrImm_eq hreg]

lemma writesA_opNop : WritesA opNop := fun _ _ _ hreg => ⟨reg_ra_eq hreg, fun _ _ => rfl⟩

lemma writesA_of_registerOps : ∀ n ∈ registerOps, ∀ op, defaultOpEx[n]? = some op →
    WritesA op := by
  simp only [registerOps, List.forall_mem_cons, List.not_mem_nil, false_imp_iff, implies_true,
    and_true]
  and_intros
  all_goals
    rintro op ⟨⟩
    first
    | exact writesA_opBinary _
    | exact writesA_opUnary _
    | exact writesA_opLimit
    | exact writesA_opNop

end Handlers

/-- The footprint of a line. -/
lemma hasFootprint_regStep {line : SourceLine} (hop : line.ins.op ∈ registerOps) :
    HasFootprint {i | i ∈ operands line.word} {ra line.word} fun r => regStep r line.word := by
  have hget : defaultOpEx[line.ins.op]? = some line.op := by
    rw [← line.toNat_opc]
    exact line.encoded
  have hcode : opEx (opc line.word) = some line.op := line.encoded
  have hwrites := writesA_of_registerOps _ hop _ hget line.word
  simp only [regStep, hcode]
  constructor
  · intro r i hi
    exact (hwrites { vmCreate with reg := r } { vmCreate with reg := r } fun _ _ => rfl).2 i hi
  · rintro r r' hrr _ rfl
    exact (hwrites { vmCreate with reg := r } { vmCreate with reg := r' } hrr).1

lemma writes_subset_reads (prog : List SourceLine) : writes prog ⊆ reads prog := by
  rintro i ⟨line, hline, rfl⟩
  exact ⟨line, hline, List.mem_cons_self⟩

/-- The footprint of a program. -/
lemma hasFootprint_program {prog : List SourceLine} (hops : ∀ line ∈ prog,
    line.ins.op ∈ registerOps) :
    HasFootprint (reads prog) (writes prog) fun r => (words prog).foldl regStep r := by
  refine hasFootprint_foldl (writes_subset_reads prog) fun w hw => ?_
  obtain ⟨line, hline, rfl⟩ := List.mem_map.1 hw
  refine (hasFootprint_regStep (hops line hline)).mono ?_ ?_ (writes_subset_reads prog)
  · intro i hi
    exact ⟨line, hline, hi⟩
  · rintro i rfl
    exact ⟨line, hline, rfl⟩

/-- Independent programs commute. -/
lemma Independent.commute {p q : List SourceLine} (hpq : Independent p q)
    (hp : ∀ line ∈ p, line.ins.op ∈ registerOps) (hq : ∀ line ∈ q, line.ins.op ∈ registerOps)
    (r : UInt8 → UInt32) :
    (words q).foldl regStep ((words p).foldl regStep r) =
      (words p).foldl regStep ((words q).foldl regStep r) := by
  have hwp : Disjoint (writes p) (reads q ∪ writes q) := by
    rw [Set.disjoint_left, Set.union_eq_self_of_subset_right (writes_subset_reads q)]
    rintro i ⟨l, hl, rfl⟩ ⟨m, hm, hi⟩
    exact (hpq l hl m hm).1 hi
  have hwq : Disjoint (writes q) (reads p ∪ writes p) := by
    rw [Set.disjoint_left, Set.union_eq_self_of_subset_right (writes_subset_reads p)]
    rintro i ⟨m, hm, rfl⟩ ⟨l, hl, hi⟩
    exact (hpq l hl m hm).2 hi
  have hcommute := (hasFootprint_program hp).commute (hasFootprint_program hq) hwp hwq r
  exact hcommute

/-! ### The order of the modules -/

variable {rawHalt : Bool} {texts texts' : List (List UInt8)} {files files' : List NamedFile}
  {vm vm' : VmState} {h h' : Host} {es es' : List Env}

/-- The scan of pairwise independent sources does not depend on their order. -/
lemma scanRegs_of_perm (hperm : texts.Perm texts')
    (hops : ∀ text ∈ texts, ∀ line ∈ sourceProgram rawHalt text, line.ins.op ∈ registerOps)
    (hind : texts.Pairwise fun a b =>
      Independent (sourceProgram rawHalt a) (sourceProgram rawHalt b)) :
    scanRegs rawHalt texts = scanRegs rawHalt texts' := by
  let scan (r : UInt8 → UInt32) (text : List UInt8) :=
    (words (sourceProgram rawHalt text)).foldl regStep r
  have hpairs : texts.Pairwise fun a b => ∀ r, scan (scan r a) b = scan (scan r b) a := by
    refine hind.imp_of_mem fun {a b} ha hb hab r => ?_
    exact hab.commute (hops a ha) (hops b hb) r
  have hall : ∀ a ∈ texts, ∀ b ∈ texts, ∀ r, scan (scan r a) b = scan (scan r b) a := by
    intro a ha b hb
    have : Std.Symm fun a b => ∀ r, scan (scan r a) b = scan (scan r b) a :=
      ⟨fun _ _ hab r => (hab r).symm⟩
    exact hpairs.forall_of_forall (fun _ _ _ => rfl) ha hb
  funext r
  exact hperm.foldl_eq' hall r

/-- Sources that do not share registers can be loaded in any order: after the same number of cycles
the registers are the same. -/
theorem independent_modules_commute (hperm : texts.Perm texts')
    (hind : texts.Pairwise fun a b =>
      Independent (sourceProgram rawHalt a) (sourceProgram rawHalt b))
    (hrun : RegisterRun rawHalt vm texts files h es)
    (hrun' : RegisterRun rawHalt vm' texts' files' h' es') (hreg : vm.reg = vm'.reg)
    (hcycles : cyclesBegun vm files h es = cyclesBegun vm' files' h' es') :
    (runProgram h (loadPrograms vm files).1 es).vm.reg =
      (runProgram h' (loadPrograms vm' files').1 es').vm.reg := by
  rw [hrun.reg, hrun'.reg, scanRegs_of_perm hperm (fun text htext => (hrun.programs text htext).ops)
    hind, hreg, hcycles]

/-- A counter that goes up and one that goes down, in two modules. -/
def upSource : List UInt8 := bytes "ADD R1, R1, #1\n"

def downSource : List UInt8 := bytes "SUB R2, R2, #1\n"

/-- The assembled file of a source. -/
def objectFile (name : String) (text : List UInt8)
    (h : (assemble false text).1.length < 2 ^ 63) : NamedFile :=
  ⟨bytes name, .readable (assemble false text).1 h⟩

def upFile (name : String) : NamedFile := objectFile name upSource (by decide +kernel)

def downFile (name : String) : NamedFile := objectFile name downSource (by decide +kernel)

lemma validText_up : ValidText false upSource := by
  have hlines : upSource.splitOn 10 = [bytes "ADD R1, R1, #1", []] := by decide
  refine ⟨by decide, ?_, by decide +kernel⟩
  rw [hlines]
  exact List.forall_mem_cons.2 ⟨⟨_, rfl⟩, List.forall_mem_singleton.2 ⟨_, rfl⟩⟩

lemma validText_down : ValidText false downSource := by
  have hlines : downSource.splitOn 10 = [bytes "SUB R2, R2, #1", []] := by decide
  refine ⟨by decide, ?_, by decide +kernel⟩
  rw [hlines]
  exact List.forall_mem_cons.2 ⟨⟨_, rfl⟩, List.forall_mem_singleton.2 ⟨_, rfl⟩⟩

lemma registerProgram_up : RegisterProgram (sourceProgram false upSource) :=
  ⟨⟨by decide +kernel, by decide +kernel, by decide +kernel⟩, by decide +kernel⟩

lemma registerProgram_down : RegisterProgram (sourceProgram false downSource) :=
  ⟨⟨by decide +kernel, by decide +kernel, by decide +kernel⟩, by decide +kernel⟩

/-- Two cycles with the modules in either order. -/
theorem independent_modules_commute_upDown :
    (runProgram idleHost (loadPrograms (vmTablesInit vmCreate) [upFile "a", downFile "b"]).1
        (List.replicate 22 idleEnv)).vm.reg =
      (runProgram idleHost (loadPrograms (vmTablesInit vmCreate) [downFile "a", upFile "b"]).1
        (List.replicate 22 idleEnv)).vm.reg := by
  refine @independent_modules_commute false [upSource, downSource] [downSource, upSource]
    [upFile "a", downFile "b"] [downFile "a", upFile "b"] (vmTablesInit vmCreate)
    (vmTablesInit vmCreate) idleHost idleHost (List.replicate 22 idleEnv)
    (List.replicate 22 idleEnv) (.swap _ _ []) ?_ ?_ ?_ rfl (by decide +kernel)
  · exact .cons (List.forall_mem_singleton.2 (by decide +kernel)) (.cons (by simp) .nil)
  · exact ⟨⟨rfl, List.forall_mem_cons.2 ⟨validText_up, List.forall_mem_singleton.2 validText_down⟩,
      .cons ⟨_, rfl⟩ (.cons ⟨_, rfl⟩ .nil), by decide +kernel⟩,
      List.forall_mem_cons.2 ⟨registerProgram_up, List.forall_mem_singleton.2 registerProgram_down⟩,
      by decide +kernel, by decide +kernel⟩
  · exact ⟨⟨rfl, List.forall_mem_cons.2 ⟨validText_down, List.forall_mem_singleton.2 validText_up⟩,
      .cons ⟨_, rfl⟩ (.cons ⟨_, rfl⟩ .nil), by decide +kernel⟩,
      List.forall_mem_cons.2 ⟨registerProgram_down, List.forall_mem_singleton.2 registerProgram_up⟩,
      by decide +kernel, by decide +kernel⟩

end Vm32
