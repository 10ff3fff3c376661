/-
# What an assembly source means

The meaning of a source text, without words and without a decoder: a program is the list of its
instructions, each with the handler that belongs to its mnemonic and with its operands, and the
machine that runs it takes the instruction from the line that PC points to.  Everything around
the instructions (the modules, the cycle, the time, the reload) is that of `run_program`.
-/
import Vm32.Asm.Executes
import Vm32.Asm.LongLines
import Vm32.Lib.Progress

namespace Vm32

open CText LabelledRun

/-! ### Programs -/

/-- An instruction of a source text.  Its operands are in range, and its handler is the one that
belongs to its mnemonic. -/
structure SourceLine where
  name : List UInt8
  ins : AsmInstr
  op : OpEx
  named : handlerOf name = some op
  inRange : ins.InRange
  encoded : opEx (opc (packWord ins)) = some op

/-- The instruction of a line, if the line has one. -/
def sourceLine (rawHalt : Bool) (line : List UInt8) : Option SourceLine :=
  match htoks : lineTokens line with
  | [] => none
  | tok :: _ =>
    match hins : assembleLine rawHalt line with
    | .ok (some ins) =>
      match hop : handlerOf (rewriteHalt rawHalt tok) with
      | some op =>
        some ⟨rewriteHalt rawHalt tok, ins, op, hop, assembleLine_inRange hins,
          (handlerOf_of_assembleLine htoks hins).1 ▸ hop⟩
      | none => none
    | _ => none

/-- The instructions of a text. -/
def sourceProgram (rawHalt : Bool) (text : List UInt8) : List SourceLine :=
  (text.splitOn 10).filterMap (sourceLine rawHalt)

/-- The word of a line of a program. -/
def SourceLine.word (line : SourceLine) : UInt32 := packWord line.ins

/-- The text is assembled without an error: it has no NUL byte, and each of its lines is valid and
is read as a whole. -/
structure ValidText (rawHalt : Bool) (text : List UInt8) : Prop where
  noNul : 0 ∉ text
  valid : ∀ l ∈ text.splitOn 10, ∃ r, assembleLine rawHalt l = .ok r
  whole : ∀ l ∈ text.splitOn 10, ReadWhole l

/-! ### The machine -/

/-- The line at an address, for a program that starts at `addr`. -/
def lineAt (prog : List SourceLine) (addr pc : UInt32) : Option SourceLine :=
  if pc.toNat % 4 = addr.toNat % 4 ∧ addr ≤ pc then prog[(pc.toNat - addr.toNat) / 4]? else none

/-- The source counterpart of `vm_run_instruction`. -/
def runLine (prog : List SourceLine) (h : Host) (vm : VmState) (mod : ModuleInfo) :
    VmState × Outcome :=
  if moduleEnd mod ≤ vm.pc ∨ vm.pc < mod.addr then (vm, .completed)
  else
    match lineAt prog mod.addr vm.pc with
    | none => (vm, .endOfModule)
    | some line => (callHandler line.op h vm line.word, .executed vm.pc line.word line.word)

/-- One step of the machine that runs the programs of its modules from their sources. -/
def sourceStep (progs : List (List SourceLine)) (c : Config) (e : Env) : Config :=
  match c.ctl with
  | .instr idx mod count startMs =>
    if keepsRunning c.vm count then
      let result := runLine (progs.getD idx []) e.host c.vm mod
      ⟨result.1, afterInstruction idx mod count startMs result.2⟩
    else ⟨c.vm, .module (idx + 1) startMs⟩
  | _ => step decodeAfresh c e

/-- How the instruction of a step ends, if the step has one. -/
def sourceOutcome (progs : List (List SourceLine)) (c : Config) (e : Env) : Option Outcome :=
  match c.ctl with
  | .instr idx mod count _ =>
    if keepsRunning c.vm count then some (runLine (progs.getD idx []) e.host c.vm mod).2 else none
  | _ => none

/-! ### Well-behaved steps -/

/-- Inside its module the machine is at the beginning of a line, and this is not the line
`ADD R0, R0, R0`, which is the end of a module. -/
def OnLine (progs : List (List SourceLine)) (c : Config) : Prop :=
  match c.ctl with
  | .instr idx mod count _ =>
    keepsRunning c.vm count = true → ¬(moduleEnd mod ≤ c.vm.pc ∨ c.vm.pc < mod.addr) →
      (lineAt (progs.getD idx []) mod.addr c.vm.pc).any fun line => line.ins ≠ ⟨0, 0, 0, .reg 0⟩
  | _ => True

instance (progs : List (List SourceLine)) : DecidablePred (OnLine progs)
  | ⟨vm, .instr idx mod count _⟩ =>
    inferInstanceAs (Decidable
      (keepsRunning vm count = true → ¬(moduleEnd mod ≤ vm.pc ∨ vm.pc < mod.addr) →
        (lineAt (progs.getD idx []) mod.addr vm.pc).any fun line => line.ins ≠ ⟨0, 0, 0, .reg 0⟩))
  | ⟨_, .poll⟩ | ⟨_, .reload⟩ | ⟨_, .top⟩ | ⟨_, .module _ _⟩ | ⟨_, .tail _⟩ | ⟨_, .finished⟩ =>
    isTrue trivial

/-- The step of the source machine is at a line and changes neither the module table nor a byte
of a program. -/
structure Behaves (progs : List (List SourceLine)) (c : Config) (e : Env) : Prop where
  onLine : OnLine progs c
  modules : (sourceStep progs c e).vm.modules = c.vm.modules
  code : ∀ mod ∈ c.vm.modules, ∀ k < mod.size.toNat,
    (sourceStep progs c e).vm.mem (mod.addr.toNat + k) = c.vm.mem (mod.addr.toNat + k)

instance (progs : List (List SourceLine)) (c : Config) (e : Env) : Decidable (Behaves progs c e) :=
  decidable_of_iff
    (OnLine progs c ∧ (sourceStep progs c e).vm.modules = c.vm.modules ∧
      ∀ mod ∈ c.vm.modules, ∀ k < mod.size.toNat,
        (sourceStep progs c e).vm.mem (mod.addr.toNat + k) = c.vm.mem (mod.addr.toNat + k))
    ⟨fun h => ⟨h.1, h.2.1, h.2.2⟩, fun h => ⟨h.onLine, h.modules, h.code⟩⟩

end Vm32
