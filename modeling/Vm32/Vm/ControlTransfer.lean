/-
# Where control goes

The handlers of the jumps set PC, and `vm_run_instruction` takes a PC that is still the address of
the instruction for a sign that no jump was made.  A jump to its own address is therefore not
made: control goes on behind it.
-/
import Vm32.Vm.Fetch

namespace Vm32

/-- Where an instruction asks control to go: to the target of a jump that is taken, and else to
the word behind it. -/
def nextPc (vm : VmState) (instr raw : UInt32) : UInt32 :=
  if TakesJump vm instr raw then jumpTarget vm raw else vm.pc + 4

/-- The instruction is a jump to its own address that is taken. -/
def JumpsToSelf (vm : VmState) (instr raw : UInt32) : Prop :=
  TakesJump vm instr raw ∧ jumpTarget vm raw = vm.pc

section Step

variable {h : Host} {vm : VmState} {mod : ModuleInfo} {moduleEnd pc instr raw : UInt32}

lemma successor_eq_nextPc_iff :
    successor vm instr raw = nextPc vm instr raw ↔ ¬JumpsToSelf vm instr raw := by
  have hsuccessor : successor vm instr raw =
      if (if TakesJump vm instr raw then jumpTarget vm raw else vm.pc) = vm.pc then vm.pc + 4
      else if TakesJump vm instr raw then jumpTarget vm raw else vm.pc := rfl
  rw [hsuccessor, nextPc, JumpsToSelf]
  by_cases htaken : TakesJump vm instr raw
  · simp only [htaken, if_true, true_and]
    by_cases hself : jumpTarget vm raw = vm.pc
    · simp [hself]
    · simp [hself]
  · simp [htaken]

/-- Behind every executed instruction PC is where the instruction asks control to go, except
behind a jump to its own address.  The instruction is the word at PC; its operands are those
of the record in the decode cache, if there is one for this address. -/
theorem control_transfer_iff
    (hexec : (vmRunInstruction h vm mod moduleEnd).2 = .executed pc instr raw) :
    ((vmRunInstruction h vm mod moduleEnd).1.pc = nextPc vm instr raw ↔
        ¬JumpsToSelf vm instr raw) ∧
      pc = vm.pc ∧ instr = vmMr32 vm vm.pc ∧
      raw = ((vm.cached vm.pc).map DecodedInstr.rawInstr).getD instr := by
  obtain ⟨hat, hinstr, hraw⟩ := executed_word hexec
  refine ⟨?_, hat, hinstr, hraw.trans (by rw [hinstr]; rfl)⟩
  have hpc : (vmRunInstruction h vm mod moduleEnd).1.pc = successor vm instr raw :=
    runInstruction_pc hexec
  rw [hpc]
  exact successor_eq_nextPc_iff

end Step

/-- A machine at the word `JMP R0, R1`, with an address in register 1. -/
def jumping (target : UInt32) : VmState :=
  let vm := vmTablesInit vmCreate
  { vm with
    pc := 0x3000
    reg := Function.update vm.reg 1 target
    mem := overlay vm.mem 0x3000 (uint32Bytes 0x7C000200) }

/-- A jump to another address. -/
theorem control_transfer_iff_jump :
    let result := vmRunInstruction idleHost (jumping 0x4000) ⟨[97], 0x3000, 4⟩ 0x3004
    (result.1.pc = nextPc (jumping 0x4000) 0x7C000200 0x7C000200 ↔
        ¬JumpsToSelf (jumping 0x4000) 0x7C000200 0x7C000200) ∧
      (0x3000 : UInt32) = (jumping 0x4000).pc ∧
      0x7C000200 = vmMr32 (jumping 0x4000) (jumping 0x4000).pc ∧
      0x7C000200 = (((jumping 0x4000).cached (jumping 0x4000).pc).map
        DecodedInstr.rawInstr).getD 0x7C000200 :=
  control_transfer_iff (by decide +kernel)

/-- The jump to its own address goes on behind itself. -/
theorem jump_to_self_falls_through :
    let result := vmRunInstruction idleHost (jumping 0x3000) ⟨[97], 0x3000, 4⟩ 0x3004
    result.2 = .executed 0x3000 0x7C000200 0x7C000200 ∧
      nextPc (jumping 0x3000) 0x7C000200 0x7C000200 = 0x3000 ∧ result.1.pc = 0x3004 := by
  decide +kernel

end Vm32
