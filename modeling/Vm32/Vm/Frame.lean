/-
# What a handler leaves alone

Most of the state is of no concern to the handlers: they neither read nor write the module
table, the reload bookkeeping, the integrity values, the configuration or the decode cache, and
all but five of them do not touch the program counter or the stop variables either.  Both facts
are instances of one law: replacing these fields commutes with the handler.
-/
import Vm32.Vm.Funcs

namespace Vm32

/-- The fields that concern the cycle loop and not the handlers. -/
structure Frame where
  config : VmConfig
  pcStart : UInt32
  pc : UInt32
  running : Bool
  stopRequested : Bool
  exitCode : ℤ
  reloadPending : Bool
  programDir : Option (List UInt8)
  programDirSignature : UInt32
  instrNsAccum : UInt64
  programHash : UInt32
  programSize : UInt64
  prevCycleHash : UInt32
  cycleCount : UInt32
  modules : List ModuleInfo
  decodedCache : Option DecodeCache

namespace VmState

/-- The frame of a state. -/
def frame (vm : VmState) : Frame :=
  ⟨vm.config, vm.pcStart, vm.pc, vm.running, vm.stopRequested, vm.exitCode, vm.reloadPending,
    vm.programDir, vm.programDirSignature, vm.instrNsAccum, vm.programHash, vm.programSize,
    vm.prevCycleHash, vm.cycleCount, vm.modules, vm.decodedCache⟩

/-- The state with another frame. -/
def withFrame (vm : VmState) (f : Frame) : VmState :=
  { vm with
    config := f.config, pcStart := f.pcStart, pc := f.pc, running := f.running
    stopRequested := f.stopRequested, exitCode := f.exitCode, reloadPending := f.reloadPending
    programDir := f.programDir, programDirSignature := f.programDirSignature
    instrNsAccum := f.instrNsAccum, programHash := f.programHash, programSize := f.programSize
    prevCycleHash := f.prevCycleHash, cycleCount := f.cycleCount, modules := f.modules
    decodedCache := f.decodedCache }

variable (vm : VmState) (f g : Frame)

@[simp] lemma frame_withFrame : (vm.withFrame f).frame = f := rfl
@[simp] lemma withFrame_frame : vm.withFrame vm.frame = vm := rfl
@[simp] lemma withFrame_withFrame : (vm.withFrame f).withFrame g = vm.withFrame g := rfl

lemma ite_withFrame (p : Prop) [Decidable p] (a b : VmState) :
    (if p then a else b).withFrame f = if p then a.withFrame f else b.withFrame f :=
  apply_ite (·.withFrame f) p a b

@[simp] lemma withFrame_reg : (vm.withFrame f).reg = vm.reg := rfl
@[simp] lemma withFrame_mem : (vm.withFrame f).mem = vm.mem := rfl

end VmState

section Access

variable (vm : VmState) (f : Frame)

@[simp] lemma bv_withFrame (i : UInt32) : bv (vm.withFrame f) i = bv vm i := rfl
@[simp] lemma cv_withFrame (i : UInt32) : cv (vm.withFrame f) i = cv vm i := rfl
@[simp] lemma cvOrImm_withFrame (i : UInt32) : cvOrImm (vm.withFrame f) i = cvOrImm vm i := rfl
@[simp] lemma edgeId_withFrame (i : UInt32) : edgeId (vm.withFrame f) i = edgeId vm i := rfl

@[simp] lemma vmMr32_withFrame (a : UInt32) : vmMr32 (vm.withFrame f) a = vmMr32 vm a := rfl

@[simp] lemma safeStrlenAt_withFrame (a : UInt32) :
    safeStrlenAt (vm.withFrame f) a = safeStrlenAt vm a := rfl

@[simp] lemma setAVal_withFrame (i v : UInt32) :
    setAVal (vm.withFrame f) i v = (setAVal vm i v).withFrame f := rfl

@[simp] lemma vmMw32_withFrame (a v : UInt32) :
    vmMw32 (vm.withFrame f) a v = (vmMw32 vm a v).withFrame f := rfl

@[simp] lemma memmove_withFrame (dest src n : ℕ) :
    memmove (vm.withFrame f) dest src n = (memmove vm dest src n).withFrame f := rfl

@[simp] lemma safeMemmove_withFrame (dest src : UInt32) (n : ℕ) :
    safeMemmove (vm.withFrame f) dest src n = (safeMemmove vm dest src n).withFrame f := rfl

@[simp] lemma setNullAt_withFrame (a : ℕ) :
    setNullAt (vm.withFrame f) a = (setNullAt vm a).withFrame f := by
  simp only [setNullAt]
  split_ifs <;> rfl

end Access

/-- The handler neither reads nor writes the frame. -/
def FrameBlind (op : OpEx) : Prop :=
  ∀ h vm f i, op h (vm.withFrame f) i = (op h vm i).withFrame f

lemma frameBlind_opBinary (F : Host → UInt32 → UInt32 → UInt32) :
    FrameBlind fun h => opBinary (F h) := fun _ _ _ _ => rfl

lemma frameBlind_opUnary (F : Host → UInt32 → UInt32) :
    FrameBlind fun h => opUnary (F h) := fun _ _ _ _ => rfl

lemma frameBlind_setAVal (F : Host → UInt32) :
    FrameBlind fun h vm i => setAVal vm i (F h) := fun _ _ _ _ => rfl

lemma frameBlind_opLen : FrameBlind opLen := by
  intro h vm f i
  simp only [opLen, bv_withFrame, VmState.ite_withFrame]
  rfl

lemma frameBlind_opConcat : FrameBlind opConcat := by
  intro h vm f i
  simp only [opConcat, bv_withFrame, cv_withFrame, safeStrlenAt_withFrame, memmove_withFrame,
    setNullAt_withFrame, VmState.ite_withFrame]
  rfl

lemma frameBlind_opLeft : FrameBlind opLeft := by
  intro h vm f i
  simp only [opLeft, bv_withFrame, cvOrImm_withFrame, safeStrlenAt_withFrame,
    setNullAt_withFrame, VmState.ite_withFrame]

lemma frameBlind_opRight : FrameBlind opRight := by
  intro h vm f i
  simp only [opRight, bv_withFrame, cvOrImm_withFrame, safeStrlenAt_withFrame,
    safeMemmove_withFrame, setNullAt_withFrame, VmState.ite_withFrame]

lemma frameBlind_opMid : FrameBlind opMid := by
  intro h vm f i
  simp only [opMid, bv_withFrame, cvOrImm_withFrame, safeStrlenAt_withFrame,
    safeMemmove_withFrame, setNullAt_withFrame, VmState.ite_withFrame]

lemma frameBlind_opInsert : FrameBlind opInsert := by
  intro h vm f i
  simp only [opInsert, bv_withFrame, cvOrImm_withFrame, safeStrlenAt_withFrame,
    memmove_withFrame, VmState.withFrame_reg, VmState.ite_withFrame]
  rfl

lemma frameBlind_opDelete : FrameBlind opDelete := by
  intro h vm f i
  simp only [opDelete, bv_withFrame, cvOrImm_withFrame, safeStrlenAt_withFrame,
    safeMemmove_withFrame, VmState.withFrame_reg, VmState.ite_withFrame]
  rfl

lemma frameBlind_opReplace : FrameBlind opReplace := by
  intro h vm f i
  simp only [opReplace, bv_withFrame, cvOrImm_withFrame, safeStrlenAt_withFrame,
    memmove_withFrame, safeMemmove_withFrame, VmState.withFrame_reg, VmState.ite_withFrame]
  rfl

/-- The handlers of timers, given what holds of the timer's own two functions. -/
lemma frameBlind_opTimer {set : VmState → UInt8 → Bool → UInt32 → VmState}
    {q : VmState → UInt8 → Bool}
    (hset : ∀ vm f id b pt, set (VmState.withFrame vm f) id b pt = (set vm id b pt).withFrame f)
    (hq : ∀ vm f id, q (VmState.withFrame vm f) id = q vm id) :
    FrameBlind fun _ => opTimer set q := by
  intro h vm f i
  simp only [opTimer, VmState.withFrame_reg, hset, hq, VmState.ite_withFrame]
  rfl

lemma frameBlind_opCtu : FrameBlind opCtu := by
  intro h vm f i
  simp only [opCtu, VmState.withFrame_reg, cvOrImm_withFrame, VmState.ite_withFrame]
  rfl

lemma frameBlind_opCtd : FrameBlind opCtd := by
  intro h vm f i
  simp only [opCtd, VmState.withFrame_reg, cvOrImm_withFrame, VmState.ite_withFrame]
  rfl

lemma frameBlind_opCtud : FrameBlind opCtud := by
  intro h vm f i
  simp only [opCtud, VmState.withFrame_reg, VmState.ite_withFrame]
  rfl

lemma frameBlind_opLimit : FrameBlind opLimit := fun _ _ _ _ => rfl

lemma frameBlind_opSel : FrameBlind opSel := by
  intro h vm f i
  simp only [opSel, bv_withFrame, VmState.withFrame_reg, vmMr32_withFrame, setAVal_withFrame,
    VmState.ite_withFrame]
  rfl

lemma frameBlind_opMux : FrameBlind opMux := by
  intro h vm f i
  simp only [opMux, bv_withFrame, cvOrImm_withFrame, vmMr32_withFrame, setAVal_withFrame,
    VmState.ite_withFrame]
  rfl

lemma frameBlind_opRisingEdge : FrameBlind opRisingEdge := by
  intro h vm f i
  simp only [opRisingEdge, edgeId_withFrame, bv_withFrame, VmState.ite_withFrame]
  rfl

lemma frameBlind_opFallingEdge : FrameBlind opFallingEdge := by
  intro h vm f i
  simp only [opFallingEdge, edgeId_withFrame, bv_withFrame, VmState.ite_withFrame]
  rfl

lemma frameBlind_opEdgeBoth : FrameBlind opEdgeBoth := by
  intro h vm f i
  simp only [opEdgeBoth, edgeId_withFrame, bv_withFrame, VmState.ite_withFrame]
  rfl

lemma frameBlind_opRsLatch : FrameBlind opRsLatch := by
  intro h vm f i
  simp only [opRsLatch, VmState.withFrame_reg, VmState.ite_withFrame]
  rfl

lemma frameBlind_opSrLatch : FrameBlind opSrLatch := by
  intro h vm f i
  simp only [opSrLatch, VmState.withFrame_reg, VmState.ite_withFrame]
  rfl

lemma frameBlind_opDemux : FrameBlind opDemux := by
  intro h vm f i
  simp only [opDemux, bv_withFrame, cvOrImm_withFrame, VmState.withFrame_reg, vmMw32_withFrame,
    VmState.ite_withFrame]
  rfl

lemma frameBlind_opNop : FrameBlind opNop := fun _ _ _ _ => rfl

/-! ### The table -/

/-- The handlers below `JMP`. -/
lemma frameBlind_of_mem : ∀ op ∈ defaultOpEx.take 62, FrameBlind op := by
  simp only [defaultOpEx, List.take_succ_cons, List.take_zero, List.forall_mem_cons]
  refine ⟨?_, ?_, ?_, ?_, ?_, ?_, ?_, ?_, ?_, ?_, ?_, ?_, ?_, ?_, ?_, ?_, ?_, ?_, ?_, ?_, ?_,
    ?_, ?_, ?_, ?_, ?_, ?_, ?_, ?_, ?_, ?_, ?_, ?_, ?_, ?_, ?_, ?_, ?_, ?_,
    frameBlind_opLen, frameBlind_opConcat, frameBlind_opLeft, frameBlind_opRight,
    frameBlind_opMid, frameBlind_opInsert, frameBlind_opDelete, frameBlind_opReplace,
    frameBlind_opTimer (fun _ _ _ _ _ => rfl) fun _ _ _ => rfl,
    frameBlind_opTimer (fun _ _ _ _ _ => rfl) fun _ _ _ => rfl,
    frameBlind_opTimer (fun _ _ _ _ _ => rfl) fun _ _ _ => rfl,
    frameBlind_opCtu, frameBlind_opCtd, frameBlind_opCtud, frameBlind_opLimit, frameBlind_opSel,
    frameBlind_opMux, frameBlind_opRisingEdge, frameBlind_opFallingEdge, frameBlind_opEdgeBoth,
    frameBlind_opRsLatch, frameBlind_opSrLatch, frameBlind_opDemux, by simp⟩
  all_goals
    first
    | exact frameBlind_opBinary _
    | exact frameBlind_opUnary _
    | exact frameBlind_setAVal _

/-- What a byte can select from the opcode table. -/
lemma opEx_cases {opcode : UInt8} {op : OpEx} (hop : opEx opcode = some op) :
    (FrameBlind op ∧ opcode.toNat ∉ [62, 63, 64, 65, 66]) ∨
      (opcode = 62 ∧ op = opJmp) ∨ (opcode = 63 ∧ op = opJmpIf) ∨
      (opcode = 64 ∧ op = opJmpIfNot) ∨ (opcode = 65 ∧ op = opExit) ∨
      (opcode = 66 ∧ op = opHalt) := by
  obtain ⟨hlt, hget⟩ := List.getElem?_eq_some_iff.1 hop
  have hlen : opcode.toNat < 68 := length_defaultOpEx ▸ hlt
  by_cases hdata : opcode.toNat < 62
  · refine Or.inl ⟨frameBlind_of_mem op ?_, by simp; omega⟩
    rw [List.mem_take_iff_getElem]
    exact ⟨opcode.toNat, by rw [length_defaultOpEx]; omega, hget⟩
  · have hcode : opcode = UInt8.ofNat opcode.toNat := by simp
    generalize opcode.toNat = n at *
    interval_cases n
    · exact Or.inr (Or.inl ⟨hcode, hget.symm⟩)
    · exact Or.inr (Or.inr (Or.inl ⟨hcode, hget.symm⟩))
    · exact Or.inr (Or.inr (Or.inr (Or.inl ⟨hcode, hget.symm⟩)))
    · exact Or.inr (Or.inr (Or.inr (Or.inr (Or.inl ⟨hcode, hget.symm⟩))))
    · exact Or.inr (Or.inr (Or.inr (Or.inr (Or.inr ⟨hcode, hget.symm⟩))))
    · refine Or.inl ⟨?_, by decide⟩
      rw [← hget]
      exact frameBlind_opNop

end Vm32
