/-
# What depends on the time

Virtual time is read by the timers and by nothing else: the other handlers take the hour from the
host, and the loop of `run_program` uses the time only to let cycles end.  So two machines that
differ in their clocks, in the options for them and in the instances of the timers stay alike but
for these, as long as no timer is executed.
-/
import Vm32.System.SingleCycle

namespace Vm32

open LabelledRun

/-- The fields about times: the options for the clock, virtual time and the instances of the
timers. -/
structure Clocks where
  clockRateHz : UInt32
  cycleTimeMs : UInt32
  enableTickTiming : Bool
  timeMs : UInt64
  instrNsAccum : UInt64
  tonTimers : ℕ → IECTimer
  tofTimers : ℕ → IECTimer
  tpTimers : ℕ → IECTimer
  tonrTimers : ℕ → IECTimer
  tofrTimers : ℕ → IECTimer

namespace VmState

/-- The clocks of a state. -/
def clocks (vm : VmState) : Clocks :=
  ⟨vm.config.clockRateHz, vm.config.cycleTimeMs, vm.config.enableTickTiming, vm.timeMs,
    vm.instrNsAccum, vm.tonTimers, vm.tofTimers, vm.tpTimers, vm.tonrTimers, vm.tofrTimers⟩

/-- The state with other clocks. -/
def withClocks (vm : VmState) (k : Clocks) : VmState :=
  { vm with
    config := { vm.config with
      clockRateHz := k.clockRateHz, cycleTimeMs := k.cycleTimeMs
      enableTickTiming := k.enableTickTiming }
    timeMs := k.timeMs, instrNsAccum := k.instrNsAccum
    tonTimers := k.tonTimers, tofTimers := k.tofTimers, tpTimers := k.tpTimers
    tonrTimers := k.tonrTimers, tofrTimers := k.tofrTimers }

variable (vm : VmState) (k k' : Clocks)

@[simp] lemma withClocks_clocks : vm.withClocks vm.clocks = vm := rfl
@[simp] lemma withClocks_withClocks : (vm.withClocks k).withClocks k' = vm.withClocks k' := rfl

lemma ite_withClocks (p : Prop) [Decidable p] (a b : VmState) :
    (if p then a else b).withClocks k = if p then a.withClocks k else b.withClocks k :=
  apply_ite (·.withClocks k) p a b

@[simp] lemma withClocks_reg : (vm.withClocks k).reg = vm.reg := rfl
@[simp] lemma withClocks_pc : (vm.withClocks k).pc = vm.pc := rfl

end VmState

section Access

variable (vm : VmState) (k : Clocks)

@[simp] lemma bv_withClocks (i : UInt32) : bv (vm.withClocks k) i = bv vm i := rfl
@[simp] lemma cv_withClocks (i : UInt32) : cv (vm.withClocks k) i = cv vm i := rfl
@[simp] lemma cvOrImm_withClocks (i : UInt32) : cvOrImm (vm.withClocks k) i = cvOrImm vm i := rfl
@[simp] lemma edgeId_withClocks (i : UInt32) : edgeId (vm.withClocks k) i = edgeId vm i := rfl

@[simp] lemma vmMr32_withClocks (a : UInt32) : vmMr32 (vm.withClocks k) a = vmMr32 vm a := rfl

@[simp] lemma safeStrlenAt_withClocks (a : UInt32) :
    safeStrlenAt (vm.withClocks k) a = safeStrlenAt vm a := rfl

@[simp] lemma setAVal_withClocks (i v : UInt32) :
    setAVal (vm.withClocks k) i v = (setAVal vm i v).withClocks k := rfl

@[simp] lemma vmMw32_withClocks (a v : UInt32) :
    vmMw32 (vm.withClocks k) a v = (vmMw32 vm a v).withClocks k := rfl

@[simp] lemma memmove_withClocks (dest src n : ℕ) :
    memmove (vm.withClocks k) dest src n = (memmove vm dest src n).withClocks k := rfl

@[simp] lemma safeMemmove_withClocks (dest src : UInt32) (n : ℕ) :
    safeMemmove (vm.withClocks k) dest src n = (safeMemmove vm dest src n).withClocks k := rfl

@[simp] lemma setNullAt_withClocks (a : ℕ) :
    setNullAt (vm.withClocks k) a = (setNullAt vm a).withClocks k := by
  simp only [setNullAt]
  split_ifs <;> rfl

end Access

/-- The host with another monotonic clock. -/
def Host.withMonotonic (h : Host) (m : Timespec) : Host := { h with monotonic := m }

/-- The handler neither reads nor writes the clocks. -/
def TimeBlind (op : OpEx) : Prop :=
  ∀ h m vm k i, op (h.withMonotonic m) (vm.withClocks k) i = (op h vm i).withClocks k

/-- All handlers but those of `TON`, `TOF` and `TP`. -/
lemma timeBlind_of_mem : ∀ op ∈ defaultOpEx.take 47 ++ defaultOpEx.drop 50, TimeBlind op := by
  simp only [defaultOpEx, List.take_succ_cons, List.take_zero, List.drop_succ_cons, List.drop_zero,
    List.cons_append, List.nil_append, List.forall_mem_cons, List.not_mem_nil, false_imp_iff,
    implies_true, and_true]
  and_intros
  all_goals intro h m vm k i
  -- the handlers with a check or a loop are unfolded first
  all_goals
    (try simp only [opLen, opConcat, opLeft, opRight, opMid, opInsert, opDelete, opReplace, opCtu,
      opCtd, opCtud, opSel, opMux, opRisingEdge, opFallingEdge, opEdgeBoth, opRsLatch, opSrLatch,
      opDemux, opJmpIf, opJmpIfNot, bv_withClocks, cv_withClocks, cvOrImm_withClocks,
      edgeId_withClocks, vmMr32_withClocks, safeStrlenAt_withClocks, setAVal_withClocks,
      vmMw32_withClocks, memmove_withClocks, safeMemmove_withClocks, setNullAt_withClocks,
      VmState.withClocks_reg, VmState.ite_withClocks]) <;> rfl

/-- The opcodes of `TON`, `TOF` and `TP`. -/
def timerOpcodes : List ℕ := [47, 48, 49]

lemma timeBlind_of_opEx {opcode : UInt8} {op : OpEx} (hop : opEx opcode = some op)
    (hopcode : opcode.toNat ∉ timerOpcodes) : TimeBlind op := by
  have hget : defaultOpEx[opcode.toNat]? = some op := hop
  simp only [timerOpcodes, List.mem_cons, List.not_mem_nil, or_false, not_or] at hopcode
  refine timeBlind_of_mem op (List.mem_append.2 ?_)
  rcases Nat.lt_or_ge opcode.toNat 47 with hlt | hge
  · refine Or.inl (List.mem_of_getElem? (i := opcode.toNat) ?_)
    rw [List.getElem?_take_of_lt hlt, hget]
  · refine Or.inr (List.mem_of_getElem? (i := opcode.toNat - 50) ?_)
    rw [List.getElem?_drop, Nat.add_sub_cancel' (by omega), hget]

/-! ### One instruction -/

section Instruction

variable {vm : VmState} {k : Clocks} {h : Host}

lemma vmDecodeInstruction_withClocks (vm : VmState) (k : Clocks) (a : UInt32) :
    vmDecodeInstruction (vm.withClocks k) a =
      ((vmDecodeInstruction vm a).1, (vmDecodeInstruction vm a).2.withClocks k) := by
  simp only [vmDecodeInstruction, vmMr32_withClocks]
  have hcache : (vm.withClocks k).decodedCache = vm.decodedCache := rfl
  rw [hcache]
  cases vm.decodedCache with
  | none => rfl
  | some cache =>
    dsimp only
    split
    · rfl
    · split_ifs <;> rfl

/-- What follows an instruction changes the clocks only. -/
lemma vmUpdateTimeAfterInstruction_eq (h : Host) (vm : VmState) :
    ∃ k, vmUpdateTimeAfterInstruction h vm = vm.withClocks k := by
  refine ⟨(vmUpdateTimeAfterInstruction h vm).clocks, ?_⟩
  simp only [vmUpdateTimeAfterInstruction]
  split_ifs <;> rfl

/-- PC behind a handler is found in the same way whatever the clocks are. -/
lemma stepOver_withClocks (after : VmState) (pc : UInt32) :
    (if after.pc == pc then { after.withClocks k with pc := after.pc + 4 }
      else after.withClocks k) =
      (if after.pc == pc then { after with pc := after.pc + 4 } else after).withClocks k := by
  split_ifs <;> rfl

/-- The calls of a handler on two machines that differ in their clocks. -/
lemma callHandler_withClocks {op : OpEx} (hop : TimeBlind op) (m : Timespec) (raw : UInt32) :
    ∃ k', callHandler op (h.withMonotonic m) (vm.withClocks k) raw =
      (callHandler op h vm raw).withClocks k' := by
  simp only [callHandler, hop h m vm k raw, VmState.withClocks_pc, stepOver_withClocks]
  generalize (if (op h vm raw).pc == vm.pc then { op h vm raw with pc := (op h vm raw).pc + 4 }
    else op h vm raw) = after
  obtain ⟨k₁, hleft⟩ := vmUpdateTimeAfterInstruction_eq h after
  obtain ⟨k₂, hright⟩ := vmUpdateTimeAfterInstruction_eq (h.withMonotonic m) (after.withClocks k)
  exact ⟨k₂, by rw [hleft, hright, VmState.withClocks_withClocks, VmState.withClocks_withClocks]⟩

/-- The calls of `vm_run_instruction` on two machines that differ in their clocks. -/
lemma runInstruction_withClocks (m : Timespec) (mod : ModuleInfo) (moduleEnd : UInt32)
    (htimer : ∀ q ∈ (runInstruction vmDecodeInstruction h vm mod moduleEnd).2.handled,
      (opc q.2).toNat ∉ timerOpcodes) :
    ∃ k', runInstruction vmDecodeInstruction (h.withMonotonic m) (vm.withClocks k) mod moduleEnd =
      ((runInstruction vmDecodeInstruction h vm mod moduleEnd).1.withClocks k',
        (runInstruction vmDecodeInstruction h vm mod moduleEnd).2) := by
  simp only [runInstruction, VmState.withClocks_pc, vmMr32_withClocks,
    vmDecodeInstruction_withClocks] at htimer ⊢
  split_ifs with hout hzero
  · exact ⟨k, rfl⟩
  · exact ⟨k, rfl⟩
  · simp only [if_neg hout, if_neg hzero] at htimer
    generalize vmDecodeInstruction vm vm.pc = decoded at htimer ⊢
    obtain ⟨_ | d, vm'⟩ := decoded
    · exact ⟨k, rfl⟩
    · dsimp only at htimer ⊢
      cases hop : opEx (opc (vmMr32 vm vm.pc)) with
      | none =>
        refine ⟨k, ?_⟩
        rw [dispatch, dispatch, hop]
        rfl
      | some op =>
        rw [dispatch_of_handler hop] at htimer
        have hblind := timeBlind_of_opEx hop (htimer (vm'.pc, vmMr32 vm vm.pc) rfl)
        obtain ⟨k', hk'⟩ := @callHandler_withClocks vm' k h op hblind m d.rawInstr
        refine ⟨k', ?_⟩
        rw [dispatch_of_handler hop, dispatch_of_handler hop, hk']
        rfl

end Instruction

/-! ### Around the instructions -/

section Around

variable (vm : VmState) (k : Clocks)

lemma loadLoop_withClocks (files : List NamedFile) (p : UInt32) :
    loadLoop files p (vm.withClocks k) =
      ((loadLoop files p vm).1.withClocks k, (loadLoop files p vm).2) := by
  induction files generalizing p vm with
  | nil => rfl
  | cons f fs ih =>
    simp only [loadLoop]
    split_ifs
    · rfl
    · rfl
    · exact ih (vm.addModule _) _
    · rfl
    · rfl
    · exact ih (((vm.fread _ _).addModule _).addProgramSize _) _

lemma loadPrograms_withClocks (files : List NamedFile) :
    loadPrograms (vm.withClocks k) files =
      ((loadPrograms vm files).1.withClocks k, (loadPrograms vm files).2) := by
  by_cases hne : files = []
  · rw [hne]
    rfl
  · have hloop : loadLoop files (vm.withClocks k).pcStart (forgetProgram (vm.withClocks k)) =
        ((loadLoop files vm.pcStart (forgetProgram vm)).1.withClocks k,
          (loadLoop files vm.pcStart (forgetProgram vm)).2) :=
      loadLoop_withClocks (forgetProgram vm) k files vm.pcStart
    rw [loadPrograms_eq hne, loadPrograms_eq hne, hloop]
    split_ifs <;> rfl

/-- A reload does not ask for the time. -/
lemma applyPendingReload_withClocks (d : Dir) :
    applyPendingReload (vm.withClocks k) d = (applyPendingReload vm d).withClocks k := by
  cases hdir : vm.programDir with
  | none =>
    have hdir' : (vm.withClocks k).programDir = none := hdir
    rw [applyPendingReload_of_idle (Or.inl hdir), applyPendingReload_of_idle (Or.inl hdir')]
  | some dir =>
    have hdir' : (vm.withClocks k).programDir = some dir := hdir
    cases hpending : vm.reloadPending with
    | false =>
      have hpending' : (vm.withClocks k).reloadPending = false := hpending
      rw [applyPendingReload_of_idle (Or.inr hpending),
        applyPendingReload_of_idle (Or.inr hpending')]
    | true =>
      have hpending' : (vm.withClocks k).reloadPending = true := hpending
      have hload : loadPrograms ((vm.withClocks k).setReloadPending false) (reloadFiles dir d) =
          ((loadPrograms (vm.setReloadPending false) (reloadFiles dir d)).1.withClocks k,
            (loadPrograms (vm.setReloadPending false) (reloadFiles dir d)).2) :=
        loadPrograms_withClocks (vm.setReloadPending false) k (reloadFiles dir d)
      rw [applyPendingReload_of_pending hdir hpending,
        applyPendingReload_of_pending hdir' hpending', reloadProgramsFromDirectory_eq,
        reloadProgramsFromDirectory_eq, hload]
      split_ifs <;> rfl

lemma pollDirectory_withClocks (d : Dir) :
    pollDirectory (vm.withClocks k) d = (pollDirectory vm d).withClocks k := by
  simp only [pollDirectory]
  cases hdir : vm.programDir <;> simp only [VmState.withClocks, hdir]

lemma cycleTop_withClocks (b : Bool) :
    cycleTop b (vm.withClocks k) = ((cycleTop b vm).1.withClocks k, (cycleTop b vm).2) := by
  cases b <;> simp only [cycleTop, VmState.withClocks, Bool.false_eq_true, if_false, if_true]
  · split_ifs <;> rfl

/-- The end of a cycle moves the clocks and remembers the hash of the registers. -/
lemma cycleTail_eq (startMs : UInt64) :
    ∃ k, (cycleTail startMs vm).1 =
      { vm with
        prevCycleHash := calculateRegistersHash vm.reg vm.config.hashAlgo }.withClocks k := by
  have hfinish : finishCycleTime startMs vm =
      { vm with timeMs := (finishCycleTime startMs vm).timeMs } := by
    simp only [finishCycleTime]
    split_ifs <;> rfl
  refine ⟨(cycleTail startMs vm).1.clocks, ?_⟩
  simp only [cycleTail]
  rw [hfinish]
  rfl

end Around

/-! ### Steps and runs -/

/-- Where the loop is if the cycle started at another time. -/
def Ctl.startingAt (startMs : UInt64) : Ctl → Ctl
  | .module idx _ => .module idx startMs
  | .instr idx mod count _ => .instr idx mod count startMs
  | .tail _ => .tail startMs
  | ctl => ctl

/-- The machines differ in their clocks only, and in when the cycle started. -/
structure AlikeButClocks (c c' : Config) : Prop where
  vm : ∃ k, c'.vm = c.vm.withClocks k
  ctl : ∃ startMs, c'.ctl = c.ctl.startingAt startMs

/-- The environments differ in the monotonic clock only. -/
structure Env.AlikeButClock (e e' : Env) : Prop where
  dir : e'.dir = e.dir
  vmStopRequested : e'.vmStopRequested = e.vmStopRequested
  host : ∃ m, e'.host = e.host.withMonotonic m

/-- A step that executes no timer. -/
def ExecutesNoTimer (c : Config) (e : Env) : Prop :=
  ∀ q ∈ handled c e, (opc q.2).toNat ∉ timerOpcodes

instance : ∀ c e, Decidable (ExecutesNoTimer c e) := fun c e =>
  inferInstanceAs (Decidable (∀ q ∈ handled c e, (opc q.2).toNat ∉ timerOpcodes))

section Steps

variable {c c' : Config} {e e' : Env}

/-- One step of both machines. -/
lemma AlikeButClocks.step (hc : AlikeButClocks c c') (he : e.AlikeButClock e')
    (htimer : ExecutesNoTimer c e) :
    AlikeButClocks (step vmDecodeInstruction c e) (Vm32.step vmDecodeInstruction c' e') ∧
      handled c' e' = handled c e := by
  obtain ⟨vm, ctl⟩ := c
  obtain ⟨vm', ctl'⟩ := c'
  obtain ⟨⟨k, hvm⟩, t, hctl⟩ := hc
  obtain ⟨host, _, _⟩ := e
  obtain ⟨_, dir, stop⟩ := e'
  obtain ⟨hdir, hstop, m, hhost⟩ := he
  dsimp only at hvm hctl hdir hstop hhost
  subst hvm hctl hdir hstop hhost
  cases ctl with
  | poll => exact ⟨⟨⟨k, pollDirectory_withClocks vm k dir⟩, t, rfl⟩, rfl⟩
  | reload =>
    exact ⟨⟨⟨k, applyPendingReload_withClocks vm k dir⟩, t, rfl⟩, rfl⟩
  | top =>
    simp only [Vm32.step, Ctl.startingAt, cycleTop_withClocks]
    refine ⟨⟨⟨k, rfl⟩, (vm.withClocks k).timeMs, ?_⟩, rfl⟩
    cases (cycleTop stop vm).2 <;> rfl
  | module idx startMs =>
    have hmodules : (vm.withClocks k).modules = vm.modules := rfl
    simp only [Vm32.step, Ctl.startingAt, hmodules]
    cases vm.modules[idx]? with
    | none => exact ⟨⟨⟨k, rfl⟩, t, rfl⟩, rfl⟩
    | some mod => exact ⟨⟨⟨k, rfl⟩, t, rfl⟩, rfl⟩
  | instr idx mod count startMs =>
    have hkeeps : keepsRunning (vm.withClocks k) count = keepsRunning vm count := rfl
    simp only [ExecutesNoTimer, handled, outcome] at htimer
    simp only [Vm32.step, handled, outcome, Ctl.startingAt, hkeeps]
    split_ifs at htimer ⊢ with hkeep
    · obtain ⟨k', hk'⟩ := runInstruction_withClocks (k := k) m mod (moduleEnd mod) htimer
      simp only [hk']
      refine ⟨⟨⟨k', rfl⟩, t, ?_⟩, trivial⟩
      cases (runInstruction vmDecodeInstruction host vm mod (moduleEnd mod)).2 <;> rfl
    · exact ⟨⟨⟨k, rfl⟩, t, rfl⟩, rfl⟩
  | tail startMs =>
    obtain ⟨k₁, hleft⟩ := cycleTail_eq vm startMs
    obtain ⟨k₂, hright⟩ := cycleTail_eq (vm.withClocks k) t
    refine ⟨⟨⟨k₂, ?_⟩, t, rfl⟩, rfl⟩
    simp only [Vm32.step, Ctl.startingAt, hleft, hright]
    rfl
  | finished => exact ⟨⟨⟨k, rfl⟩, t, rfl⟩, rfl⟩

/-- The first lines of `run_program` set the clock, and the algorithm of the hashes. -/
lemma alikeButClocks_start (h : Host) (vm : VmState) (m : Timespec) (k : Clocks) :
    AlikeButClocks (start h vm) (start (h.withMonotonic m) (vm.withClocks k)) :=
  ⟨⟨(start (h.withMonotonic m) (vm.withClocks k)).vm.clocks, rfl⟩, 0, rfl⟩

end Steps

section Runs

variable {h : Host} {vm : VmState} {es es' : List Env}

/-- As long as no timer is executed, the clocks have no influence: from machines that differ in
them, in the options for them and in the instances of the timers, under environments that differ
in the monotonic clock, `run_program` executes the same instructions, and after every step the two
machines differ in nothing else. -/
theorem time_blind_run (m : Timespec) (k : Clocks) (hes : List.Forall₂ Env.AlikeButClock es es')
    (htimer : Along (step vmDecodeInstruction) ExecutesNoTimer (start h vm) es) :
    AlikeButClocks (runProgram h vm es)
        (runProgram (h.withMonotonic m) (vm.withClocks k) es') ∧
      trace (step vmDecodeInstruction) handled (start (h.withMonotonic m) (vm.withClocks k)) es' =
        trace (step vmDecodeInstruction) handled (start h vm) es :=
  htimer.related (alikeButClocks_start h vm m k) hes
    fun _ _ _ _ hc he htimer => hc.step he htimer

/-- Another rate of the clock, ticks of the host and a clock of the host that moves: the loop adds
up to the same registers. -/
theorem time_blind_run_addLoop :
    let k : Clocks := { addLoop.clocks with clockRateHz := 10, enableTickTiming := true }
    let e' : Env := { idleEnv with host := idleHost.withMonotonic ⟨5, 0⟩ }
    AlikeButClocks (runProgram idleHost addLoop (List.replicate 8 idleEnv))
        (runProgram (idleHost.withMonotonic ⟨7, 0⟩) (addLoop.withClocks k)
          (List.replicate 8 e')) ∧
      trace (step vmDecodeInstruction) handled
          (start (idleHost.withMonotonic ⟨7, 0⟩) (addLoop.withClocks k)) (List.replicate 8 e') =
        trace (step vmDecodeInstruction) handled (start idleHost addLoop)
          (List.replicate 8 idleEnv) := by
  intro k e'
  have halike : idleEnv.AlikeButClock e' := ⟨rfl, rfl, ⟨5, 0⟩, rfl⟩
  exact time_blind_run ⟨7, 0⟩ k (by simp [List.replicate_succ, halike]) (by decide +kernel)

end Runs

end Vm32
