/-
# When the decode cache is transparent

The opcode is taken from a fresh fetch and the operands from the cached word, and nothing
invalidates a cached word: neither a write to its address nor a reload.  The machine with the
cache and the machine that decodes afresh are run in lockstep; they stay equal, the cache
apart, as long as every word that is decoded is the one that was decoded at the same address
before.
-/
import Vm32.Vm.RunProgram
import Vm32.Vm.Lifecycle

namespace Vm32

open LabelledRun

/-! ### One instruction -/

/-- What is cached for the address for which a handler is called, if anything, is the word in
memory. -/
def DecodeCache.Fresh (cache : DecodeCache) (o : Outcome) : Prop :=
  ∀ q ∈ o.handled, ∀ d ∈ cache.lookup q.1, d.rawInstr = q.2

lemma DecodeCache.fresh_empty (o : Outcome) : DecodeCache.empty.Fresh o :=
  fun q _ d hd => by simp at hd

instance : DecidableRel DecodeCache.Fresh := fun cache o =>
  inferInstanceAs (Decidable (∀ q ∈ o.handled, ∀ d ∈ cache.lookup q.1, d.rawInstr = q.2))

lemma decoded_dispatch (h : Host) (vm : VmState) (instr raw : UInt32) :
    (dispatch h vm instr raw).2.decoded = some (vm.pc, instr) := by
  rw [dispatch_outcome]
  split_ifs <;> rfl

/-- Only a handler looks at the word from the cache. -/
lemma dispatch_raw {h : Host} {vm : VmState} {instr raw : UInt32}
    (hraw : (dispatch h vm instr instr).2.handled = some (vm.pc, instr) → raw = instr) :
    dispatch h vm instr raw = dispatch h vm instr instr := by
  cases hop : opEx (opc instr) with
  | none => simp only [dispatch, hop]
  | some op => rw [hraw (by rw [dispatch_outcome, hop]; rfl)]

/-- The two decoders in lockstep: behind the last word of memory both fail, and elsewhere the
cached entry, if there is one, stands for the word in memory.  At most that word is added. -/
lemma vmDecodeInstruction_withCache (vm : VmState) (cache : DecodeCache) (addr : UInt32) :
    ∃ cache' : DecodeCache,
      (decodeAfresh vm addr = (none, vm) ∧
          vmDecodeInstruction (vm.withCache (some cache)) addr =
            (none, vm.withCache (some cache')) ∨
        ∃ d, decodeAfresh vm addr = (some (decodeWord (vmMr32 vm addr)), vm) ∧
          vmDecodeInstruction (vm.withCache (some cache)) addr =
            (some d, vm.withCache (some cache')) ∧
          (cache.lookup addr = some d ∨ d = decodeWord (vmMr32 vm addr))) ∧
      ∀ a d, cache'.lookup a = some d →
        cache.lookup a = some d ∨ a = addr ∧ (decodeAfresh vm addr).1 = some d := by
  cases hlook : cache.lookup addr with
  | some d =>
    have hin : ¬vmMemBytes - 3 ≤ addr.toNat := not_le.2 (DecodeCache.lt_of_lookup hlook)
    have hhit : (vm.withCache (some cache)).cached addr = some d := hlook
    refine ⟨cache, Or.inr ⟨d, if_neg hin, ?_, Or.inl rfl⟩, fun a d hd => Or.inl hd⟩
    exact vmDecodeInstruction_of_hit hhit
  | none =>
    have hc : (vm.withCache (some cache)).decodedCache = some cache := rfl
    obtain ⟨cache', hdec, hlook'⟩ := vmDecodeInstruction_of_miss hc hlook
    -- the word is decoded from memory, which the cache is not part of
    have hfst : (decodeAfresh (vm.withCache (some cache)) addr).1 = (decodeAfresh vm addr).1 := by
      rw [decodeAfresh, decodeAfresh]
      split_ifs <;> rfl
    rw [hfst] at hdec hlook'
    refine ⟨cache', ?_, fun a d hd => ?_⟩
    · by_cases hend : vmMemBytes - 3 ≤ addr.toNat
      · have hnone : decodeAfresh vm addr = (none, vm) := if_pos hend
        rw [hnone] at hdec
        exact Or.inl ⟨hnone, hdec⟩
      · have hsome : decodeAfresh vm addr = (some (decodeWord (vmMr32 vm addr)), vm) := if_neg hend
        rw [hsome] at hdec
        exact Or.inr ⟨_, hsome, hdec, Or.inr rfl⟩
    · rw [hlook'] at hd
      split_ifs at hd with ha
      · exact Or.inr ⟨ha, hd⟩
      · exact Or.inl hd

/-- The step with a cache that is fresh for it is the step without, and at most the word at PC
is added to the cache. -/
lemma runInstruction_agrees {vm : VmState} {cache : DecodeCache} {h : Host} {mod : ModuleInfo}
    {moduleEnd : UInt32}
    (hcoh : cache.Fresh (runInstruction decodeAfresh h vm mod moduleEnd).2) :
    ∃ cache' : DecodeCache,
      runInstruction vmDecodeInstruction h (vm.withCache (some cache)) mod moduleEnd =
        ((runInstruction decodeAfresh h vm mod moduleEnd).1.withCache (some cache'),
          (runInstruction decodeAfresh h vm mod moduleEnd).2) ∧
      ∀ a d, cache'.lookup a = some d → cache.lookup a = some d ∨
        (runInstruction decodeAfresh h vm mod moduleEnd).2.decoded = some (a, d.rawInstr) := by
  by_cases hin : moduleEnd ≤ vm.pc ∨ vm.pc < mod.addr
  · have hin' : moduleEnd ≤ (vm.withCache (some cache)).pc ∨
      (vm.withCache (some cache)).pc < mod.addr := hin
    -- outside the module nothing is decoded
    rw [runInstruction_outside hin, runInstruction_outside hin']
    exact ⟨cache, rfl, fun a d hd => Or.inl hd⟩
  have hin' : ¬(moduleEnd ≤ (vm.withCache (some cache)).pc ∨
    (vm.withCache (some cache)).pc < mod.addr) := hin
  by_cases hzero : vmMr32 vm vm.pc = 0
  · have hzero' : vmMr32 (vm.withCache (some cache)) (vm.withCache (some cache)).pc = 0 := hzero
    -- a zero word stops the machine before it is decoded
    rw [runInstruction_zero hin hzero, runInstruction_zero hin' hzero']
    exact ⟨cache, rfl, fun a d hd => Or.inl hd⟩
  have hzero' : vmMr32 (vm.withCache (some cache)) (vm.withCache (some cache)).pc ≠ 0 := hzero
  obtain ⟨cache', hdec, hadds⟩ := vmDecodeInstruction_withCache vm cache vm.pc
  rcases hdec with ⟨hnone, hdec⟩ | ⟨d, hsome, hdec, hentry⟩
  · rw [runInstruction_none hin hzero hnone, runInstruction_none hin' hzero' hdec]
    refine ⟨cache', rfl, fun a d hd => (hadds a d hd).imp_right ?_⟩
    rintro ⟨-, hd⟩
    rw [hnone] at hd
    cases hd
  · rw [runInstruction_some hin hzero hsome] at hcoh ⊢
    rw [runInstruction_some hin' hzero' hdec, decoded_dispatch]
    -- wherever a handler reads the entry, it is still the word in memory
    have hraw : dispatch h vm (vmMr32 vm vm.pc) d.rawInstr =
        dispatch h vm (vmMr32 vm vm.pc) (vmMr32 vm vm.pc) := by
      refine dispatch_raw fun hcall => ?_
      rcases hentry with hlook | rfl
      · exact hcoh _ hcall d hlook
      · rfl
    refine ⟨cache', ?_, fun a d hd => (hadds a d hd).imp_right ?_⟩
    · have hword : vmMr32 (vm.withCache (some cache)) (vm.withCache (some cache)).pc =
          vmMr32 vm vm.pc := rfl
      rw [hword, dispatch_withCache, hraw]
      rfl
    · rintro ⟨rfl, hadded⟩
      rw [hsome] at hadded
      obtain rfl := Option.some.inj hadded
      rfl

/-! ### The other steps do not touch the cache -/

/-- The state with another decode cache and another number of the cycle. -/
def VmState.withCacheAndCount (vm : VmState) (k : Option DecodeCache) (n : UInt32) : VmState :=
  { vm with decodedCache := k, cycleCount := n }

section Loading

variable (vm : VmState) (k : Option DecodeCache) (n : UInt32)

lemma loadLoop_withCacheAndCount (files : List NamedFile) (p : UInt32) :
    loadLoop files p (vm.withCacheAndCount k n) =
      ((loadLoop files p vm).1.withCacheAndCount k n, (loadLoop files p vm).2) := by
  induction files generalizing p vm with
  | nil => rfl
  | cons f fs ih =>
    simp only [loadLoop]
    split_ifs
    · rfl
    · rfl
    · exact ih (vm.addModule _) _
    · rfl
    · rfl
    · exact ih (((vm.fread _ _).addModule _).addProgramSize _) _

lemma loadPrograms_withCacheAndCount (files : List NamedFile) :
    loadPrograms (vm.withCacheAndCount k n) files =
      ((loadPrograms vm files).1.withCacheAndCount k n, (loadPrograms vm files).2) := by
  by_cases hne : files = []
  · rw [hne]
    rfl
  have hloop : loadLoop files (vm.withCacheAndCount k n).pcStart
      (forgetProgram (vm.withCacheAndCount k n)) =
      ((loadLoop files vm.pcStart (forgetProgram vm)).1.withCacheAndCount k n,
        (loadLoop files vm.pcStart (forgetProgram vm)).2) :=
    loadLoop_withCacheAndCount (forgetProgram vm) k n files vm.pcStart
  rw [loadPrograms_eq hne, loadPrograms_eq hne, hloop]
  split_ifs <;> rfl

lemma reloadProgramsFromDirectory_withCacheAndCount (dir : List UInt8) (d : Dir) :
    reloadProgramsFromDirectory (vm.withCacheAndCount k n) dir d =
      ((reloadProgramsFromDirectory vm dir d).1.withCacheAndCount k n,
        (reloadProgramsFromDirectory vm dir d).2) := by
  rw [reloadProgramsFromDirectory_eq, reloadProgramsFromDirectory_eq,
    loadPrograms_withCacheAndCount]
  split_ifs <;> rfl

lemma pollDirectory_withCacheAndCount (d : Dir) :
    pollDirectory (vm.withCacheAndCount k n) d = (pollDirectory vm d).withCacheAndCount k n := by
  simp only [pollDirectory]
  cases hdir : vm.programDir <;> simp only [VmState.withCacheAndCount, hdir]

lemma applyPendingReload_withCacheAndCount (d : Dir) :
    applyPendingReload (vm.withCacheAndCount k n) d =
      (applyPendingReload vm d).withCacheAndCount k n := by
  have hdirs : (vm.withCacheAndCount k n).programDir = vm.programDir := rfl
  have hflags : (vm.withCacheAndCount k n).reloadPending = vm.reloadPending := rfl
  cases hdir : vm.programDir with
  | none =>
    rw [applyPendingReload_of_idle (Or.inl hdir),
      applyPendingReload_of_idle (Or.inl (hdirs.trans hdir))]
  | some dir =>
    cases hpending : vm.reloadPending with
    | false =>
      rw [applyPendingReload_of_idle (Or.inr hpending),
        applyPendingReload_of_idle (Or.inr (hflags.trans hpending))]
    | true =>
      have hflag : (vm.withCacheAndCount k n).setReloadPending false =
          (vm.setReloadPending false).withCacheAndCount k n := rfl
      rw [applyPendingReload_of_pending hdir hpending,
        applyPendingReload_of_pending (hdirs.trans hdir) (hflags.trans hpending), hflag,
        reloadProgramsFromDirectory_withCacheAndCount]
      rfl

end Loading

section WithCache

variable (vm : VmState) (k : Option DecodeCache)

lemma pollDirectory_withCache (d : Dir) :
    pollDirectory (vm.withCache k) d = (pollDirectory vm d).withCache k := by
  have hcount := pollDirectory_keeps (f := VmState.cycleCount) (fun _ _ _ => rfl) vm d
  refine (pollDirectory_withCacheAndCount vm k vm.cycleCount d).trans ?_
  rw [← hcount]
  rfl

lemma applyPendingReload_withCache (d : Dir) :
    applyPendingReload (vm.withCache k) d = (applyPendingReload vm d).withCache k := by
  have hcount := applyPendingReload_keeps (f := VmState.cycleCount) (fun _ _ _ _ _ _ => rfl) vm d
  refine (applyPendingReload_withCacheAndCount vm k vm.cycleCount d).trans ?_
  rw [← hcount]
  rfl

lemma cycleTop_withCache (b : Bool) :
    cycleTop b (vm.withCache k) = ((cycleTop b vm).1.withCache k, (cycleTop b vm).2) := by
  cases b <;> simp only [cycleTop, VmState.withCache, Bool.false_eq_true, if_false, if_true]
  · split_ifs <;> rfl

lemma finishCycleTime_withCache (startMs : UInt64) :
    finishCycleTime startMs (vm.withCache k) = (finishCycleTime startMs vm).withCache k := by
  simp only [finishCycleTime, VmState.ite_withCache]
  rfl

lemma cycleTail_withCache (startMs : UInt64) :
    cycleTail startMs (vm.withCache k) =
      ((cycleTail startMs vm).1.withCache k, (cycleTail startMs vm).2) := by
  simp only [cycleTail, finishCycleTime_withCache]
  rfl

end WithCache

/-! ### Lockstep -/

/-- The machine with another decode cache. -/
def Config.withCache (c : Config) (k : Option DecodeCache) : Config := ⟨c.vm.withCache k, c.ctl⟩

/-- If the second call invokes a handler for the address that the first one decoded, then it
finds the same word there. -/
def Outcome.SameWord (o o' : Outcome) : Prop :=
  ∀ p ∈ o.decoded, ∀ q ∈ o'.handled, q.1 = p.1 → q.2 = p.2

instance : DecidableRel Outcome.SameWord := fun o o' =>
  inferInstanceAs (Decidable (∀ p ∈ o.decoded, ∀ q ∈ o'.handled, q.1 = p.1 → q.2 = p.2))

/-- A step of the machine with a cache that is fresh for this step. -/
lemma step_agrees {c : Config} {e : Env} {cache : DecodeCache}
    (hfresh : ∀ o ∈ outcome decodeAfresh c e, cache.Fresh o) :
    ∃ cache' : DecodeCache,
      step vmDecodeInstruction (c.withCache (some cache)) e =
        (step decodeAfresh c e).withCache (some cache') ∧
      outcome vmDecodeInstruction (c.withCache (some cache)) e = outcome decodeAfresh c e ∧
      ∀ a d, cache'.lookup a = some d → cache.lookup a = some d ∨
        ∃ o ∈ outcome decodeAfresh c e, o.decoded = some (a, d.rawInstr) := by
  obtain ⟨vm, ctl⟩ := c
  cases ctl with
  | poll =>
    -- only an instruction looks into the cache
    refine ⟨cache, ?_, rfl, fun a d hd => Or.inl hd⟩
    simp only [step, Config.withCache, pollDirectory_withCache]
  | reload =>
    refine ⟨cache, ?_, rfl, fun a d hd => Or.inl hd⟩
    simp only [step, Config.withCache, applyPendingReload_withCache]
  | top =>
    refine ⟨cache, ?_, rfl, fun a d hd => Or.inl hd⟩
    simp only [step, Config.withCache, cycleTop_withCache]
    rfl
  | module idx startMs =>
    refine ⟨cache, ?_, rfl, fun a d hd => Or.inl hd⟩
    simp only [step, Config.withCache, VmState.withCache_modules]
    cases vm.modules[idx]? <;> rfl
  | instr idx mod count startMs =>
    by_cases hrun : keepsRunning vm count = true
    · have hout : outcome decodeAfresh ⟨vm, .instr idx mod count startMs⟩ e =
          some (runInstruction decodeAfresh e.host vm mod (moduleEnd mod)).2 := if_pos hrun
      rw [hout] at hfresh ⊢
      obtain ⟨cache', heq, hlook⟩ := runInstruction_agrees (hfresh _ rfl)
      have hrun' : keepsRunning (vm.withCache (some cache)) count = true := hrun
      refine ⟨cache', ?_, ?_, fun a d hd => ?_⟩
      · simp only [step, Config.withCache, hrun, hrun', if_true, heq]
      · simp only [outcome, Config.withCache, hrun', if_true, heq]
      · exact (hlook a d hd).imp_right fun hdec => ⟨_, rfl, hdec⟩
    · have hout : outcome decodeAfresh ⟨vm, .instr idx mod count startMs⟩ e = none := if_neg hrun
      have hstep : step decodeAfresh ⟨vm, .instr idx mod count startMs⟩ e =
          ⟨vm, .module (idx + 1) startMs⟩ := if_neg hrun
      rw [hout, hstep]
      have hrun' : ¬keepsRunning (vm.withCache (some cache)) count = true := hrun
      exact ⟨cache, if_neg hrun', if_neg hrun', fun a d hd => Or.inl hd⟩
  | tail startMs =>
    refine ⟨cache, ?_, rfl, fun a d hd => Or.inl hd⟩
    simp only [step, Config.withCache, cycleTail_withCache]
  | finished => exact ⟨cache, rfl, rfl, fun a d hd => Or.inl hd⟩

/-- The machine with a cache runs as the machine without if every word it decodes is the word
that was decoded there before, be it in this run or before it. -/
theorem run_agrees {c : Config} {es : List Env} {cache : DecodeCache}
    (hsame : (trace (step decodeAfresh) (outcome decodeAfresh) c es).Pairwise Outcome.SameWord)
    (hfresh : ∀ o ∈ trace (step decodeAfresh) (outcome decodeAfresh) c es, cache.Fresh o) :
    ∃ cache' : DecodeCache,
      run (step vmDecodeInstruction) (c.withCache (some cache)) es =
        (run (step decodeAfresh) c es).withCache (some cache') ∧
      trace (step vmDecodeInstruction) (outcome vmDecodeInstruction)
        (c.withCache (some cache)) es = trace (step decodeAfresh) (outcome decodeAfresh) c es := by
  induction es generalizing c cache with
  | nil => exact ⟨cache, rfl, rfl⟩
  | cons e es ih =>
    simp only [trace_cons, List.mem_append, Option.mem_toList] at hsame hfresh
    obtain ⟨-, htail, hcross⟩ := List.pairwise_append.1 hsame
    obtain ⟨cache', hstep, hout, hlook⟩ := step_agrees fun o ho => hfresh o (Or.inl ho)
    -- an entry that the step added is the word that the step decoded
    have hfresh' : ∀ o ∈ trace (step decodeAfresh) (outcome decodeAfresh)
        (step decodeAfresh c e) es, cache'.Fresh o := by
      intro o ho q hq d hd
      rcases hlook q.1 d hd with hold | ⟨o', ho', hdec⟩
      · exact hfresh o (Or.inr ho) q hq d hold
      · exact (hcross o' (Option.mem_toList.2 ho') o ho _ hdec q hq rfl).symm
    obtain ⟨cache'', hrun, htrace⟩ := ih htail hfresh'
    refine ⟨cache'', ?_, ?_⟩
    · rw [run_cons, hstep, hrun, run_cons]
    · rw [trace_cons, hstep, htrace, hout, trace_cons]

/-- In particular the two machines differ in the cache only at every moment of the run. -/
lemma prefix_agrees {c : Config} {es pre : List Env} {cache : DecodeCache}
    (hsame : (trace (step decodeAfresh) (outcome decodeAfresh) c es).Pairwise Outcome.SameWord)
    (hfresh : ∀ o ∈ trace (step decodeAfresh) (outcome decodeAfresh) c es, cache.Fresh o)
    (hpre : pre <+: es) :
    ∃ cache' : DecodeCache,
      run (step vmDecodeInstruction) (c.withCache (some cache)) pre =
        (run (step decodeAfresh) c pre).withCache (some cache') := by
  obtain ⟨post, rfl⟩ := hpre
  rw [trace_append] at hsame hfresh
  obtain ⟨cache', hrun, -⟩ := run_agrees (List.pairwise_append.1 hsame).1
    fun o ho => hfresh o (List.mem_append_left _ ho)
  exact ⟨cache', hrun⟩

lemma Config.withCache_eq_self {c : Config} {k : Option DecodeCache}
    (hk : c.vm.decodedCache = k) : c.withCache k = c := by
  rw [← hk]
  rfl

/-- A cache that starts out empty is transparent along every run in which no executed word
differs from one that was decoded at its address before. -/
theorem decodeCache_transparent {c : Config} {es : List Env}
    (hempty : c.vm.decodedCache = some .empty)
    (hsame : (trace (step decodeAfresh) (outcome decodeAfresh) c es).Pairwise Outcome.SameWord) :
    ∀ pre, pre <+: es →
      (run (step vmDecodeInstruction) c pre).ctl = (run (step decodeAfresh) c pre).ctl ∧
      (run (step vmDecodeInstruction) c pre).vm.withCache none =
        (run (step decodeAfresh) c pre).vm.withCache none := by
  intro pre hpre
  obtain ⟨cache', hrun⟩ := prefix_agrees hsame (fun o _ => DecodeCache.fresh_empty o) hpre
  rw [Config.withCache_eq_self hempty] at hrun
  rw [hrun]
  exact ⟨rfl, rfl⟩

/-- A machine into which a program of one file was loaded, with the given registers. -/
def machineWith (program : List UInt8) (h : program.length < 2 ^ 63) (reg : UInt8 → UInt32) :
    VmState :=
  { (loadPrograms (vmTablesInit vmCreate) [⟨[112], .readable program h⟩]).1 with reg := reg }

/-- The loop `ADD R1, R1, #1; JMP R7`, with the address of its first instruction in R7. -/
def addLoop : VmState :=
  machineWith [1, 3, 2, 0, 0, 14, 0, 0x7C] (by decide) fun r => if r == 7 then 0x3000 else 0

/-- Two rounds of the loop. -/
theorem decodeCache_transparent_addLoop :
    let c : Config := ⟨addLoop, .top⟩
    let es := List.replicate 6 idleEnv
    ∀ pre, pre <+: es →
      (run (step vmDecodeInstruction) c pre).ctl = (run (step decodeAfresh) c pre).ctl ∧
      (run (step vmDecodeInstruction) c pre).vm.withCache none =
        (run (step decodeAfresh) c pre).vm.withCache none :=
  decodeCache_transparent rfl (by decide +kernel)

/-- The program `ADD R1, R1, #1; DEMUX R5, R6, #0; JMP R7`, with registers that make the second
instruction replace the first one by `ADD R1, R1, #2`. -/
def selfModifying : VmState :=
  machineWith [1, 3, 2, 0, 0, 13, 10, 0x7A, 0, 14, 0, 0x7C] (by decide) fun r =>
    if r == 5 then 0x20302 else if r == 6 || r == 7 then 0x3000 else 0

/-- The first instruction adds its old operand when it is executed again. -/
theorem decodeCache_stale :
    let c : Config := ⟨selfModifying, .top⟩
    let es := List.replicate 6 idleEnv
    c.vm.decodedCache = some .empty ∧
      (run (step vmDecodeInstruction) c es).vm.reg 1 = 2 ∧
      (run (step decodeAfresh) c es).vm.reg 1 = 3 ∧
      (run (step vmDecodeInstruction) c es).vm.withCache none ≠
        (run (step decodeAfresh) c es).vm.withCache none := by
  intro c es
  have hcached : (run (step vmDecodeInstruction) c es).vm.reg 1 = 2 := by decide +kernel
  have hfresh : (run (step decodeAfresh) c es).vm.reg 1 = 3 := by decide +kernel
  refine ⟨rfl, hcached, hfresh, fun heq => ?_⟩
  have hreg := congrArg (fun vm => vm.reg 1) heq
  exact absurd (hcached.symm.trans (hreg.trans hfresh)) (by decide)

end Vm32
