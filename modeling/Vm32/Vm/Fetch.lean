/-
# Instruction fetch and the bounds of a module

`vm_run_module` compares PC with the bounds of the module, and `vm_run_instruction` then reads four
bytes, so that a word which begins in the last three bytes of a module is completed from what
lies behind it.  This cannot happen in a module whose size is a multiple of four as long as control
stays at the words that are counted from its beginning, and only a jump leaves them.
-/
import Vm32.Vm.Bookkeeping
import Vm32.Vm.Lifecycle

namespace Vm32

open LabelledRun

/-- The module is empty or lies in memory. -/
def ModuleInfo.Fits (mod : ModuleInfo) : Prop :=
  mod.size = 0 ∨ mod.addr.toNat + mod.size.toNat ≤ vmMemBytes

/-- The address is one of the module. -/
def ModuleInfo.Contains (mod : ModuleInfo) (addr : UInt32) : Prop :=
  mod.addr.toNat ≤ addr.toNat ∧ addr.toNat < mod.addr.toNat + mod.size.toNat

instance (mod : ModuleInfo) (addr : UInt32) : Decidable (mod.Contains addr) :=
  inferInstanceAs (Decidable (_ ∧ _))

/-- The address is a whole number of words behind the beginning of the module. -/
def ModuleInfo.WordAt (mod : ModuleInfo) (addr : UInt32) : Prop :=
  4 ∣ addr.toNat - mod.addr.toNat

instance (mod : ModuleInfo) (addr : UInt32) : Decidable (mod.WordAt addr) :=
  inferInstanceAs (Decidable (4 ∣ _))

/-- The instruction is a jump whose condition holds. -/
def TakesJump (vm : VmState) (instr raw : UInt32) : Prop :=
  opc instr = 62 ∨ opc instr = 63 ∧ cv vm raw ≠ 0 ∨ opc instr = 64 ∧ cv vm raw = 0

instance (vm : VmState) (instr raw : UInt32) : Decidable (TakesJump vm instr raw) :=
  inferInstanceAs (Decidable (_ ∨ _ ∨ _))

/-- The word from which the instruction at the address takes its operands: that of the record in the
decode cache, if there is one, and else the word in memory. -/
def VmState.operandWord (vm : VmState) (addr : UInt32) : UInt32 :=
  ((vm.cached addr).map DecodedInstr.rawInstr).getD (vmMr32 vm addr)

/-- Where control goes after the word `raw` at PC, for which `instr` selects the handler. -/
def successor (vm : VmState) (instr raw : UInt32) : UInt32 :=
  let target :=
    if opc instr = 62 ∨ opc instr = 63 ∧ cv vm raw ≠ 0 ∨ opc instr = 64 ∧ cv vm raw = 0 then
      jumpTarget vm raw
    else vm.pc
  if target = vm.pc then vm.pc + 4 else target

/-- A module that is entered has a size that is a multiple of four, and a jump within the module
that is running, if it is taken, goes to a whole number of words behind its beginning. -/
def JumpsToWords (c : Config) (_ : Env) : Prop :=
  match c.ctl with
  | .module idx _ => ∀ mod ∈ c.vm.modules[idx]?, 4 ∣ mod.size.toNat
  | .instr _ mod _ _ =>
    let raw := c.vm.operandWord c.vm.pc
    mod.Contains c.vm.pc → TakesJump c.vm (vmMr32 c.vm c.vm.pc) raw →
      mod.Contains (jumpTarget c.vm raw) → mod.WordAt (jumpTarget c.vm raw)
  | _ => True

instance : ∀ (c : Config) (e : Env), Decidable (JumpsToWords c e)
  | ⟨vm, .module idx _⟩, _ =>
    inferInstanceAs (Decidable (∀ mod ∈ vm.modules[idx]?, 4 ∣ mod.size.toNat))
  | ⟨vm, .instr _ mod _ _⟩, _ =>
    inferInstanceAs (Decidable
      (mod.Contains vm.pc → TakesJump vm (vmMr32 vm vm.pc) (vm.operandWord vm.pc) →
        mod.Contains (jumpTarget vm (vm.operandWord vm.pc)) →
          mod.WordAt (jumpTarget vm (vm.operandWord vm.pc))))
  | ⟨_, .poll⟩, _ | ⟨_, .reload⟩, _ | ⟨_, .top⟩, _ | ⟨_, .tail _⟩, _ | ⟨_, .finished⟩, _ =>
    isTrue trivial

/-- The word for which the step invokes a handler lies in the module that is running, and this
module lies in memory. -/
def FetchInside (c : Config) (e : Env) : Prop :=
  match c.ctl with
  | .instr _ mod _ _ =>
    ∀ o ∈ outcome vmDecodeInstruction c e, ∀ q ∈ o.handled,
      mod.addr.toNat ≤ q.1.toNat ∧ q.1.toNat + 4 ≤ mod.addr.toNat + mod.size.toNat ∧
        mod.addr.toNat + mod.size.toNat ≤ vmMemBytes
  | _ => True

/-! ### The module table -/

/-- The modules of a loadable list lie in memory. -/
lemma moduleTable_fits {p : UInt32} {files : List NamedFile} (hl : Loadable p files) :
    ∀ mod ∈ moduleTable p files, mod.Fits := by
  induction files generalizing p with
  | nil => simp [moduleTable]
  | cons f fs ih =>
    simp only [moduleTable, List.forall_mem_cons]
    refine ⟨?_, ih hl.2⟩
    rcases hl.1.2.2.2 with hnil | hle
    · exact Or.inl (by simp [hnil])
    · refine Or.inr ?_
      rwa [UInt32.toNat_ofNat_of_lt' hl.1.length_lt]

/-- Whether `load_programs` succeeds or fails, the modules it leaves lie in memory. -/
lemma loadPrograms_fits (vm : VmState) {files : List NamedFile} (hne : files ≠ []) :
    ∀ mod ∈ (loadPrograms vm files).1.modules, mod.Fits := by
  rw [loadPrograms_eq hne]
  split_ifs with hok
  · exact moduleTable_fits (loadLoop_ok_iff.1 hok)
  · have hfail : (loadLoop files vm.pcStart (forgetProgram vm)).2 = false := by simpa using hok
    rcases loadLoop_fail hfail with hnil | ⟨pre, f, post, -, hpre, -, -, heq⟩
    · simp [hnil]
    · rw [heq]
      exact moduleTable_fits hpre

/-- A reload keeps the modules in memory. -/
lemma applyPendingReload_fits {vm : VmState} (hvm : ∀ mod ∈ vm.modules, mod.Fits) (d : Dir) :
    ∀ mod ∈ (applyPendingReload vm d).modules, mod.Fits := by
  cases hdir : vm.programDir with
  | none => rwa [applyPendingReload_of_idle (Or.inl hdir)]
  | some dir =>
    rcases applyPendingReload_cases hdir d with
      ⟨-, heq⟩ | ⟨-, mem, mods, size, hash, hreload, heq⟩
    · rwa [heq]
    · rw [heq]
      change ∀ mod ∈ mods, mod.Fits
      have hmods :
          mods = (reloadProgramsFromDirectory (vm.setReloadPending false) dir d).1.modules :=
        (congrArg VmState.modules hreload).symm
      rw [hmods, reloadProgramsFromDirectory_eq]
      by_cases hne : reloadFiles dir d = []
      · rw [hne]
        exact hvm
      · have hload := loadPrograms_fits (vm.setReloadPending false) hne
        split_ifs <;> exact hload

/-! ### The program counter -/

/-- Only the jumps change PC. -/
lemma opEx_pc {opcode : UInt8} {op : OpEx} (hop : opEx opcode = some op) (h : Host) (vm : VmState)
    (raw : UInt32) :
    (op h vm raw).pc =
      if opcode = 62 ∨ opcode = 63 ∧ cv vm raw ≠ 0 ∨ opcode = 64 ∧ cv vm raw = 0 then
        jumpTarget vm raw
      else vm.pc := by
  rcases opEx_cases hop with
    ⟨hblind, hcode⟩ | ⟨rfl, rfl⟩ | ⟨rfl, rfl⟩ | ⟨rfl, rfl⟩ | ⟨rfl, rfl⟩ | ⟨rfl, rfl⟩
  · rw [if_neg]
    · exact congrArg Frame.pc (hblind.frame_eq h vm raw)
    · rintro (rfl | ⟨rfl, -⟩ | ⟨rfl, -⟩) <;> simp at hcode
  · rfl
  · by_cases hc : cv vm raw = 0 <;> simp [opJmpIf, hc]
  · by_cases hc : cv vm raw = 0 <;> simp [opJmpIfNot, hc]
  · rfl
  · rfl

/-- The handler and the lines behind it leave PC at the successor. -/
lemma dispatch_pc {instr : UInt32} (hop : (opEx (opc instr)).isSome) (h : Host) (vm : VmState)
    (raw : UInt32) : (dispatch h vm instr raw).1.pc = successor vm instr raw := by
  obtain ⟨op, hop⟩ := Option.isSome_iff_exists.1 hop
  have hpc : (dispatch h vm instr raw).1.pc =
      if (op h vm raw).pc = vm.pc then vm.pc + 4 else (op h vm raw).pc := by
    rw [dispatch_of_handler hop, callHandler,
      vmUpdateTimeAfterInstruction_keeps (f := VmState.pc) fun _ _ _ => rfl]
    simp only [beq_iff_eq]
    split_ifs with heq
    · rw [heq]
    · rfl
  rw [hpc, successor, opEx_pc hop]

/-- PC behind an executed instruction. -/
lemma runInstruction_pc {h : Host} {vm : VmState} {mod : ModuleInfo}
    {moduleEnd pc instr raw : UInt32}
    (hexec : (runInstruction vmDecodeInstruction h vm mod moduleEnd).2 = .executed pc instr raw) :
    (runInstruction vmDecodeInstruction h vm mod moduleEnd).1.pc = successor vm instr raw := by
  obtain ⟨-, ⟨-, -, hop⟩, -, k, raw', heq⟩ :=
    runInstruction_handled (q := (pc, instr)) (by rw [hexec]; rfl)
  rw [heq, dispatch_outcome, if_pos hop] at hexec
  obtain ⟨-, rfl, rfl⟩ := Outcome.executed.inj hexec
  rw [heq, dispatch_pc hop]
  rfl

section Word

variable {h : Host} {vm : VmState} {mod : ModuleInfo} {moduleEnd pc instr raw : UInt32}

/-- The decoder gives the word of the record in the cache, or else the word in memory. -/
lemma rawInstr_of_decode {d : DecodedInstr} {vm' : VmState} {addr : UInt32}
    (hdec : vmDecodeInstruction vm addr = (some d, vm')) :
    d.rawInstr = vm.operandWord addr := by
  cases hcached : vm.cached addr with
  | some r =>
    rw [vmDecodeInstruction_of_hit hcached] at hdec
    obtain ⟨rfl, -⟩ := Prod.mk.inj hdec |>.imp_left Option.some.inj
    rw [VmState.operandWord, hcached]
    rfl
  | none =>
    rw [VmState.operandWord, hcached]
    rw [VmState.cached] at hcached
    cases hc : vm.decodedCache with
    | none =>
      rw [vmDecodeInstruction] at hdec
      simp [hc] at hdec
    | some cache =>
      have hmiss : cache.lookup addr = none := by simpa [hc] using hcached
      obtain ⟨cache', heq, -⟩ := vmDecodeInstruction_of_miss hc hmiss
      rw [heq, decodeAfresh] at hdec
      split_ifs at hdec
      · cases hdec
      · obtain ⟨rfl, -⟩ := Prod.mk.inj hdec |>.imp_left Option.some.inj
        rfl

/-- What is executed is the word at PC, with the operands that are cached for it. -/
lemma executed_word
    (hexec : (runInstruction vmDecodeInstruction h vm mod moduleEnd).2 = .executed pc instr raw) :
    pc = vm.pc ∧ instr = vmMr32 vm vm.pc ∧
      raw = vm.operandWord vm.pc := by
  obtain ⟨-, ⟨-, -, hop⟩, hq, -⟩ :=
    runInstruction_handled (q := (pc, instr)) (by rw [hexec]; rfl)
  obtain ⟨rfl, rfl⟩ := Prod.mk.inj hq
  refine ⟨rfl, rfl, ?_⟩
  rcases runInstruction_cases vmDecodeInstruction h vm mod moduleEnd with
    ⟨-, heq⟩ | ⟨-, heq | ⟨vm', -, heq⟩ | ⟨d, vm', hdec, heq⟩⟩
  · rw [heq] at hexec
    cases hexec
  · rw [heq] at hexec
    cases hexec
  · rw [heq] at hexec
    cases hexec
  · rw [heq, dispatch_outcome, if_pos hop] at hexec
    obtain ⟨-, -, rfl⟩ := Outcome.executed.inj hexec
    exact rawInstr_of_decode hdec

end Word

/-! ### The invariant -/

/-- All modules lie in memory, the one that is running consists of whole words, and PC is at the
beginning of one of them or outside. -/
structure InBounds (c : Config) : Prop where
  fits : ∀ mod ∈ c.vm.modules, mod.Fits
  running : ∀ idx mod count startMs, c.ctl = .instr idx mod count startMs →
    mod.Fits ∧ 4 ∣ mod.size.toNat ∧ (mod.Contains c.vm.pc → mod.WordAt c.vm.pc)

lemma inBounds_of_ctl {c : Config} (hfits : ∀ mod ∈ c.vm.modules, mod.Fits)
    (hctl : ∀ idx mod count startMs, c.ctl ≠ .instr idx mod count startMs) : InBounds c :=
  ⟨hfits, fun idx mod count startMs h => absurd h (hctl idx mod count startMs)⟩

/-- An address that passes the comparisons of `vm_run_instruction` is one of the module. -/
lemma ModuleInfo.Fits.contains {mod : ModuleInfo} {pc : UInt32} (hfits : mod.Fits)
    (hin : ¬(moduleEnd mod ≤ pc ∨ pc < mod.addr)) :
    mod.Contains pc ∧ mod.addr.toNat + mod.size.toNat ≤ vmMemBytes := by
  obtain ⟨hend, hbegin⟩ := not_or.1 hin
  rw [UInt32.le_iff_toNat_le, not_le, moduleEnd, UInt32.toNat_add] at hend
  rw [UInt32.lt_iff_toNat_lt, not_lt] at hbegin
  rcases hfits with hzero | hle
  · -- an empty module has no first byte
    rw [hzero, UInt32.toNat_zero, Nat.add_zero, Nat.mod_eq_of_lt mod.addr.toNat_lt] at hend
    omega
  · rw [Nat.mod_eq_of_lt (by simp only [vmMemBytes] at hle; omega)] at hend
    exact ⟨⟨hbegin, hend⟩, hle⟩

/-- From a word of the module, control goes to a word of the module or out of it. -/
lemma wordAt_successor {vm : VmState} {mod : ModuleInfo} {instr raw : UInt32}
    (hpc : mod.Contains vm.pc) (hle : mod.addr.toNat + mod.size.toNat ≤ vmMemBytes)
    (hword : mod.WordAt vm.pc)
    (hjump : TakesJump vm instr raw → mod.Contains (jumpTarget vm raw) →
      mod.WordAt (jumpTarget vm raw)) :
    mod.Contains (successor vm instr raw) → mod.WordAt (successor vm instr raw) := by
  have hnext : mod.WordAt (vm.pc + 4) := by
    obtain ⟨hbegin, hend⟩ := hpc
    have hadd : (vm.pc + 4).toNat = vm.pc.toNat + 4 := by
      rw [UInt32.toNat_add]
      simp only [vmMemBytes] at hle
      exact Nat.mod_eq_of_lt (by simp only [UInt32.reduceToNat]; omega)
    rw [ModuleInfo.WordAt] at hword ⊢
    rw [hadd]
    omega
  have hsuccessor : successor vm instr raw =
      if (if TakesJump vm instr raw then jumpTarget vm raw else vm.pc) = vm.pc then vm.pc + 4
      else if TakesJump vm instr raw then jumpTarget vm raw else vm.pc := rfl
  rw [hsuccessor]
  by_cases htaken : TakesJump vm instr raw
  · simp only [htaken, if_true]
    split_ifs
    · exact fun _ => hnext
    · exact hjump htaken
  · simp only [htaken, if_false, if_true]
    exact fun _ => hnext

/-- A step keeps the bounds. -/
theorem InBounds.next {c : Config} {e : Env} (hc : InBounds c) (hsafe : JumpsToWords c e) :
    InBounds (step vmDecodeInstruction c e) := by
  obtain ⟨vm, ctl⟩ := c
  cases ctl with
  | poll =>
    refine inBounds_of_ctl ?_ (by simp [step])
    have hmods : (pollDirectory vm e.dir).modules = vm.modules :=
      pollDirectory_keeps (f := VmState.modules) (fun _ _ _ => rfl) vm e.dir
    simp only [step, hmods]
    exact hc.fits
  | reload => exact inBounds_of_ctl (applyPendingReload_fits hc.fits e.dir) (by simp [step])
  | top =>
    refine inBounds_of_ctl ?_ ?_
    · rw [modules_of_bookkeeping (step_bookkeeping (by simp) (by simp) e)]
      exact hc.fits
    · simp only [step]
      split_ifs <;> simp
  | module idx startMs =>
    simp only [step]
    cases hmod : vm.modules[idx]? with
    | none => exact inBounds_of_ctl hc.fits (by simp)
    | some mod =>
      refine ⟨hc.fits, fun idx' mod' count' startMs' heq => ?_⟩
      obtain ⟨-, rfl, -, -⟩ := Ctl.instr.inj heq
      refine ⟨hc.fits _ (List.mem_of_getElem? hmod), hsafe mod hmod, fun _ => ?_⟩
      simp [ModuleInfo.WordAt, enterModule]
  | instr idx mod count startMs =>
    have hfits : ∀ m ∈ (step vmDecodeInstruction ⟨vm, .instr idx mod count startMs⟩ e).vm.modules,
        m.Fits := by
      rw [modules_of_bookkeeping (step_bookkeeping (by simp) (by simp) e)]
      exact hc.fits
    refine ⟨hfits, fun idx' mod' count' startMs' heq => ?_⟩
    -- the loop goes on in this module only after a call of a handler
    by_cases hrun : keepsRunning vm count = true
    · simp only [step, if_pos hrun] at heq
      cases hout : (runInstruction vmDecodeInstruction e.host vm mod (moduleEnd mod)).2 with
      | executed pc instr raw =>
        rw [hout] at heq
        obtain ⟨-, rfl, rfl, -⟩ := Ctl.instr.inj heq
        have hpc : (step vmDecodeInstruction ⟨vm, .instr idx mod count startMs⟩ e).vm.pc =
            successor vm instr raw := by
          simp only [step, if_pos hrun]
          exact runInstruction_pc hout
        obtain ⟨hmod, hsize, hword⟩ := hc.running _ _ _ _ rfl
        refine ⟨hmod, hsize, ?_⟩
        obtain ⟨hin, -⟩ := runInstruction_handled (q := (pc, instr)) (by rw [hout]; rfl)
        obtain ⟨hcontains, hle⟩ := hmod.contains hin
        obtain ⟨rfl, rfl, rfl⟩ := executed_word hout
        rw [hpc]
        exact wordAt_successor hcontains hle (hword hcontains) (hsafe hcontains)
      | _ =>
        rw [hout] at heq
        cases heq
    · simp only [step, if_neg hrun] at heq
      cases heq
  | tail startMs =>
    refine inBounds_of_ctl ?_ (by simp [step])
    rw [modules_of_bookkeeping (step_bookkeeping (by simp) (by simp) e)]
    exact hc.fits
  | finished => exact inBounds_of_ctl hc.fits (by simp [step])

/-- Within the bounds, the word for which a handler is called lies in the module. -/
lemma InBounds.fetchInside {c : Config} (hc : InBounds c) (e : Env) : FetchInside c e := by
  obtain ⟨vm, ctl⟩ := c
  cases ctl with
  | instr idx mod count startMs =>
    intro o ho q hq
    simp only [outcome, Option.mem_def, Option.ite_none_right_eq_some, Option.some.injEq] at ho
    obtain ⟨hrun, rfl⟩ := ho
    obtain ⟨hin, -, rfl, -⟩ := runInstruction_handled hq
    obtain ⟨hfits, hsize, hword⟩ := hc.running _ _ _ _ rfl
    obtain ⟨hcontains, hle⟩ := hfits.contains hin
    have hpc : 4 ∣ vm.pc.toNat - mod.addr.toNat := hword hcontains
    obtain ⟨hbegin, hend⟩ := hcontains
    refine ⟨hbegin, ?_, hle⟩
    show vm.pc.toNat + 4 ≤ mod.addr.toNat + mod.size.toNat
    omega
  | _ => trivial

/-- In every run from a successful load in which the modules that are entered consist of whole
words and jumps within a module go to its words, every word for which a handler is called lies in
the module that is running, and so in memory. -/
theorem fetch_inside_module {vm : VmState} {files : List NamedFile} {c : Config} {es : List Env}
    (hload : (loadPrograms vm files).2 = true) (hctl : c.ctl = .poll)
    (hmods : c.vm.modules = (loadPrograms vm files).1.modules)
    (hsafe : Along (step vmDecodeInstruction) JumpsToWords c es) :
    Along (step vmDecodeInstruction) FetchInside c es := by
  have hc : InBounds c := by
    refine inBounds_of_ctl ?_ (by simp [hctl])
    rw [hmods]
    exact loadPrograms_fits vm (loadPrograms_ok_iff.1 hload).1
  exact hsafe.strengthen hc (fun c e hc hsafe => hc.next hsafe) fun c e hc _ => hc.fetchInside e

/-- A loop of `ADD R1, R2, #-96`, `MUL R1, R1, #-128` and `JMP R0, R1`, whose jump goes to the
beginning of the module. -/
theorem fetch_inside_module_loop :
    let file : NamedFile := ⟨[108], .readable
      [0xA0, 5, 2, 0, 0x80, 3, 2, 4, 0, 2, 0, 0x7C] (by decide)⟩
    let c : Config := ⟨(loadPrograms (vmTablesInit vmCreate) [file]).1, .poll⟩
    (run (step vmDecodeInstruction) c (List.replicate 10 idleEnv)).vm.pc = 0x3000 ∧
      Along (step vmDecodeInstruction) FetchInside c (List.replicate 12 idleEnv) := by
  intro file c
  have hload : (loadPrograms (vmTablesInit vmCreate) [file]).2 = true := by decide +kernel
  exact ⟨by decide +kernel, fetch_inside_module hload rfl rfl (by decide +kernel)⟩

/-- A module of six bytes whose last two bytes and the two bytes of the module behind it are
`NOP`. -/
theorem fetch_across_modules :
    let files : List NamedFile :=
      [⟨[97], .readable [0, 0, 0, 0x86, 0, 0] (by decide)⟩, ⟨[98], .readable [0, 0x86] (by decide)⟩]
    let c : Config := ⟨(loadPrograms (vmTablesInit vmCreate) files).1, .poll⟩
    let c₁ := run (step vmDecodeInstruction) c (List.replicate 5 idleEnv)
    (loadPrograms (vmTablesInit vmCreate) files).2 = true ∧
      c₁.ctl = .instr 0 ⟨[97], 0x3000, 6⟩ 1 0 ∧
      outcome vmDecodeInstruction c₁ idleEnv = some (.executed 0x3004 0x86000000 0x86000000) ∧
      ¬FetchInside c₁ idleEnv := by
  intro files c c₁
  have hctl : c₁.ctl = .instr 0 ⟨[97], 0x3000, 6⟩ 1 0 := by decide +kernel
  have hout : outcome vmDecodeInstruction c₁ idleEnv =
      some (.executed 0x3004 0x86000000 0x86000000) := by decide +kernel
  refine ⟨by decide +kernel, hctl, hout, fun hinside => ?_⟩
  simp only [FetchInside, hctl, hout] at hinside
  exact absurd (hinside _ rfl _ rfl).2.1 (by decide)

end Vm32
