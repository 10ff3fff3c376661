/-
# Scans of straight-line sources

A program without jumps, `EXIT` and `HALT` and without instructions that write memory is executed
from its first line to its last in every cycle.  No condition on the run is needed for it to run
as its source: the machine stays at the beginning of lines and leaves the programs alone.  What a
run executes is therefore known in advance, as a list of words: all lines of all modules, once
for every cycle that was begun.
-/
import Vm32.Asm.SourceRun
import Vm32.System.ScanBound

namespace Vm32

open CText LabelledRun

/-! ### Straight-line programs -/

/-- The instruction neither writes memory nor moves PC nor stops the machine. -/
def SourceLine.Plain (line : SourceLine) : Prop :=
  line.ins.op ∉ [40, 41, 42, 43, 44, 45, 46, 61, 62, 63, 64, 65, 66]

instance : DecidablePred SourceLine.Plain := fun line =>
  inferInstanceAs (Decidable (line.ins.op ∉ [40, 41, 42, 43, 44, 45, 46, 61, 62, 63, 64, 65, 66]))

/-- All instructions are plain, none of them is `ADD R0, R0, R0`, and there are not too many for one
call of `vm_run_module`. -/
structure StraightLine (prog : List SourceLine) : Prop where
  plain : ∀ line ∈ prog, line.Plain
  nonzero : ∀ line ∈ prog, line.ins ≠ ⟨0, 0, 0, .reg 0⟩
  short : prog.length ≤ maxInstructions

/-- The handlers that write no memory. -/
lemma keeps_mem_of_mem : ∀ op ∈ defaultOpEx.take 40 ++
    ((defaultOpEx.drop 47).take 14 ++ defaultOpEx.drop 62), Keeps VmState.mem op := by
  simp only [defaultOpEx, List.take_succ_cons, List.take_zero, List.drop_succ_cons, List.drop_zero,
    List.cons_append, List.nil_append, List.forall_mem_cons, List.not_mem_nil, false_imp_iff,
    implies_true, and_true]
  and_intros
  all_goals intro h vm i
  all_goals first
    | rfl
    | (simp only [opLen, opTon, opTof, opTp, opTimer, opCtu, opCtd, opCtud, opSel, opMux,
        opRisingEdge, opFallingEdge, opEdgeBoth, opRsLatch, opSrLatch, opJmpIf, opJmpIfNot]
       split_ifs <;> rfl)

/-- The string instructions that edit, and `DEMUX`, are the only ones that write memory. -/
lemma keeps_mem_of_get {n : ℕ} {op : OpEx} (hget : defaultOpEx[n]? = some op)
    (hn : n ∉ [40, 41, 42, 43, 44, 45, 46, 61]) : Keeps VmState.mem op := by
  simp only [List.mem_cons, List.not_mem_nil, or_false, not_or] at hn
  refine keeps_mem_of_mem op ?_
  rw [List.mem_append, List.mem_append]
  by_cases hlow : n < 40
  · refine Or.inl (List.mem_of_getElem? (i := n) ?_)
    rw [List.getElem?_take_of_lt hlow, hget]
  by_cases hmid : n < 61
  · refine Or.inr (Or.inl (List.mem_of_getElem? (i := n - 47) ?_))
    rw [List.getElem?_take_of_lt (by omega), List.getElem?_drop, Nat.add_sub_cancel' (by omega),
      hget]
  · refine Or.inr (Or.inr (List.mem_of_getElem? (i := n - 62) ?_))
    rw [List.getElem?_drop, Nat.add_sub_cancel' (by omega), hget]

lemma SourceLine.toNat_opc (line : SourceLine) : (opc line.word).toNat = line.ins.op :=
  (decodesTo_packWord line.inRange).opc

lemma SourceLine.Plain.keeps_mem {line : SourceLine} (hline : line.Plain) :
    Keeps VmState.mem line.op := by
  have hget : defaultOpEx[line.ins.op]? = some line.op := by
    rw [← line.toNat_opc]
    exact line.encoded
  refine keeps_mem_of_get hget ?_
  simp only [SourceLine.Plain, List.mem_cons, List.not_mem_nil, or_false, not_or] at hline ⊢
  tauto

lemma SourceLine.Plain.frame {line : SourceLine} (hline : line.Plain) (h : Host) (vm : VmState)
    (i : UInt32) : (line.op h vm i).frame = vm.frame := by
  have hop : ∀ n ∈ [62, 63, 64, 65, 66], opc line.word ≠ UInt8.ofNat n := by
    intro n hn heq
    have hcode := line.toNat_opc
    rw [heq] at hcode
    simp only [SourceLine.Plain, ← hcode] at hline
    simp only [List.mem_cons, List.not_mem_nil, or_false] at hn
    rcases hn with rfl | rfl | rfl | rfl | rfl <;> exact hline (by decide)
  rcases opEx_cases line.encoded with
    ⟨hblind, -⟩ | ⟨heq, -⟩ | ⟨heq, -⟩ | ⟨heq, -⟩ | ⟨heq, -⟩ | ⟨heq, -⟩
  · exact hblind.frame_eq h vm i
  · exact absurd heq (hop 62 (by decide))
  · exact absurd heq (hop 63 (by decide))
  · exact absurd heq (hop 64 (by decide))
  · exact absurd heq (hop 65 (by decide))
  · exact absurd heq (hop 66 (by decide))

/-- A plain instruction is followed by the next one. -/
lemma SourceLine.plain_callHandler {line : SourceLine} (hline : line.Plain) (h : Host)
    (vm : VmState) :
    (callHandler line.op h vm line.word).mem = vm.mem ∧
      (callHandler line.op h vm line.word).modules = vm.modules ∧
      (callHandler line.op h vm line.word).running = vm.running ∧
      (callHandler line.op h vm line.word).pc = vm.pc + 4 := by
  have hframe := hline.frame h vm line.word
  have hpc : (line.op h vm line.word).pc = vm.pc := congrArg Frame.pc hframe
  refine ⟨?_, ?_, ?_, ?_⟩
  · rw [callHandler_keeps (f := VmState.mem) (fun _ _ => rfl) fun _ _ _ => rfl]
    exact hline.keeps_mem h vm line.word
  · rw [callHandler_keeps (f := VmState.modules) (fun _ _ => rfl) fun _ _ _ => rfl]
    exact congrArg Frame.modules hframe
  · rw [callHandler_keeps (f := VmState.running) (fun _ _ => rfl) fun _ _ _ => rfl]
    exact congrArg Frame.running hframe
  · rw [callHandler, vmUpdateTimeAfterInstruction_keeps (f := VmState.pc) fun _ _ _ => rfl,
      if_pos (by rw [hpc, beq_self_eq_true])]
    exact congrArg (· + 4) hpc

/-! ### Where a scan is -/

/-- The words of a program. -/
def words (prog : List SourceLine) : List UInt32 := prog.map SourceLine.word

/-- The words that the cycle has still to execute. -/
def todo (progs : List (List SourceLine)) : Ctl → List UInt32
  | .module idx _ => (progs.drop idx).flatMap words
  | .instr idx _ count _ => words ((progs.getD idx []).drop count) ++
      (progs.drop (idx + 1)).flatMap words
  | _ => []

/-- No reload is carried out in the step. -/
def NoReload (c : Config) (_ : Env) : Prop :=
  c.ctl = .reload → c.vm.programDir = none ∨ c.vm.reloadPending = false

instance : ∀ c e, Decidable (NoReload c e) := fun c _ =>
  inferInstanceAs (Decidable
    (c.ctl = .reload → c.vm.programDir = none ∨ c.vm.reloadPending = false))

/-- The scan has executed the first `count` lines of the module that runs. -/
structure Straight (progs : List (List SourceLine)) (c : Config) : Prop where
  length : c.vm.modules.length = progs.length
  running : ∀ idx mod count startMs, c.ctl = .instr idx mod count startMs →
    c.vm.running = true ∧ count ≤ (progs.getD idx []).length ∧
      c.vm.pc.toNat = mod.addr.toNat + 4 * count

/-- The word for which a step calls a handler. -/
def executedWord (c : Config) (e : Env) : Option UInt32 := (handled c e).map Prod.snd

section Step

variable {progs : List (List SourceLine)} {vm : VmState} {mod : ModuleInfo} {idx count : ℕ}

lemma straightLine_getD (hprogs : ∀ prog ∈ progs, StraightLine prog) (idx : ℕ) :
    StraightLine (progs.getD idx []) := by
  rw [List.getD_eq_getElem?_getD]
  cases hget : progs[idx]? with
  | none => exact ⟨by simp, by simp, Nat.zero_le _⟩
  | some prog => exact hprogs prog (List.mem_of_getElem? hget)

/-- While there are lines left, the next one is executed. -/
lemma runLine_of_lt (hvm : Holds progs vm) (hmod : vm.modules[idx]? = some mod)
    (hpc : vm.pc.toNat = mod.addr.toNat + 4 * count) (hlt : count < (progs.getD idx []).length)
    (h : Host) :
    ¬(moduleEnd mod ≤ vm.pc ∨ vm.pc < mod.addr) ∧
      lineAt (progs.getD idx []) mod.addr vm.pc = some (progs.getD idx [])[count] ∧
      runLine (progs.getD idx []) h vm mod =
        (callHandler (progs.getD idx [])[count].op h vm (progs.getD idx [])[count].word,
          .executed vm.pc (progs.getD idx [])[count].word (progs.getD idx [])[count].word) := by
  have hsize := hvm.size idx mod hmod
  generalize progs.getD idx [] = prog at hlt hsize
  have hend : mod.addr.toNat + mod.size.toNat ≤ vmMemBytes := by
    rcases hvm.fits mod (List.mem_of_getElem? hmod) with hzero | hend
    · have : mod.size.toNat = 0 := by rw [hzero, UInt32.toNat_zero]
      omega
    · exact hend
  have hbound : (moduleEnd mod).toNat = mod.addr.toNat + mod.size.toNat := by
    rw [moduleEnd, UInt32.toNat_add, Nat.mod_eq_of_lt (by simp only [vmMemBytes] at hend; omega)]
  have hin : ¬(moduleEnd mod ≤ vm.pc ∨ vm.pc < mod.addr) := by
    rw [UInt32.le_iff_toNat_le, UInt32.lt_iff_toNat_lt, hbound]
    omega
  have hat : lineAt prog mod.addr vm.pc = some prog[count] := by
    have hpos : (vm.pc.toNat - mod.addr.toNat) / 4 = count := by omega
    rw [lineAt, if_pos ⟨by omega, UInt32.le_iff_toNat_le.2 (by omega)⟩, hpos,
      List.getElem?_eq_getElem hlt]
  refine ⟨hin, hat, ?_⟩
  rw [runLine, if_neg hin, hat]

/-- Behind the last line the module is left. -/
lemma runLine_of_eq (hvm : Holds progs vm) (hmod : vm.modules[idx]? = some mod)
    (hpc : vm.pc.toNat = mod.addr.toNat + 4 * count) (heq : count = (progs.getD idx []).length)
    (h : Host) :
    (moduleEnd mod ≤ vm.pc ∨ vm.pc < mod.addr) ∧
      runLine (progs.getD idx []) h vm mod = (vm, .completed) := by
  have hsize := hvm.size idx mod hmod
  have hout : moduleEnd mod ≤ vm.pc ∨ vm.pc < mod.addr := by
    refine Or.inl (UInt32.le_iff_toNat_le.2 ?_)
    rw [moduleEnd, UInt32.toNat_add]
    exact (Nat.mod_le _ _).trans (by omega)
  exact ⟨hout, by rw [runLine, if_pos hout]⟩

/-- Outside an instruction, a step without a reload leaves the programs alone. -/
lemma step_leaves_programs {c : Config} {e : Env} (hquiet : NoReload c e)
    (hctl : ∀ idx mod count startMs, c.ctl ≠ .instr idx mod count startMs) (decode : Decoder) :
    (step decode c e).vm.mem = c.vm.mem ∧ (step decode c e).vm.modules = c.vm.modules := by
  obtain ⟨vm, ctl⟩ := c
  cases ctl with
  | poll =>
    exact ⟨pollDirectory_keeps (f := VmState.mem) (fun _ _ _ => rfl) vm e.dir,
      pollDirectory_keeps (f := VmState.modules) (fun _ _ _ => rfl) vm e.dir⟩
  | reload =>
    simp only [step, applyPendingReload_of_idle (hquiet rfl), and_self]
  | top =>
    exact ⟨cycleTop_keeps (f := VmState.mem) (fun _ _ _ _ => rfl) e.vmStopRequested vm,
      cycleTop_keeps (f := VmState.modules) (fun _ _ _ _ => rfl) e.vmStopRequested vm⟩
  | module idx startMs =>
    simp only [step]
    cases vm.modules[idx]? <;> exact ⟨rfl, rfl⟩
  | instr idx mod count startMs => exact absurd rfl (hctl idx mod count startMs)
  | tail startMs =>
    exact ⟨cycleTail_keeps (f := VmState.mem) (fun _ _ _ => rfl) startMs vm,
      cycleTail_keeps (f := VmState.modules) (fun _ _ _ => rfl) startMs vm⟩
  | finished => exact ⟨rfl, rfl⟩

/-- The word that a step of the source machine executes. -/
def sourceWord (progs : List (List SourceLine)) (c : Config) (e : Env) : Option UInt32 :=
  ((sourceOutcome progs c e).bind Outcome.handled).map Prod.snd

/-- A step of a straight-line scan: it is well-behaved, and it executes the next word that is to be
executed, if it executes one. -/
structure ScanStep (progs : List (List SourceLine)) (c : Config) (e : Env) : Prop where
  behaves : Behaves progs c e
  next : Straight progs (sourceStep progs c e)
  mem : (sourceStep progs c e).vm.mem = c.vm.mem
  ledger : (sourceWord progs c e).toList ++ todo progs (sourceStep progs c e).ctl =
    todo progs c.ctl ++ ((begun c e).map fun _ => progs.flatMap words).getD []

/-- The steps around the instructions. -/
lemma scanStep_of_not_instr {c : Config} {e : Env} (hst : Straight progs c) (hquiet : NoReload c e)
    (hctl : ∀ idx mod count startMs, c.ctl ≠ .instr idx mod count startMs) :
    ScanStep progs c e := by
  obtain ⟨vm, ctl⟩ := c
  obtain ⟨hmem, hmods⟩ := step_leaves_programs hquiet hctl decodeAfresh
  have hsource : sourceStep progs ⟨vm, ctl⟩ e = step decodeAfresh ⟨vm, ctl⟩ e ∧
      sourceWord progs ⟨vm, ctl⟩ e = none ∧ OnLine progs ⟨vm, ctl⟩ := by
    cases ctl with
    | instr idx mod count startMs => exact absurd rfl (hctl idx mod count startMs)
    | _ => exact ⟨rfl, rfl, trivial⟩
  obtain ⟨hstep, hword, honLine⟩ := hsource
  refine ⟨⟨honLine, hstep ▸ hmods, fun mod _ k _ => by rw [hstep, hmem]⟩,
    ⟨by rw [hstep, hmods]; exact hst.length, ?_⟩, by rw [hstep, hmem], ?_⟩
  · intro idx' mod' count' startMs' hnext
    rw [hstep] at hnext ⊢
    cases ctl with
    | module idx startMs =>
      simp only [step] at hnext ⊢
      cases hmod : vm.modules[idx]? with
      | none => simp [hmod] at hnext
      | some mod =>
        simp only [hmod, Ctl.instr.injEq] at hnext ⊢
        obtain ⟨rfl, rfl, rfl, -⟩ := hnext
        exact ⟨rfl, Nat.zero_le _, rfl⟩
    | top =>
      simp only [step] at hnext
      split_ifs at hnext
    | instr idx mod count startMs => exact absurd rfl (hctl idx mod count startMs)
    | _ => simp [step] at hnext
  · rw [hstep, hword]
    have hlength : vm.modules.length = progs.length := hst.length
    cases ctl with
    | top =>
      -- all words of the cycle are put in at its top
      simp only [step, begun]
      split_ifs <;> simp [todo]
    | module idx startMs =>
      simp only [step, begun]
      cases hmod : vm.modules[idx]? with
      | none =>
        have hle : progs.length ≤ idx := hlength ▸ List.getElem?_eq_none_iff.1 hmod
        simp [todo, List.drop_eq_nil_of_le hle]
      | some mod =>
        have hlt : idx < progs.length := hlength ▸ (List.getElem?_eq_some_iff.1 hmod).1
        have hget : progs.getD idx [] = progs[idx] := by simp [hlt]
        simp only [todo, hget, List.drop_zero, List.drop_eq_getElem_cons hlt, List.flatMap_cons]
        simp
    | instr idx mod count startMs => exact absurd rfl (hctl idx mod count startMs)
    | _ => simp [step, begun, todo]

/-- An instruction while there are lines left. -/
lemma scanStep_of_lt {e : Env} {startMs : UInt64}
    (hc : SourceInv progs ⟨vm, .instr idx mod count startMs⟩)
    (hst : Straight progs ⟨vm, .instr idx mod count startMs⟩)
    (hprog : StraightLine (progs.getD idx [])) (hlt : count < (progs.getD idx []).length) :
    ScanStep progs ⟨vm, .instr idx mod count startMs⟩ e := by
  have hmod : vm.modules[idx]? = some mod := hc.running idx mod count startMs rfl
  obtain ⟨hrun, -, hpc⟩ := hst.running idx mod count startMs rfl
  obtain ⟨hin, hat, hline⟩ := runLine_of_lt hc.holds hmod hpc hlt e.host
  have hkeep : keepsRunning vm count = true := by
    rw [keepsRunning, hrun, Bool.true_and, decide_eq_true_eq]
    exact lt_of_lt_of_le hlt hprog.short
  have hmem := List.getElem_mem hlt
  have hplain := hprog.plain _ hmem
  have hnonzero := hprog.nonzero _ hmem
  have hdrop := List.drop_eq_getElem_cons hlt
  generalize (progs.getD idx [])[count] = line at hat hline hplain hnonzero hdrop
  obtain ⟨hmem', hmods', hrun', hpc'⟩ := line.plain_callHandler hplain e.host vm
  have hstep : sourceStep progs ⟨vm, .instr idx mod count startMs⟩ e =
      ⟨callHandler line.op e.host vm line.word, .instr idx mod (count + 1) startMs⟩ := by
    simp only [sourceStep, hkeep, if_true, hline, afterInstruction]
  have hword : sourceWord progs ⟨vm, .instr idx mod count startMs⟩ e = some line.word := by
    simp only [sourceWord, sourceOutcome, hkeep, if_true, hline, Option.bind_some,
      Outcome.handled, Option.map_some]
  refine ⟨⟨?_, hstep ▸ hmods', fun mod _ k _ => by rw [hstep, hmem']⟩,
    ⟨by rw [hstep, hmods']; exact hst.length, ?_⟩, by rw [hstep, hmem'], ?_⟩
  · intro _ _
    rw [hat]
    simpa using hnonzero
  · rw [hstep]
    rintro idx' mod' count' startMs' ⟨⟩
    have hfits := (LineAt.word hc.holds ⟨idx, mod, hmod, hat⟩).2
    refine ⟨hrun'.trans hrun, hlt, ?_⟩
    rw [hpc', UInt32.toNat_add, Nat.mod_eq_of_lt
      (by simp only [vmMemBytes] at hfits; simp only [UInt32.reduceToNat]; omega)]
    exact congrArg (· + 4) hpc
  · rw [hstep, hword]
    simp only [todo, begun, hdrop, words, List.map_cons, Option.map_none, Option.getD_none,
      Option.toList_some, List.cons_append, List.nil_append, List.append_nil]

/-- An instruction behind the last line. -/
lemma scanStep_of_eq {e : Env} {startMs : UInt64}
    (hc : SourceInv progs ⟨vm, .instr idx mod count startMs⟩)
    (hst : Straight progs ⟨vm, .instr idx mod count startMs⟩)
    (heq : count = (progs.getD idx []).length) :
    ScanStep progs ⟨vm, .instr idx mod count startMs⟩ e := by
  have hmod : vm.modules[idx]? = some mod := hc.running idx mod count startMs rfl
  obtain ⟨-, -, hpc⟩ := hst.running idx mod count startMs rfl
  obtain ⟨hout, hline⟩ := runLine_of_eq hc.holds hmod hpc heq e.host
  have hstep : sourceStep progs ⟨vm, .instr idx mod count startMs⟩ e =
      ⟨vm, .module (idx + 1) startMs⟩ := by
    simp only [sourceStep, hline, afterInstruction, ite_self]
  have hword : sourceWord progs ⟨vm, .instr idx mod count startMs⟩ e = none := by
    simp only [sourceWord, sourceOutcome, hline]
    split_ifs <;> rfl
  refine ⟨⟨fun _ hin => absurd hout hin, by rw [hstep], fun mod _ k _ => by rw [hstep]⟩,
    ⟨by rw [hstep]; exact hst.length, ?_⟩, by rw [hstep], ?_⟩
  · rw [hstep]
    rintro idx' mod' count' startMs' ⟨⟩
  · rw [hstep, hword]
    simp [todo, begun, words, heq]

theorem Straight.scanStep {c : Config} {e : Env} (hc : SourceInv progs c) (hst : Straight progs c)
    (hprogs : ∀ prog ∈ progs, StraightLine prog) (hquiet : NoReload c e) : ScanStep progs c e := by
  obtain ⟨vm, ctl⟩ := c
  cases ctl with
  | instr idx mod count startMs =>
    obtain ⟨-, hcount, -⟩ := hst.running idx mod count startMs rfl
    rcases Nat.lt_or_ge count (progs.getD idx []).length with hlt | hge
    · exact scanStep_of_lt hc hst (straightLine_getD hprogs idx) hlt
    · exact scanStep_of_eq hc hst (Nat.le_antisymm hcount hge)
  | _ => exact scanStep_of_not_instr hst hquiet (by simp)

end Step

/-! ### Runs -/

section Runs

variable {progs : List (List SourceLine)}

/-- The machine is in a straight-line scan of the programs. -/
def Scanning (progs : List (List SourceLine)) (t : Config) : Prop :=
  ∃ s, RunsAs progs s t ∧ Straight progs s

/-- One step of the machine with the cache, beside the step of the source machine. -/
lemma Scanning.next {t : Config} {e : Env} (ht : Scanning progs t)
    (hprogs : ∀ prog ∈ progs, StraightLine prog) (hquiet : NoReload t e) :
    ∃ s, RunsAs progs s t ∧ Straight progs s ∧ ScanStep progs s e ∧
      RunsAs progs (sourceStep progs s e) (step vmDecodeInstruction t e) ∧
      executedWord t e = sourceWord progs s e ∧ begun t e = begun s e ∧ t.ctl = s.ctl := by
  obtain ⟨s, hrel, hst⟩ := ht
  have hctl : t.ctl = s.ctl ∧ t.vm.programDir = s.vm.programDir ∧
      t.vm.reloadPending = s.vm.reloadPending ∧ begun t e = begun s e := by
    obtain ⟨-, cache, -, rfl⟩ := hrel
    refine ⟨rfl, rfl, rfl, ?_⟩
    obtain ⟨vm, ctl⟩ := s
    cases ctl with
    | top =>
      simp only [begun, Config.withCache, cycleTop_withCache]
      rfl
    | _ => rfl
  have hquiet' : NoReload s e := by
    intro hreload
    rw [← hctl.2.1, ← hctl.2.2.1]
    exact hquiet (hctl.1.trans hreload)
  have hscan := hst.scanStep hrel.1 hprogs hquiet'
  obtain ⟨hout, hnext⟩ := hrel.next hscan.behaves
  refine ⟨s, hrel, hst, hscan, hnext, ?_, hctl.2.2.2, hctl.1⟩
  rw [executedWord, handled, sourceWord, hout]

lemma Scanning.keep {t : Config} {e : Env} (ht : Scanning progs t)
    (hprogs : ∀ prog ∈ progs, StraightLine prog) (hquiet : NoReload t e) :
    Scanning progs (step vmDecodeInstruction t e) := by
  obtain ⟨s, -, -, hscan, hnext, -⟩ := ht.next hprogs hquiet
  exact ⟨_, hnext, hscan.next⟩

/-- No step of a scan writes memory. -/
lemma Scanning.mem_step {t : Config} {e : Env} (ht : Scanning progs t)
    (hprogs : ∀ prog ∈ progs, StraightLine prog) (hquiet : NoReload t e) :
    (step vmDecodeInstruction t e).vm.mem = t.vm.mem := by
  obtain ⟨s, ⟨-, cache, -, rfl⟩, -, hscan, ⟨-, cache', -, hnext⟩, -⟩ := ht.next hprogs hquiet
  rw [hnext]
  exact hscan.mem

/-- Neither does a run. -/
lemma Scanning.mem_run {t : Config} {es : List Env} (ht : Scanning progs t)
    (hprogs : ∀ prog ∈ progs, StraightLine prog)
    (hquiet : Along (step vmDecodeInstruction) NoReload t es) :
    (run (step vmDecodeInstruction) t es).vm.mem = t.vm.mem := by
  have hkeeps : Along (step vmDecodeInstruction)
      (fun t e => (step vmDecodeInstruction t e).vm.mem = t.vm.mem) t es :=
    hquiet.strengthen ht (fun t e ht hq => ht.keep hprogs hq) fun t e ht hq =>
      ht.mem_step hprogs hq
  exact hkeeps.invariant (I := fun u => u.vm.mem = t.vm.mem) rfl fun u e hu hstep =>
    hstep.trans hu

/-- A run of straight-line scans executes all words for each cycle that is begun, in order. -/
lemma Scanning.trace_executedWord {t : Config} {es : List Env} (ht : Scanning progs t)
    (hprogs : ∀ prog ∈ progs, StraightLine prog)
    (hquiet : Along (step vmDecodeInstruction) NoReload t es) :
    trace (step vmDecodeInstruction) executedWord t es ++
        todo progs (run (step vmDecodeInstruction) t es).ctl =
      todo progs t.ctl ++
        (List.replicate (trace (step vmDecodeInstruction) begun t es).length
          (progs.flatMap words)).flatten := by
  have hledger : Along (step vmDecodeInstruction)
      (fun t e => (executedWord t e).toList ++ todo progs (step vmDecodeInstruction t e).ctl =
        todo progs t.ctl ++ ((begun t e).map fun _ => progs.flatMap words).getD []) t es := by
    refine hquiet.strengthen ht (fun t e ht hq => ht.keep hprogs hq) fun t e ht hq => ?_
    obtain ⟨s, -, -, hscan, ⟨-, cache, -, hctl⟩, hword, hbegun, hctl'⟩ := ht.next hprogs hq
    rw [hword, hctl, hbegun, hctl']
    exact hscan.ledger
  refine (trace_append_eq (fun t : Config => todo progs t.ctl)
    (fun t e => (begun t e).map fun _ => progs.flatMap words) hledger).trans ?_
  rw [trace_map, List.map_const']

variable {rawHalt : Bool} {texts : List (List UInt8)} {files : List NamedFile} {vm : VmState}

/-- A machine into which sources were loaded is at the beginning of a scan. -/
lemma LoadsSources.scanning (hvm : LoadsSources rawHalt vm texts files) (h : Host) :
    Scanning (sourcePrograms rawHalt texts) (start h (loadPrograms vm files).1) := by
  refine ⟨_, hvm.runsAs h, ?_, ?_⟩
  · obtain ⟨hne, hl⟩ := loadPrograms_ok_iff.1 hvm.loads
    obtain ⟨hash, heq⟩ := loadPrograms_of_loadable vm hne hl
    rw [sourcePrograms, List.length_map, hvm.assembled.length_eq, heq]
    exact length_moduleTable vm.pcStart files
  · intro idx mod count startMs hctl
    cases hctl

/-- The run of straight-line sources: in every run without a reload, the words that were executed
and the words that the current cycle has still to execute are the words of all lines, once for
each cycle that was begun, in the order of the modules and of their lines.  Memory stays as it was
loaded. -/
theorem straight_line_scans {h : Host} {es : List Env} (hvm : LoadsSources rawHalt vm texts files)
    (hprogs : ∀ text ∈ texts, StraightLine (sourceProgram rawHalt text))
    (hquiet : Along (step vmDecodeInstruction) NoReload (start h (loadPrograms vm files).1) es) :
    trace (step vmDecodeInstruction) executedWord (start h (loadPrograms vm files).1) es ++
        todo (sourcePrograms rawHalt texts) (runProgram h (loadPrograms vm files).1 es).ctl =
      (List.replicate
        (trace (step vmDecodeInstruction) begun (start h (loadPrograms vm files).1) es).length
        (texts.flatMap fun text => words (sourceProgram rawHalt text))).flatten ∧
      (runProgram h (loadPrograms vm files).1 es).vm.mem = (loadPrograms vm files).1.mem := by
  have hscanning := hvm.scanning h
  refine ⟨?_, hscanning.mem_run (List.forall_mem_map.2 hprogs) hquiet⟩
  have hrun := hscanning.trace_executedWord (List.forall_mem_map.2 hprogs) hquiet
  rw [sourcePrograms, List.flatMap_map] at hrun
  exact hrun

/-- Two counters, one that goes up and one that goes down. -/
def upDownSource : List UInt8 := bytes "ADD R1, R1, #1\nSUB R2, R2, #1\n"

/-- The assembled file. -/
def upDownFile : NamedFile :=
  ⟨bytes "updown.bin", .readable (assemble false upDownSource).1 (by decide +kernel)⟩

lemma validText_upDown : ValidText false upDownSource := by
  have hlines : upDownSource.splitOn 10 =
      [bytes "ADD R1, R1, #1", bytes "SUB R2, R2, #1", []] := by decide
  refine ⟨by decide, ?_, by decide +kernel⟩
  rw [hlines]
  exact List.forall_mem_cons.2 ⟨⟨_, rfl⟩, List.forall_mem_cons.2 ⟨⟨_, rfl⟩,
    List.forall_mem_singleton.2 ⟨_, rfl⟩⟩⟩

lemma straightLine_upDown : StraightLine (sourceProgram false upDownSource) :=
  ⟨by decide +kernel, by decide +kernel, by decide +kernel⟩

lemma loadsSources_upDown :
    LoadsSources false (vmTablesInit vmCreate) [upDownSource] [upDownFile] :=
  ⟨rfl, List.forall_mem_singleton.2 validText_upDown, .cons ⟨_, rfl⟩ .nil, by decide +kernel⟩

/-- Three cycles and a half. -/
theorem straight_line_scans_upDown :
    let vm := (loadPrograms (vmTablesInit vmCreate) [upDownFile]).1
    let es := List.replicate 32 idleEnv
    trace (step vmDecodeInstruction) executedWord (start idleHost vm) es ++
        todo (sourcePrograms false [upDownSource]) (runProgram idleHost vm es).ctl =
      (List.replicate (trace (step vmDecodeInstruction) begun (start idleHost vm) es).length
        ([upDownSource].flatMap fun text => words (sourceProgram false text))).flatten ∧
      (runProgram idleHost vm es).vm.mem = vm.mem :=
  straight_line_scans loadsSources_upDown (List.forall_mem_singleton.2 straightLine_upDown)
    (by decide +kernel)

end Runs

end Vm32
