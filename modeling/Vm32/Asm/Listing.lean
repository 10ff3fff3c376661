/-
# Listings

The log prints an instruction as a line that the assembler reads back.  So a list of instructions
can be printed and assembled again: the program in memory after a load gives the files that were
loaded, and the instruction lines of the log of a run, taken out of its text and without the bar in
front of them, give the words that the run has executed.
-/
import Vm32.Asm.Log
import Vm32.Asm.Scan
import Vm32.Vm.Strings

namespace Vm32

open CText LabelledRun

/-! ### Printing words -/

/-- The word is one of the instruction format. -/
structure Printable (w : UInt32) : Prop where
  opcode : (opc w).toNat < 68
  imm : fimm w = true → (opEntry (opc w).toNat).cflags = .allowImm

/-- What `fprintf_inst` prints for some words, each on a line of its own. -/
def listing (ws : List UInt32) : List UInt8 := ws.flatMap fun w => fprintfInst w ++ [10]

/-- The words of a module in memory. -/
def memoryWords (vm : VmState) (mod : ModuleInfo) : List UInt32 :=
  (List.range (mod.size.toNat / 4)).map fun k => vmMr32 vm (mod.addr + UInt32.ofNat (4 * k))

section Printing

variable {rawHalt : Bool} {w : UInt32} {ws : List UInt32}

/-- The instruction line of a word holds its instruction. -/
lemma Printable.hasWord (hw : Printable w) : HasWord true (lineTokens (fprintfInst w)) w := by
  rw [lineTokens_fprintfInst hw.opcode, hasWord_iff]
  exact ⟨_, _, unpackWord w, rfl,
    ⟨opcodeFromName_opcodeName hw.opcode, readsReg_regText (ra w), readsReg_regText (rb w),
      readsC_cText hw.imm⟩, (packWord_unpackWord w).symm⟩

/-- The assembler finds one instruction in each line of a listing. -/
lemma instructionTokens_listing (hws : ∀ w ∈ ws, Printable w) :
    instructionTokens (fgets maxLine (listing ws)) =
      ws.map fun w => lineTokens (fprintfInst w) := by
  induction ws with
  | nil => rfl
  | cons w ws ih =>
    rw [List.forall_mem_cons] at hws
    obtain ⟨hw, hws⟩ := hws
    have hnl : 10 ∉ fprintfInst w := fun h => (mem_fprintfInst hw.opcode 10 h).2.1 rfl
    obtain ⟨tok, ops, ins, htoks, -⟩ := hasWord_iff.1 hw.hasWord
    have hne : fprintfInst w ≠ [] := by
      intro hnil
      rw [hnil, lineTokens_nil] at htoks
      cases htoks
    have hlist : listing (w :: ws) = fprintfInst w ++ 10 :: listing ws := by
      simp [listing]
    have hline : instructionTokens (fgets maxLine (fprintfInst w ++ [10])) =
        [lineTokens (fprintfInst w)] := by
      rw [fgets, instructionTokens_fgetsLoop_newline hnl]
      show instructionTokens (fgets maxLine (fprintfInst w)) = _
      rw [fgets_line hnl (length_fprintfInst_lt hw.opcode) hne, instructionTokens_cons, if_neg]
      · rfl
      · rw [htoks]
        exact List.cons_ne_nil _ _
    rw [hlist, fgets_append_newline, instructionTokens_append, hline, ih hws]
    rfl

/-- A listing is assembled to the words that it was printed for. -/
lemma assemble_listing (hws : ∀ w ∈ ws, Printable w) :
    assemble true (listing ws) = (ws.flatMap wordBytes, none) := by
  refine assemble_eq_iff.2 ⟨ws, ?_, rfl⟩
  rw [Emits, instructionTokens_listing hws, List.forall₂_map_left_iff, List.forall₂_same]
  exact fun w hw => (hws w hw).hasWord

/-- What the assembler puts into a word can be printed. -/
lemma printable_of_hasWord {toks : List (List UInt8)} (h : HasWord rawHalt toks w) :
    Printable w := by
  obtain ⟨tok, ops, ins, -, ⟨hop, hread⟩, rfl⟩ := hasWord_iff.1 h
  have hdecodes : DecodesTo (packWord ins) ins := decodesTo_packWord ⟨opcodeFromName_lt hop,
    hread.areg.range, hread.breg.range, hread.cop.inRange⟩
  rw [← hdecodes.opc] at hop
  refine ⟨opcodeFromName_lt hop, fun himm => ?_⟩
  cases hcop : ins.cop with
  | reg v => rw [(hdecodes.reg v hcop).1] at himm; cases himm
  | imm v =>
    have hread := hread.cop
    rw [hcop] at hread
    cases hops : ops[2]? with
    | none =>
      rw [hops] at hread
      cases hread
    | some tok =>
      rw [hops] at hread
      rw [hdecodes.opc]
      exact hread.2.1

/-- The output of the assembler is the words of printable instructions. -/
lemma exists_printable {text out : List UInt8} (h : assemble rawHalt text = (out, none)) :
    ∃ ws : List UInt32, (∀ w ∈ ws, Printable w) ∧ out = ws.flatMap wordBytes := by
  obtain ⟨ws, hemits, hout⟩ := assemble_eq_iff.1 h
  refine ⟨ws, fun w hw => ?_, hout⟩
  obtain ⟨i, hi, rfl⟩ := List.getElem_of_mem hw
  exact printable_of_hasWord (hemits.get (hemits.length_eq ▸ hi) hi)

lemma length_flatMap_wordBytes (ws : List UInt32) :
    (ws.flatMap wordBytes).length = 4 * ws.length := by
  simp [List.length_flatMap, length_wordBytes, Nat.mul_comm]

/-- The bytes of the `k`-th word. -/
lemma getElem?_flatMap_wordBytes {k j : ℕ} (hk : k < ws.length) (hj : j < 4) :
    (ws.flatMap wordBytes)[4 * k + j]? = (wordBytes ws[k])[j]? := by
  induction ws generalizing k with
  | nil => cases hk
  | cons w ws ih =>
    rw [List.flatMap_cons]
    cases k with
    | zero =>
      rw [List.getElem?_append_left (by rw [length_wordBytes]; omega), Nat.mul_zero, Nat.zero_add]
      rfl
    | succ k =>
      rw [List.getElem?_append_right (by rw [length_wordBytes]; omega), length_wordBytes]
      have hidx : 4 * (k + 1) + j - 4 = 4 * k + j := by omega
      rw [hidx, ih (Nat.lt_of_succ_lt_succ hk)]
      rfl

/-- The words of a module whose bytes in memory are those of the words. -/
lemma memoryWords_eq {vm : VmState} {mod : ModuleInfo} (hsize : mod.size.toNat = 4 * ws.length)
    (hfits : mod.Fits)
    (hmem : ∀ j b, (ws.flatMap wordBytes)[j]? = some b → vm.mem (mod.addr.toNat + j) = b) :
    memoryWords vm mod = ws := by
  refine List.ext_getElem ?_ fun k hk hk' => ?_
  · rw [memoryWords, List.length_map, List.length_range, hsize]
    omega
  · simp only [memoryWords, List.getElem_map, List.getElem_range]
    have hend : mod.addr.toNat + 4 * ws.length ≤ vmMemBytes := by
      rcases hfits with hzero | hend
      · have hnone : mod.size.toNat = 0 := by rw [hzero, UInt32.toNat_zero]
        omega
      · omega
    have hoff : (UInt32.ofNat (4 * k)).toNat = 4 * k := toNat_ofNat_of_le (by omega)
    have hword : (mod.addr + UInt32.ofNat (4 * k)).toNat = mod.addr.toNat + 4 * k := by
      rw [toNat_add_of_le (by omega), hoff]
    refine vmMr32_of_wordBytes (by omega) fun j hj => ?_
    have hj₄ : j < 4 := by rwa [length_wordBytes] at hj
    rw [hword, Nat.add_assoc]
    apply hmem
    rw [getElem?_flatMap_wordBytes hk' hj₄, List.getElem?_eq_getElem hj]

end Printing

/-! ### The program in memory -/

/-- A machine with files loaded that the assembler has written: for every module, the listing of its
words in memory is assembled to the file that the module was loaded from. -/
theorem memory_reassembles {vm : VmState} {files : List NamedFile}
    (hread : ∀ f ∈ files, f.file.Readable)
    (hassembled : ∀ f ∈ files, ∃ rawHalt text, assemble rawHalt text = (f.file.data, none))
    (hloads : (loadPrograms vm files).2 = true) {idx : ℕ} {f : NamedFile}
    (hf : files[idx]? = some f) :
    ∃ mod, (loadPrograms vm files).1.modules[idx]? = some mod ∧ mod.name = f.name ∧
      assemble true (listing (memoryWords (loadPrograms vm files).1 mod)) =
        (f.file.data, none) := by
  obtain ⟨hne, hl⟩ := loadPrograms_ok_iff.1 hloads
  obtain ⟨mod, hmod, hname, haddr, hsize⟩ := moduleTable_getElem? hread hl hf
  obtain ⟨hash, heq⟩ := loadPrograms_of_loadable vm hne hl
  have hmods : (loadPrograms vm files).1.modules = moduleTable vm.pcStart files := by
    rw [heq]
    rfl
  have hmem : (loadPrograms vm files).1.mem = overlay vm.mem vm.pcStart.toNat (imageOf files) := by
    rw [heq]
    rfl
  have hfits := loadPrograms_fits vm hne mod (List.mem_of_getElem? (by rw [hmods, hmod]))
  refine ⟨mod, by rw [hmods, hmod], hname, ?_⟩
  obtain ⟨rawHalt, text, htext⟩ := hassembled f (List.mem_of_getElem? hf)
  obtain ⟨ws, hws, hdata⟩ := exists_printable htext
  have hlen : mod.size.toNat = 4 * ws.length := by
    rw [hsize, File.size, hdata, length_flatMap_wordBytes]
  have hwords : memoryWords (loadPrograms vm files).1 mod = ws := by
    refine memoryWords_eq hlen hfits fun j b hb => ?_
    rw [← hdata] at hb
    have hj : j < f.file.size := (List.getElem?_eq_some_iff.1 hb).1
    obtain ⟨hlt, hget⟩ := List.getElem?_eq_some_iff.1 (imageOf_getElem? hread hf hj)
    rw [List.getElem?_eq_getElem hj] at hb
    rw [hmem, haddr, Nat.add_assoc, overlay_getElem _ _ _ hlt, hget]
    exact Option.some.inj hb
  rw [hwords, assemble_listing hws, hdata]

/-- The module of the source that counts. -/
theorem memory_reassembles_count :
    let vm := (loadPrograms (vmTablesInit vmCreate) [countFile]).1
    ∃ mod, vm.modules[0]? = some mod ∧ mod.name = countFile.name ∧
      assemble true (listing (memoryWords vm mod)) = (countFile.file.data, none) :=
  memory_reassembles (List.forall_mem_singleton.2 ⟨_, _, rfl⟩)
    (List.forall_mem_singleton.2 ⟨false, countSource, by decide +kernel⟩) (by decide +kernel) rfl

/-! ### The log of a run -/

/-- The text with which a block begins. -/
abbrev blockHead : List UInt8 := bytes "┌─ Instruction #"

/-- The instructions in the lines of a log: the second line behind the head of every block, without
the bar in front of it. -/
def instructionLines : List (List UInt8) → List (List UInt8)
  | [] => []
  | l :: ls =>
    (if (expect blockHead l).isSome then (ls[1]?.bind (expect (bytes "│ "))).toList else []) ++
      instructionLines ls

/-- The word for which a step prints an instruction line, if logging is on. -/
def loggedWord (c : Config) (e : Env) : Option UInt32 :=
  match outcome vmDecodeInstruction c e with
  | some (.executed _ instr _) => some instr
  | _ => none

section Log

variable {rawHalt : Bool} {texts : List (List UInt8)} {files : List NamedFile} {vm : VmState}

/-- The lines of a source program can be printed. -/
lemma printable_sourceProgram {text : List UInt8} {line : SourceLine}
    (hline : line ∈ sourceProgram rawHalt text) : Printable line.word := by
  obtain ⟨l, -, hl⟩ := List.mem_filterMap.1 hline
  rw [sourceLine] at hl
  split at hl
  · cases hl
  · rename_i tok ops htoks
    split at hl
    · rename_i ins hins
      split at hl
      · obtain rfl := Option.some.inj hl
        obtain ⟨tok, ops, htoks, hop⟩ := assembleLine_some_iff.1 hins
        have hword : HasWord rawHalt (lineTokens l) (packWord ins) :=
          hasWord_iff.2 ⟨tok, ops, ins, htoks, hop, rfl⟩
        exact printable_of_hasWord hword
      · cases hl
    · cases hl

/-- The word that the source machine executes with the outcome. -/
def Outcome.word : Outcome → Option UInt32
  | .executed _ instr _ => some instr
  | _ => none

lemma loggedWord_eq :
    loggedWord = fun c e => (outcome vmDecodeInstruction c e).bind Outcome.word := by
  funext c e
  rw [loggedWord]
  cases outcome vmDecodeInstruction c e with
  | none => rfl
  | some o => cases o <;> rfl

/-! The blocks -/

lemma expect_head_of_offBlock {l : List UInt8} (hl : OffBlock l) : expect blockHead l = none := by
  have hlead : blockHead = boxLead ++ blockHead.drop 2 := by decide
  rw [hlead]
  exact expect_append_eq_none hl.outside

/-- Lines without a head are passed over. -/
lemma instructionLines_append {ls : List (List UInt8)} (hls : ∀ l ∈ ls, expect blockHead l = none)
    (rest : List (List UInt8)) :
    instructionLines (ls ++ rest) = instructionLines rest := by
  induction ls with
  | nil => rfl
  | cons l ls ih =>
    rw [List.forall_mem_cons] at hls
    rw [List.cons_append, instructionLines, hls.1, ih hls.2]
    rfl

/-- Only the first line of a block is a head. -/
lemma expect_head_of_mem_tail {n : UInt64} {x : LoggedStep} :
    ∀ l ∈ (x.lines n).tail, expect blockHead l = none := by
  have hoperand : ∀ r name, expect blockHead (operandLine x.reg r name) = none := fun r name =>
    Clash.expect_eq_none (by decide) _
  have hoperandC : expect blockHead (operandCLine x.reg x.instr) = none := by
    rw [operandCLine]
    split_ifs
    · exact Clash.expect_eq_none (by decide) _
    · exact hoperand _ _
  have hregs : ∀ l ∈ (regDeltas x.reg x.reg').map regChangeLine, expect blockHead l = none :=
    List.forall_mem_map.2 fun d _ => Clash.expect_eq_none (by decide) _
  have hmems : ∀ l ∈ (memDeltas x.mem x.mem').map memChangeLine, expect blockHead l = none :=
    List.forall_mem_map.2 fun d _ => Clash.expect_eq_none (by decide) _
  have hend : ∀ l ∈ logEnd x.pc x.pc', expect blockHead l = none := by
    have hpc : expect blockHead (if x.pc ≠ x.pc' then
        bytes "│ PC changed: 0x" ++ (upperHex 8 x.pc.toNat ++ (bytes " -> 0x" ++
          upperHex 8 x.pc'.toNat))
        else bytes "│ PC: 0x" ++ upperHex 8 x.pc'.toNat) = none := by
      split_ifs
      · exact Clash.expect_eq_none (by decide) _
      · exact Clash.expect_eq_none (by decide) _
    simp only [logEnd, List.forall_mem_cons, List.not_mem_nil, false_imp_iff, implies_true,
      and_true]
    exact ⟨by decide, hpc, Clash.expect_eq_none (by decide) _, rfl⟩
  simp only [LoggedStep.lines, logBefore, logInstruction, logAfter, List.cons_append,
    List.nil_append, List.tail_cons, List.forall_mem_cons, List.forall_mem_append]
  exact ⟨Clash.expect_eq_none (by decide) _, Clash.expect_eq_none (by decide) _,
    Clash.expect_eq_none (by decide) _, by decide, by decide, hoperand _ _, hoperand _ _,
    hoperandC, by decide, forall_mem_changeSection (by decide) (by decide) hregs,
    forall_mem_changeSection (by decide) (by decide +kernel) hmems, hend⟩

/-! The names of the modules -/

lemma mem_moduleTable {p : UInt32} {fs : List NamedFile} {mod : ModuleInfo}
    (hmod : mod ∈ moduleTable p fs) : ∃ f ∈ fs, mod.name = f.name := by
  induction fs generalizing p with
  | nil => cases hmod
  | cons f fs ih =>
    rcases List.mem_cons.1 hmod with rfl | hmod
    · exact ⟨f, List.mem_cons_self, rfl⟩
    · obtain ⟨g, hg, hname⟩ := ih hmod
      exact ⟨g, List.mem_cons_of_mem _ hg, hname⟩

lemma LoadsSources.plainNames (hvm : LoadsSources rawHalt vm texts files)
    (hnames : ∀ f ∈ files, 10 ∉ f.name) : PlainNames (loadPrograms vm files).1 := by
  obtain ⟨hne, hl⟩ := loadPrograms_ok_iff.1 hvm.loads
  obtain ⟨hash, heq⟩ := loadPrograms_of_loadable vm hne hl
  intro mod hmod
  rw [heq] at hmod
  obtain ⟨f, hf, hname⟩ := mem_moduleTable hmod
  rw [hname]
  exact hnames f hf

/-- A run that leaves the module table alone keeps the names. -/
lemma RunsAs.plainNames {progs : List (List SourceLine)} {s t : Config} {es : List Env}
    (hst : RunsAs progs s t) (hnames : PlainNames s.vm)
    (hes : Along (sourceStep progs) (Behaves progs) s es) :
    Along (step vmDecodeInstruction) (fun c _ => PlainNames c.vm) t es := by
  induction es generalizing s t with
  | nil => trivial
  | cons e es ih =>
    have hmods : t.vm.modules = s.vm.modules := by
      obtain ⟨-, cache, -, rfl⟩ := hst
      rfl
    have hnext : PlainNames (sourceStep progs s e).vm := fun mod hmod =>
      hnames mod (hes.1.modules ▸ hmod)
    exact ⟨fun mod hmod => hnames mod (hmods ▸ hmod), ih (hst.next hes.1).2 hnext hes.2⟩

lemma loggedWord_eq_map : loggedWord = fun c e => (loggedStep c e).map LoggedStep.instr := by
  funext c e
  rw [loggedWord, loggedStep]
  cases outcome vmDecodeInstruction c e with
  | none => rfl
  | some o => cases o <;> rfl

/-- The instruction lines are taken out of the log block by block. -/
lemma blockReader_instructionLines :
    BlockReader instructionLines fun x => [fprintfInst x.instr] where
  nil := rfl
  offBlock := fun ls hl => by
    rw [instructionLines, expect_head_of_offBlock hl]
    rfl
  block := fun {x} n ls _ => by
    have hsecond : ((x.lines n).tail ++ ls)[1]? = some (bytes "│ " ++ fprintfInst x.instr) := rfl
    show instructionLines ((blockHead ++ _) :: ((x.lines n).tail ++ ls)) = _
    rw [instructionLines, expect_append, hsecond, instructionLines_append expect_head_of_mem_tail,
      Option.bind_some, expect_append]
    rfl

/-- The instruction lines of the log of a run are a source text for what the run has executed: taken
out of the text of the log, they are assembled to the words that are executed from assembled and
loaded sources, in order.  This needs that no newline stands in the date or in the name of a
module. -/
theorem log_reassembles {date : List UInt8} {h : Host} {es : List Env}
    (hvm : LoadsSources rawHalt vm texts files) (hdate : 10 ∉ date)
    (hnames : ∀ f ∈ files, 10 ∉ f.name)
    (hes : Along (sourceStep (sourcePrograms rawHalt texts))
      (Behaves (sourcePrograms rawHalt texts)) (start h (loadPrograms vm files).1) es) :
    let log := vmLog date h (loadPrograms vm files).1 es
    let ws := trace (step vmDecodeInstruction) loggedWord (start h (loadPrograms vm files).1) es
    assemble true (unlines (instructionLines (log.splitOn 10))) =
      (ws.flatMap wordBytes, none) := by
  intro log ws
  have hlines : unlines (instructionLines (log.splitOn 10)) = listing ws := by
    have hread : instructionLines (log.splitOn 10) = _ :=
      blockReader_instructionLines.read_vmLog hdate
        ((hvm.runsAs h).plainNames (hvm.plainNames hnames) hes)
    rw [hread, listing, unlines]
    simp only [ws, loggedWord_eq_map, trace_map, List.flatMap_map, List.flatMap_assoc,
      List.flatMap_singleton]
  rw [hlines]
  refine assemble_listing fun w hw => ?_
  obtain ⟨cache, -, htrace⟩ := (hvm.runsAs h).run hes
  have hws : ws = (trace (sourceStep (sourcePrograms rawHalt texts))
      (sourceOutcome (sourcePrograms rawHalt texts)) (start h (loadPrograms vm files).1)
      es).filterMap Outcome.word := by
    rw [← htrace, ← trace_filterMap, ← loggedWord_eq]
  rw [hws] at hw
  obtain ⟨o, ho, hw⟩ := List.mem_filterMap.1 hw
  obtain ⟨as, a, bs, -, ho⟩ := mem_trace.1 ho
  cases o with
  | executed pc instr raw =>
    obtain ⟨prog, hprog, line, hline, rfl, -⟩ := sourceOutcome_executed ho
    obtain rfl := Option.some.inj hw
    obtain ⟨text, -, rfl⟩ := List.mem_map.1 hprog
    exact printable_sourceProgram hline
  | _ => cases hw

/-- Two cycles of the source that counts. -/
theorem log_reassembles_count :
    let date := bytes "Thu Jan  1 00:00:00 1970"
    let vm := (loadPrograms (vmTablesInit vmCreate) [countFile]).1
    let es := List.replicate 18 idleEnv
    let ws := trace (step vmDecodeInstruction) loggedWord (start idleHost vm) es
    assemble true (unlines (instructionLines ((vmLog date idleHost vm es).splitOn 10))) =
      (ws.flatMap wordBytes, none) :=
  log_reassembles loadsSources_count (by decide) (by decide) (by decide +kernel)

end Log

end Vm32
