/-
# Running an assembled program is running its source

The words of a program are loaded into memory, fetched, decoded through the cache and dispatched;
the source machine looks up a line.  As long as the source machine stays at the beginning of
lines and leaves the programs alone, the two machines do the same, step for step: the assembler,
the loader, the fetch and the decode cache together preserve the meaning of the source.
-/
import Vm32.Asm.SourceMachine
import Vm32.Vm.CacheCoherence
import Vm32.Vm.LoaderLayout
import Vm32.Vm.Fetch

namespace Vm32

open CText LabelledRun

/-! ### Programs in memory -/

/-- The bytes of a program. -/
def sourceBytes (prog : List SourceLine) : List UInt8 := programBytes (prog.map SourceLine.ins)

/-- Every module holds the bytes of its program. -/
structure Holds (progs : List (List SourceLine)) (vm : VmState) : Prop where
  fits : ∀ mod ∈ vm.modules, mod.Fits
  size : ∀ idx mod, vm.modules[idx]? = some mod →
    mod.size.toNat = 4 * (progs.getD idx []).length
  bytes : ∀ idx mod, vm.modules[idx]? = some mod →
    ∀ k (hk : k < (sourceBytes (progs.getD idx [])).length),
      vm.mem (mod.addr.toNat + k) = (sourceBytes (progs.getD idx []))[k]

/-- A module has this line of its program at the address. -/
def LineAt (progs : List (List SourceLine)) (vm : VmState) (addr : UInt32) (line : SourceLine) :
    Prop :=
  ∃ idx mod, vm.modules[idx]? = some mod ∧ line ∈ lineAt (progs.getD idx []) mod.addr addr

variable {progs : List (List SourceLine)} {vm vm' : VmState}

lemma length_sourceBytes (prog : List SourceLine) : (sourceBytes prog).length = 4 * prog.length := by
  rw [sourceBytes, length_programBytes, List.length_map]

/-- What the programs are does not depend on the rest of the state. -/
lemma Holds.congr (hvm : Holds progs vm) (hmods : vm'.modules = vm.modules)
    (hcode : ∀ mod ∈ vm.modules, ∀ k < mod.size.toNat,
      vm'.mem (mod.addr.toNat + k) = vm.mem (mod.addr.toNat + k)) : Holds progs vm' := by
  constructor
  · rw [hmods]
    exact hvm.fits
  · rw [hmods]
    exact hvm.size
  · intro idx mod hmod k hk
    rw [hmods] at hmod
    have hlt : k < mod.size.toNat := by
      rw [hvm.size idx mod hmod, ← length_sourceBytes]
      exact hk
    rw [hcode mod (List.mem_of_getElem? hmod) k hlt]
    exact hvm.bytes idx mod hmod k hk

/-- Where a line is, its word is in memory. -/
lemma LineAt.word (hvm : Holds progs vm) {addr : UInt32} {line : SourceLine}
    (hline : LineAt progs vm addr line) :
    vmMr32 vm addr = line.word ∧ addr.toNat + 4 ≤ vmMemBytes := by
  obtain ⟨idx, mod, hmod, hat⟩ := hline
  rw [lineAt, Option.mem_def, Option.ite_none_right_eq_some] at hat
  obtain ⟨⟨halign, hle⟩, hget⟩ := hat
  obtain ⟨hlt, hget⟩ := List.getElem?_eq_some_iff.1 hget
  have hsize := hvm.size idx mod hmod
  have hbytes := hvm.bytes idx mod hmod
  generalize progs.getD idx [] = prog at hlt hget hsize hbytes
  have hle' : mod.addr.toNat ≤ addr.toNat := UInt32.le_iff_toNat_le.1 hle
  have hpos : addr.toNat = mod.addr.toNat + 4 * ((addr.toNat - mod.addr.toNat) / 4) := by omega
  generalize (addr.toNat - mod.addr.toNat) / 4 = i at hlt hget hpos
  -- the module is not empty, so it lies in memory
  have hend : mod.addr.toNat + mod.size.toNat ≤ vmMemBytes := by
    rcases hvm.fits mod (List.mem_of_getElem? hmod) with hzero | hend
    · have : mod.size.toNat = 0 := by rw [hzero, UInt32.toNat_zero]
      omega
    · exact hend
  refine ⟨vmMr32_of_wordBytes (by omega) fun k hk => ?_, by omega⟩
  have hi : i < (prog.map SourceLine.ins).length := by rwa [List.length_map]
  have hk' : k < 4 := hk
  have hat : 4 * i + k < (sourceBytes prog).length := by
    rw [length_sourceBytes]
    omega
  have hword : packWord (prog.map SourceLine.ins)[i] = line.word := by
    rw [List.getElem_map, hget, SourceLine.word]
  rw [hpos, Nat.add_assoc, hbytes _ hat]
  have hread := programBytes_getElem hi (hword ▸ hk) hat
  simp only [hword] at hread
  exact hread

/-! ### One step -/

/-- The programs are in memory, and the module that runs is in the table. -/
structure SourceInv (progs : List (List SourceLine)) (c : Config) : Prop where
  holds : Holds progs c.vm
  running : ∀ idx mod count startMs, c.ctl = .instr idx mod count startMs →
    c.vm.modules[idx]? = some mod

/-- The cache holds words of the programs only. -/
def CodeCache (progs : List (List SourceLine)) (vm : VmState) (cache : DecodeCache) : Prop :=
  ∀ addr d, cache.lookup addr = some d → ∃ line, LineAt progs vm addr line ∧ d.rawInstr = line.word

/-- A line is executed as its word is. -/
lemma runInstruction_of_line {h : Host} {mod : ModuleInfo} {line : SourceLine}
    (hin : ¬(moduleEnd mod ≤ vm.pc ∨ vm.pc < mod.addr)) (hword : vmMr32 vm vm.pc = line.word)
    (hmem : vm.pc.toNat + 4 ≤ vmMemBytes) (hne : line.ins ≠ ⟨0, 0, 0, .reg 0⟩) :
    runInstruction decodeAfresh h vm mod (moduleEnd mod) =
      (callHandler line.op h vm line.word, .executed vm.pc line.word line.word) := by
  have hzero : vmMr32 vm vm.pc ≠ 0 := by
    rw [hword, SourceLine.word, Ne, packWord_eq_zero_iff line.inRange]
    exact hne
  have hdec : decodeAfresh vm vm.pc = (some (decodeWord line.word), vm) := by
    rw [decodeAfresh, if_neg (by omega), hword]
  have hop : opEx (opc line.word) = some line.op := line.encoded
  rw [runInstruction_some hin hzero hdec, hword, dispatch_of_handler hop]
  rfl

/-- A step of the source machine at a line is a step of the machine that decodes afresh. -/
lemma sourceStep_eq {c : Config} (hc : SourceInv progs c) (hline : OnLine progs c) (e : Env) :
    sourceStep progs c e = step decodeAfresh c e ∧
      sourceOutcome progs c e = outcome decodeAfresh c e ∧
      ∀ o ∈ outcome decodeAfresh c e, ∀ q ∈ o.decoded, ∃ line, LineAt progs c.vm q.1 line ∧
        q.2 = line.word := by
  obtain ⟨vm, ctl⟩ := c
  cases ctl with
  | instr idx mod count startMs =>
    have hmod := hc.running idx mod count startMs rfl
    by_cases hkeep : keepsRunning vm count = true
    · by_cases hin : moduleEnd mod ≤ vm.pc ∨ vm.pc < mod.addr
      · have hrun : runLine (progs.getD idx []) e.host vm mod = (vm, .completed) := if_pos hin
        simp only [sourceStep, sourceOutcome, step, outcome, hkeep, if_true, hrun,
          runInstruction_outside hin, true_and]
        rintro o ⟨⟩ q ⟨⟩
      · have hat := hline hkeep hin
        rw [Option.any_eq_true_iff_get] at hat
        obtain ⟨hsome, hne⟩ := hat
        obtain ⟨line, hat⟩ := Option.isSome_iff_exists.1 hsome
        simp only [hat, Option.get_some, decide_eq_true_eq] at hne
        have hplace : LineAt progs vm vm.pc line := ⟨idx, mod, hmod, hat⟩
        obtain ⟨hword, hmem⟩ := hplace.word hc.holds
        have hrun : runLine (progs.getD idx []) e.host vm mod =
            (callHandler line.op e.host vm line.word, .executed vm.pc line.word line.word) := by
          rw [runLine, if_neg hin, hat]
        simp only [sourceStep, sourceOutcome, step, outcome, hkeep, if_true, hrun,
          runInstruction_of_line hin hword hmem hne, true_and]
        rintro o ⟨⟩ q ⟨⟩
        exact ⟨line, hplace, rfl⟩
    · simp only [sourceStep, sourceOutcome, step, outcome, hkeep, Bool.false_eq_true, if_false,
        true_and]
      rintro o ⟨⟩
  | _ => exact ⟨rfl, rfl, fun o ho => by cases ho⟩

/-- A well-behaved step keeps the programs in memory. -/
lemma SourceInv.next {c : Config} {e : Env} (hc : SourceInv progs c) (he : Behaves progs c e) :
    SourceInv progs (sourceStep progs c e) := by
  refine ⟨hc.holds.congr he.modules he.code, fun idx' mod' count' startMs' hctl => ?_⟩
  rw [he.modules]
  obtain ⟨vm, ctl⟩ := c
  cases ctl with
  | module idx startMs =>
    simp only [sourceStep, step] at hctl
    cases hmod : vm.modules[idx]? with
    | none => simp [hmod] at hctl
    | some mod =>
      simp only [hmod, Ctl.instr.injEq] at hctl
      obtain ⟨rfl, rfl, -, -⟩ := hctl
      exact hmod
  | instr idx mod count startMs =>
    simp only [sourceStep] at hctl
    split_ifs at hctl
    generalize (runLine (progs.getD idx []) e.host vm mod).2 = o at hctl
    cases o <;> simp only [afterInstruction, reduceCtorEq, Ctl.instr.injEq] at hctl
    obtain ⟨rfl, rfl, -, -⟩ := hctl
    exact hc.running idx mod count startMs rfl
  | top =>
    simp only [sourceStep, step] at hctl
    split_ifs at hctl
  | _ => simp [sourceStep, step] at hctl

/-- The machine with the cache is where the source machine is, and its cache holds words of the
programs. -/
def RunsAs (progs : List (List SourceLine)) (s t : Config) : Prop :=
  SourceInv progs s ∧ ∃ cache, CodeCache progs s.vm cache ∧ t = s.withCache (some cache)

/-- One step of the two machines. -/
lemma RunsAs.next {s t : Config} {e : Env} (hst : RunsAs progs s t) (he : Behaves progs s e) :
    sourceOutcome progs s e = outcome vmDecodeInstruction t e ∧
      RunsAs progs (sourceStep progs s e) (step vmDecodeInstruction t e) := by
  obtain ⟨hs, cache, hcache, rfl⟩ := hst
  obtain ⟨hstep, hout, hlines⟩ := sourceStep_eq hs he.onLine e
  -- two lines at one address have the word that is in memory there
  have hfresh : ∀ o ∈ outcome decodeAfresh s e, cache.Fresh o := by
    intro o ho q hq d hd
    obtain ⟨line, hline, hraw⟩ := hcache q.1 d hd
    obtain ⟨line', hline', hword⟩ := hlines o ho q (decoded_of_handled hq)
    rw [hraw, hword, ← (hline.word hs.holds).1, (hline'.word hs.holds).1]
  obtain ⟨cache', hagrees, hsame, hadds⟩ := step_agrees hfresh
  refine ⟨hout.trans hsame.symm, hs.next he, cache', fun addr d hd => ?_, by rw [hagrees, hstep]⟩
  have hplace : ∀ line, LineAt progs s.vm addr line →
      LineAt progs (sourceStep progs s e).vm addr line := by
    rintro line ⟨idx, mod, hmod, hat⟩
    exact ⟨idx, mod, by rwa [he.modules], hat⟩
  rcases hadds addr d hd with hold | ⟨o, ho, hdec⟩
  · obtain ⟨line, hline, hraw⟩ := hcache addr d hold
    exact ⟨line, hplace line hline, hraw⟩
  · obtain ⟨line, hline, hword⟩ := hlines o ho _ hdec
    exact ⟨line, hplace line hline, hword⟩

/-- A well-behaved run of the two machines. -/
theorem RunsAs.run {s t : Config} {es : List Env} (hst : RunsAs progs s t)
    (hes : Along (sourceStep progs) (Behaves progs) s es) :
    ∃ cache,
      LabelledRun.run (step vmDecodeInstruction) t es =
        (LabelledRun.run (sourceStep progs) s es).withCache (some cache) ∧
      trace (step vmDecodeInstruction) (outcome vmDecodeInstruction) t es =
        trace (sourceStep progs) (sourceOutcome progs) s es := by
  have hsim : RunsAs progs (LabelledRun.run (sourceStep progs) s es)
        (LabelledRun.run (step vmDecodeInstruction) t es) ∧
      trace (sourceStep progs) (sourceOutcome progs) s es =
        trace (step vmDecodeInstruction) (outcome vmDecodeInstruction) t es :=
    hes.simulate hst fun s t e hst he => hst.next he
  obtain ⟨⟨-, cache, -, hrun⟩, htrace⟩ := hsim
  exact ⟨cache, hrun, htrace.symm⟩

/-! ### From the text to memory -/

section Loaded

variable {rawHalt : Bool}

/-- The instruction of a line is the one that is assembled. -/
lemma sourceLine_of_assembleLine {line : List UInt8} {r : Option AsmInstr}
    (hr : assembleLine rawHalt line = .ok r) :
    (sourceLine rawHalt line).map SourceLine.ins = r := by
  cases r with
  | none =>
    rw [sourceLine]
    split
    · rfl
    · split <;> simp_all
  | some ins =>
    obtain ⟨tok, ops, htoks, -⟩ := assembleLine_some_iff.1 hr
    obtain ⟨hname, hsome⟩ := handlerOf_of_assembleLine htoks hr
    obtain ⟨op, hop⟩ := Option.isSome_iff_exists.1 hsome
    rw [sourceLine]
    split
    · simp_all
    · split
      · split <;> simp_all
      · simp_all

lemma lineBytes_eq {line : List UInt8} (hvalid : ∃ r, assembleLine rawHalt line = .ok r) :
    lineBytes rawHalt line = sourceBytes (sourceLine rawHalt line).toList := by
  obtain ⟨r, hr⟩ := hvalid
  have hline := sourceLine_of_assembleLine hr
  rw [lineBytes, hr]
  cases hsource : sourceLine rawHalt line with
  | none =>
    rw [hsource] at hline
    subst hline
    rfl
  | some l =>
    rw [hsource] at hline
    subst hline
    simp [sourceBytes, programBytes]

/-- The output for a valid text. -/
lemma assemble_of_validText {text : List UInt8} (htext : ValidText rawHalt text) :
    assemble rawHalt text = (sourceBytes (sourceProgram rawHalt text), none) := by
  have hlines := inLine_of_mem_splitOn htext.noNul
  have hvalid := htext.valid
  have hwhole := htext.whole
  rw [assemble_eq_iff, sourceProgram]
  simp only [Emits]
  rw [instructionTokens_fgets]
  generalize text.splitOn 10 = lines at hlines hvalid hwhole
  induction lines with
  | nil => exact ⟨[], .nil, rfl⟩
  | cons l lines ih =>
    rw [List.forall_mem_cons] at hlines hvalid hwhole
    obtain ⟨ws, hws, hbytes⟩ := emits_of_readWhole hlines.1 hvalid.1 hwhole.1
    obtain ⟨words, hwords, hout⟩ := ih hlines.2 hvalid.2 hwhole.2
    refine ⟨ws ++ words, ?_, ?_⟩
    · rw [List.flatMap_cons]
      exact List.rel_append hws hwords
    · rw [List.flatMap_append, hbytes, ← hout, lineBytes_eq hvalid.1]
      cases hl : sourceLine rawHalt l <;> simp [hl, sourceBytes, programBytes]

/-- The file is the output of the assembler for the text. -/
def Assembled (rawHalt : Bool) (text : List UInt8) (f : NamedFile) : Prop :=
  ∃ hlen : (assemble rawHalt text).1.length < 2 ^ 63,
    f.file = .readable (assemble rawHalt text).1 hlen

/-- The programs of the texts. -/
def sourcePrograms (rawHalt : Bool) (texts : List (List UInt8)) : List (List SourceLine) :=
  texts.map (sourceProgram rawHalt)

/-- The outputs of the assembler for the texts are loaded into a machine whose decode cache is
empty. -/
structure LoadsSources (rawHalt : Bool) (vm : VmState) (texts : List (List UInt8))
    (files : List NamedFile) : Prop where
  emptyCache : vm.decodedCache = some .empty
  valid : ∀ text ∈ texts, ValidText rawHalt text
  assembled : List.Forall₂ (Assembled rawHalt) texts files
  loads : (loadPrograms vm files).2 = true

/-- What was assembled and loaded is in memory. -/
lemma LoadsSources.holds {texts : List (List UInt8)} {files : List NamedFile}
    (hvm : LoadsSources rawHalt vm texts files) :
    Holds (sourcePrograms rawHalt texts) (loadPrograms vm files).1 := by
  obtain ⟨hne, hl⟩ := loadPrograms_ok_iff.1 hvm.loads
  have hfiles := hvm.assembled
  have hread : ∀ f ∈ files, f.file.Readable := by
    intro f hf
    obtain ⟨i, hi, rfl⟩ := List.getElem_of_mem hf
    obtain ⟨hlen, hfile⟩ := hfiles.get (hfiles.length_eq ▸ hi) hi
    exact ⟨_, hlen, hfile⟩
  -- the entry of a module, with the file and the program that belong to it
  have hentry : ∀ idx mod, (moduleTable vm.pcStart files)[idx]? = some mod →
      ∃ f, files[idx]? = some f ∧
        f.file.data = sourceBytes ((sourcePrograms rawHalt texts).getD idx []) ∧
        mod.addr.toNat = vm.pcStart.toNat + totalSize (files.take idx) ∧
        mod.size.toNat = f.file.size := by
    intro idx mod hmod
    have hidx : idx < files.length := by
      rw [← length_moduleTable vm.pcStart files]
      exact (List.getElem?_eq_some_iff.1 hmod).1
    have htext : idx < texts.length := by rwa [hfiles.length_eq]
    have hf : files[idx]? = some files[idx] := List.getElem?_eq_getElem hidx
    obtain ⟨mod', hmod', -, haddr, hsize⟩ := moduleTable_getElem? hread hl hf
    obtain rfl : mod = mod' := Option.some.inj (hmod.symm.trans hmod')
    refine ⟨files[idx], hf, ?_, haddr, hsize⟩
    obtain ⟨hlen, hfile⟩ := hfiles.get htext hidx
    have hdata : files[idx].file.data = (assemble rawHalt texts[idx]).1 :=
      congrArg File.data hfile
    rw [hdata, assemble_of_validText (hvm.valid _ (List.getElem_mem htext)), sourcePrograms]
    simp [htext]
  obtain ⟨hash, heq⟩ := loadPrograms_of_loadable vm hne hl
  have hmods : (loadPrograms vm files).1.modules = moduleTable vm.pcStart files := by
    rw [heq]
    rfl
  have hmem : (loadPrograms vm files).1.mem = overlay vm.mem vm.pcStart.toNat (imageOf files) := by
    rw [heq]
    rfl
  constructor
  · exact loadPrograms_fits vm hne
  · intro idx mod hmod
    rw [hmods] at hmod
    obtain ⟨f, -, hdata, -, hsize⟩ := hentry idx mod hmod
    rw [hsize, File.size, hdata, length_sourceBytes]
  · intro idx mod hmod k hk
    rw [hmods] at hmod
    obtain ⟨f, hf, hdata, haddr, -⟩ := hentry idx mod hmod
    have hk' : k < f.file.size := by rwa [File.size, hdata]
    obtain ⟨hlt, hget⟩ := List.getElem?_eq_some_iff.1 (imageOf_getElem? hread hf hk')
    rw [hmem, haddr, Nat.add_assoc, overlay_getElem _ _ _ hlt, hget]
    simp [hdata]

/-- The two machines start at the same place. -/
lemma LoadsSources.runsAs {texts : List (List UInt8)} {files : List NamedFile}
    (hvm : LoadsSources rawHalt vm texts files) (h : Host) :
    RunsAs (sourcePrograms rawHalt texts) (start h (loadPrograms vm files).1)
      (start h (loadPrograms vm files).1) := by
  have hempty : (loadPrograms vm files).1.decodedCache = some .empty := by
    obtain ⟨hne, hl⟩ := loadPrograms_ok_iff.1 hvm.loads
    obtain ⟨hash, heq⟩ := loadPrograms_of_loadable vm hne hl
    rw [heq]
    exact hvm.emptyCache
  refine ⟨⟨hvm.holds.congr rfl fun _ _ _ _ => rfl, ?_⟩, .empty, ?_, ?_⟩
  · intro idx mod count startMs hctl
    cases hctl
  · intro addr d hd
    simp at hd
  · exact (Config.withCache_eq_self hempty).symm

/-- Assembling texts, loading the files and running the machine is running the sources: as long as
the source machine stays at the beginning of lines and leaves the programs alone, the machine is
at every moment where the source machine is, and it executes the same instructions. -/
theorem assembled_runs_as_source {texts : List (List UInt8)} {files : List NamedFile} {h : Host}
    {es : List Env} (hvm : LoadsSources rawHalt vm texts files)
    (hes : Along (sourceStep (sourcePrograms rawHalt texts))
      (Behaves (sourcePrograms rawHalt texts)) (start h (loadPrograms vm files).1) es) :
    ∃ cache,
      runProgram h (loadPrograms vm files).1 es =
        (run (sourceStep (sourcePrograms rawHalt texts)) (start h (loadPrograms vm files).1)
          es).withCache (some cache) ∧
      trace (step vmDecodeInstruction) (outcome vmDecodeInstruction)
          (start h (loadPrograms vm files).1) es =
        trace (sourceStep (sourcePrograms rawHalt texts))
          (sourceOutcome (sourcePrograms rawHalt texts)) (start h (loadPrograms vm files).1) es :=
  RunsAs.run (hvm.runsAs h) hes

/-- A source that counts in `R1` and leaves its module by a jump. -/
def countSource : List UInt8 := bytes "ADD R1, R1, #1\nJMP R0, R0, #0\n"

/-- The assembled file. -/
def countFile : NamedFile :=
  ⟨bytes "count.bin", .readable (assemble false countSource).1 (by decide +kernel)⟩

lemma validText_count : ValidText false countSource := by
  have hlines : countSource.splitOn 10 =
      [bytes "ADD R1, R1, #1", bytes "JMP R0, R0, #0", []] := by decide
  refine ⟨by decide, ?_, by decide +kernel⟩
  rw [hlines]
  exact List.forall_mem_cons.2 ⟨⟨_, rfl⟩, List.forall_mem_cons.2 ⟨⟨_, rfl⟩,
    List.forall_mem_singleton.2 ⟨_, rfl⟩⟩⟩

lemma loadsSources_count :
    LoadsSources false (vmTablesInit vmCreate) [countSource] [countFile] :=
  ⟨rfl, List.forall_mem_singleton.2 validText_count, .cons ⟨_, rfl⟩ .nil, by decide +kernel⟩

/-- Two cycles. -/
theorem assembled_runs_as_source_count :
    let vm := (loadPrograms (vmTablesInit vmCreate) [countFile]).1
    let progs := sourcePrograms false [countSource]
    ∃ cache,
      runProgram idleHost vm (List.replicate 18 idleEnv) =
        (run (sourceStep progs) (start idleHost vm)
          (List.replicate 18 idleEnv)).withCache (some cache) ∧
      trace (step vmDecodeInstruction) (outcome vmDecodeInstruction) (start idleHost vm)
          (List.replicate 18 idleEnv) =
        trace (sourceStep progs) (sourceOutcome progs) (start idleHost vm)
          (List.replicate 18 idleEnv) :=
  assembled_runs_as_source loadsSources_count (by decide +kernel)

end Loaded

end Vm32
