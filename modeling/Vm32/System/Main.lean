/-
# From the command line to the run

`main` of the standalone runtime: it parses the command line, applies and checks the options, loads
the programs of the directory, and enters the loop of `run_program`.  Put together with what is
known of each part this tells what the whole program does: which command lines start it, with which
configuration it runs, and that it executes the sources from which the files in the directory were
assembled.
-/
import Vm32.Asm.SourceRun
import Vm32.System.CommandLine
import Vm32.Vm.Directory
import Vm32.Vm.Integrity

namespace Vm32

open CText LabelledRun

/-- The directory that `main` takes when none is given. -/
def defaultProgramDir : Word := bytes "build/programs"

/-- What `main` finds of directories: whether a path is one, and what is in it at the initial load
and at the first call of `directory_changed`. -/
structure Directories where
  isDirectory : Word → Bool
  load : Word → Dir
  baseline : Word → Dir

/-- How far `main` gets. -/
inductive MainResult
  | exit (code : ℕ)
  /-- At the loop of `run_program`. -/
  | running (c : Config)

/-- `main`, up to the loop of `run_program`, on the words behind the name of the program. -/
def main (h : Host) (dirs : Directories) (args : List Word) : MainResult :=
  match vmParseCli args with
  | .help => .exit 0
  | .error _ => .exit 1
  | .options opts =>
    match vmApplyCliOptions vmCreate opts with
    | .error _ => .exit 1
    | .ok vm =>
      let dir := vm.programDir.getD defaultProgramDir
      let vm := { vm with programDir := some dir }
      match vmValidateConfig dirs.isDirectory vm with
      | some _ => .exit 1
      | none =>
        match reloadProgramsFromDirectory vm dir (dirs.load dir) with
        | (_, false) => .exit 1
        | (vm, true) => .running (start h (baselineVm vm dir (dirs.baseline dir)))

/-! ### Which command lines start the program -/

/-- The directory that options ask for. -/
def VmCliOptions.dir (opts : VmCliOptions) : Word := opts.programDir.getD defaultProgramDir

/-- The configuration that options ask for; the hash algorithm is set by `run_program`. -/
def VmCliOptions.config (opts : VmCliOptions) : VmConfig where
  clockRateHz := opts.clockRateHz.getD 100
  cycleTimeMs := opts.cycleTimeMs.getD 1000
  enableCycleCheck := opts.enableCycleCheck.getD true
  enableHashCheck := opts.enableHashCheck.getD false
  enableTickTiming := opts.enableTickTiming.getD false
  hashAlgo := .crc32

/-- With these options `main` gets to the loop. -/
structure Startable (dirs : Directories) (opts : VmCliOptions) : Prop where
  clockRate : opts.clockRateHz ≠ some 0
  cycleTime : opts.cycleTimeMs ≠ some 0
  dirNonempty : opts.dir ≠ []
  isDirectory : dirs.isDirectory opts.dir = true
  files : reloadFiles opts.dir (dirs.load opts.dir) ≠ []
  loadable : Loadable vmCreate.pcStart (reloadFiles opts.dir (dirs.load opts.dir))

/-- The machine before the initial load. -/
def VmCliOptions.vm (opts : VmCliOptions) : VmState :=
  { vmCreate with
    programDir := some opts.dir
    config := { opts.config with hashAlgo := opts.hashAlgo.getD .crc32 } }

/-- The machine at the loop. -/
def VmCliOptions.startConfig (h : Host) (dirs : Directories) (opts : VmCliOptions) : Config :=
  start h (baselineVm
    (reloadProgramsFromDirectory opts.vm opts.dir (dirs.load opts.dir)).1 opts.dir
    (dirs.baseline opts.dir))

section Starting

variable {h : Host} {dirs : Directories} {args : List Word} {opts : VmCliOptions}

lemma vmApplyCliOptions_vmCreate :
    vmApplyCliOptions vmCreate opts =
      if opts.clockRateHz = some 0 then .error .clockRateOption
      else if opts.cycleTimeMs = some 0 then .error .cycleTimeOption
      else .ok { opts.vm with programDir := opts.programDir } := by
  have hdir : opts.programDir.or vmCreate.programDir = opts.programDir := Option.or_none
  rw [vmApplyCliOptions, hdir]
  rfl

/-- A rate that is not zero stays that by default. -/
lemma getD_ne_zero {x : Option UInt32} {d : UInt32} (hx : x ≠ some 0) (hd : d ≠ 0) :
    x.getD d ≠ 0 := by
  cases x with
  | none => exact hd
  | some v =>
    intro hv
    exact hx (congrArg some hv)

lemma vmValidateConfig_vm (hclock : opts.clockRateHz ≠ some 0)
    (hcycle : opts.cycleTimeMs ≠ some 0) :
    vmValidateConfig dirs.isDirectory opts.vm = none ↔
      opts.dir ≠ [] ∧ dirs.isDirectory opts.dir = true := by
  have hrate : (opts.vm.config.clockRateHz == 0) = false :=
    beq_eq_false_iff_ne.2 (getD_ne_zero hclock (by decide))
  have htime : (opts.vm.config.cycleTimeMs == 0) = false :=
    beq_eq_false_iff_ne.2 (getD_ne_zero hcycle (by decide))
  show (if opts.dir = [] then some ConfigError.noProgramDir
    else if (!dirs.isDirectory opts.dir) = true then some (.notADirectory opts.dir)
    else if (opts.vm.config.clockRateHz == 0) = true then some .clockRate
    else if (opts.vm.config.cycleTimeMs == 0) = true then some .cycleTime
    else none) = none ↔ _
  rw [hrate, htime]
  split_ifs with hdir hisdir <;> simp_all

/-- Once the options are read, `main` gets to the loop or exits with 1. -/
lemma main_of_options (hopts : vmParseCli args = .options opts) :
    Startable dirs opts ∧ main h dirs args = .running (opts.startConfig h dirs) ∨
      ¬Startable dirs opts ∧ main h dirs args = .exit 1 := by
  by_cases hclock : opts.clockRateHz = some 0
  · refine Or.inr ⟨fun hs => hs.clockRate hclock, ?_⟩
    simp only [main, hopts, vmApplyCliOptions_vmCreate, if_pos hclock]
  by_cases hcycle : opts.cycleTimeMs = some 0
  · refine Or.inr ⟨fun hs => hs.cycleTime hcycle, ?_⟩
    simp only [main, hopts, vmApplyCliOptions_vmCreate, if_neg hclock, if_pos hcycle]
  have hmain : main h dirs args =
      match vmValidateConfig dirs.isDirectory opts.vm with
      | some _ => .exit 1
      | none =>
        match reloadProgramsFromDirectory opts.vm opts.dir (dirs.load opts.dir) with
        | (_, false) => .exit 1
        | (vm, true) => .running (start h (baselineVm vm opts.dir (dirs.baseline opts.dir))) := by
    simp only [main, hopts, vmApplyCliOptions_vmCreate, if_neg hclock, if_neg hcycle]
    rfl
  rw [hmain]
  cases hvalidate : vmValidateConfig dirs.isDirectory opts.vm with
  | some err =>
    refine Or.inr ⟨fun hs => ?_, rfl⟩
    rw [(vmValidateConfig_vm hclock hcycle).2 ⟨hs.dirNonempty, hs.isDirectory⟩] at hvalidate
    cases hvalidate
  | none =>
    obtain ⟨hdir, hisdir⟩ := (vmValidateConfig_vm hclock hcycle).1 hvalidate
    have hok := @reload_ok_iff opts.vm opts.dir (dirs.load opts.dir)
    cases hreload : reloadProgramsFromDirectory opts.vm opts.dir (dirs.load opts.dir) with
    | mk vm ok =>
      rw [hreload] at hok
      cases ok with
      | false =>
        refine Or.inr ⟨fun hs => ?_, rfl⟩
        cases hok.2 ⟨hs.files, hs.loadable⟩
      | true =>
        obtain ⟨hfiles, hloadable⟩ := hok.1 rfl
        refine Or.inl ⟨⟨hclock, hcycle, hdir, hisdir, hfiles, hloadable⟩, ?_⟩
        rw [VmCliOptions.startConfig, hreload]

lemma config_startConfig : (opts.startConfig h dirs).vm.config = opts.config := by
  obtain ⟨mem, modules, size, hash, heq⟩ :=
    reloadProgramsFromDirectory_withProgram opts.vm opts.dir (dirs.load opts.dir)
  rw [VmCliOptions.startConfig, heq]
  rfl

/-- No step of the loop changes the configuration. -/
lemma run_config (c : Config) (es : List Env) :
    (run (step vmDecodeInstruction) c es).vm.config = c.vm.config := by
  induction es generalizing c with
  | nil => rfl
  | cons e es ih =>
    rw [run_cons, ih]
    exact step_config c e

/-- `main` gets to the loop for the command lines of the grammar with valid values, at most one
operand, a clock rate and a cycle time that are not zero, and a directory from which programs can be
loaded, and exits otherwise.  In the whole run the configuration is what the last option of each
kind says, but for the hash algorithm: whatever is asked for, it is CRC-32. -/
theorem main_starts_iff (h : Host) (dirs : Directories) (args : List Word) :
    ((∃ c, main h dirs args = .running c) ↔
        ∃ items ops, CommandLine args items ops ∧ (∀ x ∈ items, ValidItem x) ∧ ops.length ≤ 1 ∧
          Startable dirs (optionsOf items ops)) ∧
      ∀ c items ops, main h dirs args = .running c → CommandLine args items ops →
        (∀ x ∈ items, ValidItem x) → ops.length ≤ 1 → ∀ es,
          (run (step vmDecodeInstruction) c es).vm.config = (optionsOf items ops).config := by
  constructor
  · constructor
    · rintro ⟨c, hrunning⟩
      cases hparse : vmParseCli args with
      | help => simp [main, hparse] at hrunning
      | error err => simp [main, hparse] at hrunning
      | options opts =>
        obtain ⟨items, ops, hline, hvalid, hlen, rfl⟩ := vmParseCli_eq_options_iff.1 hparse
        rcases @main_of_options h dirs args _ hparse with ⟨hs, -⟩ | ⟨-, hexit⟩
        · exact ⟨items, ops, hline, hvalid, hlen, hs⟩
        · rw [hexit] at hrunning
          cases hrunning
    · rintro ⟨items, ops, hline, hvalid, hlen, hs⟩
      have hparse := vmParseCli_eq_options_iff.2 ⟨items, ops, hline, hvalid, hlen, rfl⟩
      rcases @main_of_options h dirs args _ hparse with ⟨-, hrunning⟩ | ⟨hno, -⟩
      · exact ⟨_, hrunning⟩
      · exact absurd hs hno
  · intro c items ops hrunning hline hvalid hlen es
    have hparse := vmParseCli_eq_options_iff.2 ⟨items, ops, hline, hvalid, hlen, rfl⟩
    rcases @main_of_options h dirs args _ hparse with ⟨-, hmain⟩ | ⟨-, hexit⟩
    · rw [hmain] at hrunning
      cases hrunning
      rw [run_config]
      exact config_startConfig
    · rw [hexit] at hrunning
      cases hrunning

end Starting

/-! ### What the program executes -/

section Sources

variable {h : Host} {dirs : Directories} {opts : VmCliOptions} {rawHalt : Bool}
  {texts : List (List UInt8)}

/-- The decode cache is created after the programs have been loaded. -/
lemma holds_startConfig (hs : Startable dirs opts)
    (hvalid : ∀ text ∈ texts, ValidText rawHalt text)
    (hassembled : List.Forall₂ (Assembled rawHalt) texts
      (reloadFiles opts.dir (dirs.load opts.dir))) :
    Holds (sourcePrograms rawHalt texts) (opts.startConfig h dirs).vm := by
  have hok : (loadPrograms opts.vm (reloadFiles opts.dir (dirs.load opts.dir))).2 = true :=
    loadPrograms_ok_iff.2 ⟨hs.files, hs.loadable⟩
  have hcached : loadPrograms (vmTablesInit opts.vm) (reloadFiles opts.dir (dirs.load opts.dir)) =
      (vmTablesInit (loadPrograms opts.vm (reloadFiles opts.dir (dirs.load opts.dir))).1,
        (loadPrograms opts.vm (reloadFiles opts.dir (dirs.load opts.dir))).2) := by
    obtain ⟨mem, modules, size, hash, heq⟩ :=
      loadPrograms_withProgram opts.vm (reloadFiles opts.dir (dirs.load opts.dir))
    have hload := loadPrograms_withCacheAndCount opts.vm (some .empty) opts.vm.cycleCount
      (reloadFiles opts.dir (dirs.load opts.dir))
    rw [heq] at hload ⊢
    exact hload
  have hloads : LoadsSources rawHalt (vmTablesInit opts.vm) texts
      (reloadFiles opts.dir (dirs.load opts.dir)) := ⟨rfl, hvalid, hassembled, by rw [hcached, hok]⟩
  have hholds := hloads.holds
  rw [hcached] at hholds
  refine hholds.congr ?_ fun _ _ _ _ => ?_
  · rw [VmCliOptions.startConfig, reloadProgramsFromDirectory_eq, if_pos hok]
    rfl
  · rw [VmCliOptions.startConfig, reloadProgramsFromDirectory_eq, if_pos hok]
    rfl

/-- The source machine starts where `main` enters the loop. -/
lemma runsAs_startConfig (hs : Startable dirs opts)
    (hvalid : ∀ text ∈ texts, ValidText rawHalt text)
    (hassembled : List.Forall₂ (Assembled rawHalt) texts
      (reloadFiles opts.dir (dirs.load opts.dir))) :
    RunsAs (sourcePrograms rawHalt texts) (opts.startConfig h dirs) (opts.startConfig h dirs) := by
  refine ⟨⟨holds_startConfig hs hvalid hassembled, ?_⟩, .empty, ?_, ?_⟩
  · intro idx mod count startMs hctl
    cases hctl
  · intro addr d hd
    simp at hd
  · exact (Config.withCache_eq_self rfl).symm

/-- The program as a whole: `main` is started by a command line of the grammar on a directory whose
files were assembled from sources.  Then it gets to the loop, and as long as the source machine
stays at the beginning of lines and leaves the programs alone, the loop executes the sources. -/
theorem main_runs_sources (h : Host) {args : List Word} {items : List (CliOption × Word)}
    {ops : List Word} (hline : CommandLine args items ops) (hitems : ∀ x ∈ items, ValidItem x)
    (hlen : ops.length ≤ 1) (hs : Startable dirs (optionsOf items ops))
    (hvalid : ∀ text ∈ texts, ValidText rawHalt text)
    (hassembled : List.Forall₂ (Assembled rawHalt) texts
      (reloadFiles (optionsOf items ops).dir (dirs.load (optionsOf items ops).dir))) :
    ∃ c, main h dirs args = .running c ∧
      ∀ es, Along (sourceStep (sourcePrograms rawHalt texts))
          (Behaves (sourcePrograms rawHalt texts)) c es →
        ∃ cache,
          run (step vmDecodeInstruction) c es =
            (run (sourceStep (sourcePrograms rawHalt texts)) c es).withCache (some cache) ∧
          trace (step vmDecodeInstruction) (outcome vmDecodeInstruction) c es =
            trace (sourceStep (sourcePrograms rawHalt texts))
              (sourceOutcome (sourcePrograms rawHalt texts)) c es := by
  have hparse := vmParseCli_eq_options_iff.2 ⟨items, ops, hline, hitems, hlen, rfl⟩
  rcases @main_of_options h dirs args _ hparse with ⟨-, hmain⟩ | ⟨hno, -⟩
  · refine ⟨_, hmain, fun es hes => ?_⟩
    exact (runsAs_startConfig hs hvalid hassembled).run hes
  · exact absurd hs hno

/-- The command line `--cycle-time-ms=10 plc --clock-rate 50 --hash-algo=FNV1A`. -/
def plcArgs : List Word :=
  [45 :: 45 :: (bytes "cycle-time-ms" ++ 61 :: bytes "10"), bytes "plc",
    45 :: 45 :: bytes "clock-rate", bytes "50",
    45 :: 45 :: (bytes "hash-algo" ++ 61 :: bytes "FNV1A")]

/-- Its options. -/
def plcItems : List (CliOption × Word) :=
  [(.cycleTimeMs, bytes "10"), (.clockRateHz, bytes "50"), (.hashAlgo, bytes "FNV1A")]

lemma commandLine_plc : CommandLine plcArgs plcItems [bytes "plc"] := by
  have hclock : Names (bytes "clock-rate") .clockRateHz := by
    refine Or.inr ⟨by decide, fun o hpre => ?_⟩
    revert hpre
    cases o <;> decide
  have hplc : IsOperand (bytes "plc") := Or.inr (by decide)
  exact .attached (Or.inl rfl) rfl (.operand hplc
    (.separate hclock rfl (.attached (Or.inl rfl) rfl .nil)))

lemma validItem_plc : ∀ x ∈ plcItems, ValidItem x := by
  have hcycle : (parseU32 (bytes "10")).isSome := by decide +kernel
  have hclock : (parseU32 (bytes "50")).isSome := by decide +kernel
  have halgo : (parseHashAlgo (bytes "FNV1A")).isSome := by decide +kernel
  exact List.forall_mem_cons.2 ⟨hcycle, List.forall_mem_cons.2 ⟨hclock,
    List.forall_mem_singleton.2 halgo⟩⟩

lemma length_assemble_count : (assemble false countSource).1.length < 2 ^ 63 := by
  decide +kernel

/-- A directory with the assembled source that counts. -/
def plcDirs : Directories where
  isDirectory := fun _ => true
  load := fun _ => singleFile (assemble false countSource).1 length_assemble_count
  baseline := fun _ => singleFile (assemble false countSource).1 length_assemble_count

lemma startable_plc : Startable plcDirs (optionsOf plcItems [bytes "plc"]) := by
  obtain ⟨hfiles, hloadable⟩ := (@loadPrograms_ok_iff vmCreate
    (reloadFiles (bytes "plc") (plcDirs.load (bytes "plc")))).1 (by decide +kernel)
  exact ⟨by decide +kernel, by decide +kernel, by decide +kernel, rfl, hfiles, hloadable⟩

/-- The program is started, and CRC-32 is used although FNV-1a is asked for. -/
theorem main_starts_iff_plc :
    ∃ c, main idleHost plcDirs plcArgs = .running c ∧
      ∀ es, (run (step vmDecodeInstruction) c es).vm.config =
        { clockRateHz := 50, cycleTimeMs := 10, enableCycleCheck := true, enableHashCheck := false
          enableTickTiming := false, hashAlgo := .crc32 } := by
  obtain ⟨c, hc⟩ := (main_starts_iff idleHost plcDirs plcArgs).1.2
    ⟨plcItems, [bytes "plc"], commandLine_plc, validItem_plc, by decide, startable_plc⟩
  refine ⟨c, hc, fun es => ?_⟩
  rw [(main_starts_iff idleHost plcDirs plcArgs).2 c plcItems [bytes "plc"] hc commandLine_plc
    validItem_plc (by decide) es]
  simp only [VmCliOptions.config, VmConfig.mk.injEq, and_true]
  exact ⟨by decide +kernel, by decide +kernel, by decide +kernel, by decide +kernel,
    by decide +kernel⟩

lemma assembled_plc : List.Forall₂ (Assembled false) [countSource]
    (reloadFiles (bytes "plc") (plcDirs.load (bytes "plc"))) := by
  have hfiles : reloadFiles (bytes "plc") (plcDirs.load (bytes "plc")) =
      [⟨joinPath (bytes "plc") aBin,
        .readable (assemble false countSource).1 length_assemble_count⟩] := rfl
  rw [hfiles]
  exact .cons ⟨_, rfl⟩ .nil

/-- Two cycles of the source that counts, from the command line on. -/
theorem main_runs_sources_plc :
    let progs := sourcePrograms false [countSource]
    ∃ c, main idleHost plcDirs plcArgs = .running c ∧
      ∀ es, Along (sourceStep progs) (Behaves progs) c es →
        ∃ cache,
          run (step vmDecodeInstruction) c es =
            (run (sourceStep progs) c es).withCache (some cache) ∧
          trace (step vmDecodeInstruction) (outcome vmDecodeInstruction) c es =
            trace (sourceStep progs) (sourceOutcome progs) c es :=
  main_runs_sources idleHost commandLine_plc validItem_plc (by decide) startable_plc
    (List.forall_mem_singleton.2 validText_count) assembled_plc

end Sources

end Vm32
