/-
# Switching programs

A successful reload replaces memory from `pc_start` on and the module table, but not the decode
cache.  Until the program modifies code, every executed word is a word of the new image if no
entry that the old program left in the cache is in the way.
-/
import Vm32.Vm.CacheCoherence

namespace Vm32

open LabelledRun

variable {vm : VmState} {dir : List UInt8} {d : Dir}

/-- A reload that succeeds. -/
lemma applyPendingReload_of_ok (hdir : vm.programDir = some dir)
    (hpending : vm.reloadPending = true)
    (hok : (reloadProgramsFromDirectory (vm.setReloadPending false) dir d).2 = true) :
    ∃ hash, applyPendingReload vm d =
      (withLoaded (forgetProgram (vm.setReloadPending false)) vm.pcStart
        (reloadFiles dir d)).setProgramHash hash := by
  obtain ⟨hne, hl⟩ := reload_ok_iff.1 hok
  obtain ⟨hash, hreload⟩ := reload_of_loadable (vm.setReloadPending false) hne hl
  refine ⟨hash, ?_⟩
  rw [applyPendingReload_of_pending hdir hpending, hreload]
  rfl

/-- The word at an address once the files of the directory are in memory. -/
def imageWord (vm : VmState) (dir : List UInt8) (d : Dir) (addr : UInt32) : UInt32 :=
  vmMr32 (vm.fread vm.pcStart (imageOf (reloadFiles dir d))) addr

/-- Without a cache a handler gets the word that selected it. -/
lemma raw_of_decodeAfresh {c : Config} {e : Env} {pc instr raw : UInt32}
    (hexec : outcome decodeAfresh c e = some (.executed pc instr raw)) : raw = instr := by
  obtain ⟨vm, ctl⟩ := c
  cases ctl with
  | instr idx mod count startMs =>
    simp only [outcome, Option.ite_none_right_eq_some, Option.some.injEq] at hexec
    have hrun := hexec.2
    rcases runInstruction_cases decodeAfresh e.host vm mod (moduleEnd mod) with
      ⟨-, heq⟩ | ⟨-, heq | ⟨vm', -, heq⟩ | ⟨dec, vm', hdec, heq⟩⟩
    · rw [heq] at hrun
      cases hrun
    · rw [heq] at hrun
      cases hrun
    · rw [heq] at hrun
      cases hrun
    · have hraw : dec.rawInstr = vmMr32 vm vm.pc := by
        simp only [decodeAfresh] at hdec
        split_ifs at hdec
        · cases (Prod.mk.inj hdec).1
        · cases (Prod.mk.inj hdec).1
          rfl
      rw [heq, dispatch_outcome, hraw] at hrun
      split_ifs at hrun
      obtain ⟨-, rfl, rfl⟩ := Outcome.executed.inj hrun
      rfl
  | _ => cases hexec

/-- What the call decodes is the new image: the program has not modified this code. -/
def RunsImage (vm : VmState) (dir : List UInt8) (d : Dir) (o : Outcome) : Prop :=
  ∀ p ∈ o.decoded, p.2 = imageWord vm dir d p.1

instance : DecidablePred (RunsImage vm dir d) := fun o =>
  inferInstanceAs (Decidable (∀ p ∈ o.decoded, p.2 = imageWord vm dir d p.1))

/-- After a successful reload, a run that does not modify code is the run of the same machine
with an empty cache, and it executes words of the new image, if what the old program left in
the cache for the executed addresses agrees with that image. -/
theorem reload_switches_program {e : Env} {es : List Env}
    (hcache : vm.decodedCache.isSome) (hdir : vm.programDir = some dir)
    (hpending : vm.reloadPending = true)
    (hok : (reloadProgramsFromDirectory (vm.setReloadPending false) dir e.dir).2 = true)
    (himage : ∀ o ∈ trace (step decodeAfresh) (outcome decodeAfresh)
      (step vmDecodeInstruction ⟨vm, .reload⟩ e) es, RunsImage vm dir e.dir o)
    (hleft : ∀ o ∈ trace (step decodeAfresh) (outcome decodeAfresh)
      (step vmDecodeInstruction ⟨vm, .reload⟩ e) es,
        ∀ q ∈ o.handled, ∀ d ∈ vm.cached q.1, d.rawInstr = imageWord vm dir e.dir q.1) :
    let c := step vmDecodeInstruction ⟨vm, .reload⟩ e
    c.vm.modules = moduleTable vm.pcStart (reloadFiles dir e.dir) ∧
      (∀ addr, vmMr32 c.vm addr = imageWord vm dir e.dir addr) ∧
      (∀ pre, pre <+: es →
        (run (step vmDecodeInstruction) c pre).ctl =
          (run (step vmDecodeInstruction) (c.withCache (some .empty)) pre).ctl ∧
        (run (step vmDecodeInstruction) c pre).vm.withCache none =
          (run (step vmDecodeInstruction) (c.withCache (some .empty)) pre).vm.withCache none) ∧
      ∀ pc instr raw,
        .executed pc instr raw ∈
            trace (step vmDecodeInstruction) (outcome vmDecodeInstruction) c es →
          raw = imageWord vm dir e.dir pc := by
  intro c
  obtain ⟨cache, hcache⟩ := Option.isSome_iff_exists.1 hcache
  obtain ⟨hash, hreload⟩ := applyPendingReload_of_ok hdir hpending hok
  have hc : c = ⟨(withLoaded (forgetProgram (vm.setReloadPending false)) vm.pcStart
      (reloadFiles dir e.dir)).setProgramHash hash, .top⟩ := by
    simp only [c, step, hreload]
  -- the reload leaves the cache as it was, entries of the old program and all
  have hkept : c.withCache (some cache) = c := Config.withCache_eq_self (by rw [hc]; exact hcache)
  -- the new program does not change under the run, so no word is decoded in two ways
  have hsame : (trace (step decodeAfresh) (outcome decodeAfresh) c es).Pairwise
      Outcome.SameWord := by
    refine List.pairwise_of_forall_mem_list fun o ho o' ho' p hp q hq hpq => ?_
    rw [himage o ho p hp, himage o' ho' q (decoded_of_handled hq), hpq]
  have hfresh : ∀ o ∈ trace (step decodeAfresh) (outcome decodeAfresh) c es, cache.Fresh o :=
    fun o ho q hq d hd =>
      (hleft o ho q hq d (by rw [VmState.cached, hcache]; exact hd)).trans
        (himage o ho q (decoded_of_handled hq)).symm
  refine ⟨?_, fun addr => ?_, fun pre hpre => ?_, fun pc instr raw hexec => ?_⟩
  · rw [hc]
    rfl
  · rw [hc]
    rfl
  · -- both runs are the run that decodes afresh, up to the cache
    obtain ⟨cache₁, hrun₁⟩ := prefix_agrees hsame hfresh hpre
    obtain ⟨cache₂, hrun₂⟩ := prefix_agrees hsame
      (fun o _ => DecodeCache.fresh_empty o) hpre
    rw [hkept] at hrun₁
    rw [hrun₁, hrun₂]
    exact ⟨rfl, rfl⟩
  · obtain ⟨-, -, htrace⟩ := run_agrees hsame hfresh
    rw [hkept] at htrace
    rw [htrace] at hexec
    obtain ⟨pre, e', post, -, hout⟩ := mem_trace.1 hexec
    rw [raw_of_decodeAfresh hout]
    exact himage _ hexec (pc, instr) rfl

/-- `main` up to the loop, with the directory `p` as it is. -/
def boot (d : Dir) : Config :=
  start idleHost
    { (reloadProgramsFromDirectory { vmTablesInit vmCreate with programDir := some [112] }
        [112] d).1 with
      programDirSignature := (directoryChanged [112] d 0).2 }

/-- The directory holds the program `ADD R1, R1, #1` for one cycle and is then replaced; the
poll has seen the change. -/
def beforeReload (d : Dir) : Config :=
  run (step vmDecodeInstruction) (boot addOneDir)
    (List.replicate 8 { idleEnv with dir := addOneDir } ++ [{ idleEnv with dir := d }])

/-- The new program begins with the instruction of the old one. -/
theorem reload_switches_program_extended :
    let d : Dir := singleFile [1, 3, 2, 0, 2, 3, 2, 0] (by decide)
    let e : Env := { idleEnv with dir := d }
    let vm := (beforeReload d).vm
    let c := step vmDecodeInstruction ⟨vm, .reload⟩ e
    c.vm.modules = moduleTable vm.pcStart (reloadFiles [112] d) ∧
      (∀ addr, vmMr32 c.vm addr = imageWord vm [112] d addr) ∧
      (∀ pre, pre <+: List.replicate 5 e →
        (run (step vmDecodeInstruction) c pre).ctl =
          (run (step vmDecodeInstruction) (c.withCache (some .empty)) pre).ctl ∧
        (run (step vmDecodeInstruction) c pre).vm.withCache none =
          (run (step vmDecodeInstruction) (c.withCache (some .empty)) pre).vm.withCache none) ∧
      ∀ pc instr raw,
        .executed pc instr raw ∈ trace (step vmDecodeInstruction) (outcome vmDecodeInstruction) c
            (List.replicate 5 e) →
          raw = imageWord vm [112] d pc := by
  exact reload_switches_program (by decide +kernel) (by decide +kernel) (by decide +kernel)
    (by decide +kernel) (by decide +kernel) (by decide +kernel)

/-- The new program is `ADD R1, R1, #2`; the first cycle after the reload adds one. -/
theorem reload_runs_old_word :
    let e : Env := { idleEnv with dir := addTwoDir }
    let c₀ := beforeReload addTwoDir
    let c := step vmDecodeInstruction c₀ e
    c₀.ctl = .reload ∧ c₀.vm.reloadPending = true ∧ c₀.vm.reg 1 = 1 ∧
      (reloadProgramsFromDirectory (c₀.vm.setReloadPending false) [112] addTwoDir).2 = true ∧
      (run (step vmDecodeInstruction) c (List.replicate 3 e)).vm.reg 1 = 2 ∧
      (run (step vmDecodeInstruction) (c.withCache (some .empty)) (List.replicate 3 e)).vm.reg 1
        = 3 ∧
      .executed 0x3000 0x20302 0x20301 ∈
        trace (step vmDecodeInstruction) (outcome vmDecodeInstruction) c (List.replicate 3 e) ∧
      imageWord c₀.vm [112] addTwoDir 0x3000 = 0x20302 := by
  decide +kernel

end Vm32
