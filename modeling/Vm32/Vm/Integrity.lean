/-
# The integrity check

With the hash check on, `run_program` hashes the register file at the start and at the end of
each cycle and keeps the hash of the end for the next cycle.  According to the documentation the
start of a cycle is compared with the end of the cycle before it, so that a change between the
two cycles is noticed; the code compares the two ends.  To have such changes, a step may here be
preceded by a change of the register file that no instruction made.
-/
import Vm32.Vm.Bookkeeping
import Vm32.Vm.StateHash

namespace Vm32

open LabelledRun

/-! ### Runs with tampering -/

/-- What the environment shows to a step, and the register file that has taken the place of the
one of the machine, if any. -/
structure TamperedEnv where
  env : Env
  reg : Option (UInt8 → UInt32)

/-- The machine as the step finds it. -/
def Config.tampered (c : Config) (t : TamperedEnv) : Config :=
  ⟨{ c.vm with reg := t.reg.getD c.vm.reg }, c.ctl⟩

lemma Config.tampered_none {t : TamperedEnv} (ht : t.reg = none) (c : Config) :
    c.tampered t = c := by
  rw [tampered, ht]
  rfl

/-- The value of `calculate_registers_hash_ex` in the cycle loop. -/
def Config.registersHash (c : Config) : UInt32 :=
  calculateRegistersHash c.vm.reg c.vm.config.hashAlgo

/-- The end of a cycle reports `HASH MISMATCH`. -/
def Config.reportsMismatch (c : Config) : Bool :=
  match c.ctl with
  | .tail startMs => (cycleTail startMs c.vm).2.hashMismatch
  | _ => false

/-- A run of the machine, with the two hashes that the documentation compares: the one at the
end of the cycle before, and the one at the start of the cycle. -/
structure Observed where
  config : Config
  prevEnd : Option UInt32
  cycleStart : UInt32

/-- One step of an observed run. -/
def observedStep (o : Observed) (t : TamperedEnv) : Observed where
  config := step vmDecodeInstruction (o.config.tampered t) t.env
  prevEnd :=
    match o.config.ctl with
    | .tail _ => some (o.config.tampered t).registersHash
    | _ => o.prevEnd
  cycleStart :=
    match o.config.ctl with
    | .top => (o.config.tampered t).registersHash
    | _ => o.cycleStart

/-- An observed run of `run_program`. -/
def observedRun (h : Host) (vm : VmState) (ts : List TamperedEnv) : Observed :=
  run observedStep ⟨start h vm, none, 0⟩ ts

/-- Without tampering the observed run is the run. -/
theorem observedRun_config {ts : List TamperedEnv} (hts : ∀ t ∈ ts, t.reg = none) (h : Host)
    (vm : VmState) : (observedRun h vm ts).config = runProgram h vm (ts.map TamperedEnv.env) := by
  rw [observedRun, runProgram]
  generalize hc : start h vm = c
  generalize none = prevEnd, (0 : UInt32) = cycleStart
  clear hc
  induction ts generalizing c prevEnd cycleStart with
  | nil => rfl
  | cons t ts ih =>
    simp only [run_cons, List.map_cons, observedStep,
      Config.tampered_none (hts t List.mem_cons_self)]
    exact ih (fun t ht => hts t (List.mem_cons_of_mem _ ht)) _ _ _

/-! ### One step -/

section Steps

variable {c : Config} {o : Observed}

lemma offLoop_config : OffLoop VmState.config :=
  ⟨fun _ _ _ => rfl, fun _ _ _ _ _ _ => rfl, fun _ _ _ _ => rfl, fun _ _ _ _ _ _ => rfl,
    fun _ _ _ => rfl⟩

/-- No step changes the configuration. -/
lemma step_config (c : Config) (e : Env) :
    (step vmDecodeInstruction c e).vm.config = c.vm.config :=
  offLoop_config.step fun _ _ raw _ _ hop vm =>
    congrArg Frame.config (opEx_settled hop e.host vm raw)

lemma offLoop_reg : OffLoop VmState.reg :=
  ⟨fun _ _ _ => rfl, fun _ _ _ _ _ _ => rfl, fun _ _ _ _ => rfl, fun _ _ _ _ _ _ => rfl,
    fun _ _ _ => rfl⟩

/-- Only instructions change registers. -/
lemma step_reg (hc : ¬c.ctl.InCycle) (e : Env) :
    (step vmDecodeInstruction c e).vm.reg = c.vm.reg := by
  refine offLoop_reg.step fun pc instr raw op hout => ?_
  obtain ⟨vm, ctl⟩ := c
  cases ctl with
  | instr idx mod count startMs => exact absurd trivial hc
  | _ => cases hout

lemma step_registersHash (hc : ¬c.ctl.InCycle) (e : Env) :
    (step vmDecodeInstruction c e).registersHash = c.registersHash := by
  rw [Config.registersHash, step_reg hc, step_config]
  rfl

/-- The remembered hash is set at the end of a cycle, and at the start of the one that
`cycle_count` takes for the first. -/
lemma step_prevCycleHash (hc : ∀ startMs, c.ctl ≠ .tail startMs) (e : Env) :
    (step vmDecodeInstruction c e).vm.prevCycleHash = c.vm.prevCycleHash ∨
      c.ctl = .top ∧ (step vmDecodeInstruction c e).vm.cycleCount = 1 ∧
        (step vmDecodeInstruction c e).ctl = .module 0 c.vm.timeMs := by
  obtain ⟨vm, ctl⟩ := c
  cases ctl with
  | poll =>
    exact Or.inl (pollDirectory_keeps (f := VmState.prevCycleHash) (fun _ _ _ => rfl) vm e.dir)
  | reload =>
    exact Or.inl
      (applyPendingReload_keeps (f := VmState.prevCycleHash) (fun _ _ _ _ _ _ => rfl) vm e.dir)
  | top =>
    simp only [step, cycleTop]
    split_ifs with _ _ hfirst <;> simp_all
  | module idx startMs =>
    exact Or.inl (congrArg Frame.prevCycleHash
      (step_settled (c := ⟨vm, .module idx startMs⟩) trivial e))
  | instr idx mod count startMs =>
    exact Or.inl (congrArg Frame.prevCycleHash
      (step_settled (c := ⟨vm, .instr idx mod count startMs⟩) trivial e))
  | tail startMs => exact absurd rfl (hc startMs)
  | finished => exact Or.inl rfl

lemma step_tail_prevCycleHash {startMs : UInt64} (hc : c.ctl = .tail startMs) (e : Env) :
    (step vmDecodeInstruction c e).vm.prevCycleHash = c.registersHash := by
  simp only [step, hc, cycleTail, finishCycleTime]
  split_ifs <;> rfl

lemma cycleStart_eq_none {ctl : Ctl} (hcycle : ¬ctl.InCycle)
    (htail : ∀ startMs, ctl ≠ .tail startMs) : ctl.cycleStart = none := by
  cases ctl with
  | module _ _ => exact absurd trivial hcycle
  | instr _ _ _ _ => exact absurd trivial hcycle
  | tail startMs => exact absurd rfl (htail startMs)
  | _ => rfl

lemma cycleStart_ne_none {ctl : Ctl} (hcycle : ctl.InCycle) : ctl.cycleStart ≠ none := by
  cases ctl with
  | module _ _ => simp [Ctl.cycleStart]
  | instr _ _ _ _ => simp [Ctl.cycleStart]
  | _ => cases hcycle

/-- A cycle starts at its top. -/
lemma ctl_eq_top {e : Env} (hcycle : ¬c.ctl.InCycle)
    (hstart : (step vmDecodeInstruction c e).ctl.cycleStart ≠ none) : c.ctl = .top := by
  obtain ⟨vm, ctl⟩ := c
  cases ctl with
  | top => rfl
  | module _ _ => exact absurd trivial hcycle
  | instr _ _ _ _ => exact absurd trivial hcycle
  | _ => exact absurd rfl hstart

lemma observedStep_of_inCycle (hc : o.config.ctl.InCycle) (t : TamperedEnv) :
    (observedStep o t).prevEnd = o.prevEnd ∧ (observedStep o t).cycleStart = o.cycleStart := by
  obtain ⟨⟨vm, ctl⟩, prevEnd, cycleStart⟩ := o
  cases ctl with
  | module _ _ => exact ⟨rfl, rfl⟩
  | instr _ _ _ _ => exact ⟨rfl, rfl⟩
  | _ => cases hc

lemma observedStep_prevEnd_of_tail {startMs : UInt64} (hc : o.config.ctl = .tail startMs)
    (t : TamperedEnv) :
    (observedStep o t).prevEnd = some (o.config.tampered t).registersHash := by
  simp only [observedStep, hc]

lemma observedStep_prevEnd_of_ne_tail (hc : ∀ startMs, o.config.ctl ≠ .tail startMs)
    (t : TamperedEnv) : (observedStep o t).prevEnd = o.prevEnd := by
  simp only [observedStep]

/-- What the end of a cycle compares. -/
lemma reportsMismatch_iff {startMs : UInt64} (hc : c.ctl = .tail startMs) :
    c.reportsMismatch = true ↔
      c.vm.config.enableHashCheck = true ∧ 1 < c.vm.cycleCount ∧
        c.registersHash ≠ c.vm.prevCycleHash := by
  simp only [Config.reportsMismatch, hc, cycleTail, finishCycleTime]
  split_ifs <;>
    · simp only [updateAllTimers, Config.registersHash, Bool.and_eq_true, bne_iff_ne, and_assoc]
      exact and_congr_right' (and_congr_left' decide_eq_true_iff)

/-! ### Observed runs -/

/-- The remembered hash is that of the end of the cycle before, except in a cycle that
`cycle_count` takes for the first. -/
def Observed.Remembers (o : Observed) : Prop :=
  ∀ e ∈ o.prevEnd, o.config.vm.prevCycleHash = e ∨
    o.config.vm.cycleCount = 1 ∧ o.config.ctl.cycleStart ≠ none

lemma Observed.Remembers.next (ho : o.Remembers) (t : TamperedEnv) :
    (observedStep o t).Remembers := by
  intro e he
  by_cases htail : ∃ startMs, o.config.ctl = .tail startMs
  · obtain ⟨startMs, htail⟩ := htail
    rw [observedStep_prevEnd_of_tail htail, Option.mem_some_iff] at he
    exact Or.inl ((step_tail_prevCycleHash (c := o.config.tampered t) htail t.env).trans he)
  rw [not_exists] at htail
  rw [observedStep_prevEnd_of_ne_tail htail] at he
  by_cases hcycle : o.config.ctl.InCycle
  · -- inside of a cycle nothing changes
    have hsettled := step_settled (c := o.config.tampered t) hcycle t.env
    have hstart := step_cycleStart (c := o.config.tampered t) (e := t.env) hcycle
    rcases ho e he with hprev | ⟨hcount, hsome⟩
    · exact Or.inl ((congrArg Frame.prevCycleHash hsettled).trans hprev)
    · exact Or.inr ⟨(congrArg Frame.cycleCount hsettled).trans hcount, hstart.trans_ne hsome⟩
  · have hprev : o.config.vm.prevCycleHash = e := by
      rcases ho e he with hprev | ⟨-, hsome⟩
      · exact hprev
      · exact absurd (cycleStart_eq_none hcycle htail) hsome
    rcases step_prevCycleHash (c := o.config.tampered t) htail t.env with
      hkeep | ⟨-, hcount, hctl⟩
    · exact Or.inl (hkeep.trans hprev)
    · exact Or.inr ⟨hcount, by simp [observedStep, hctl, Ctl.cycleStart]⟩

/-- The registers since the end of the cycle before are those of that end. -/
structure Observed.Untouched (o : Observed) : Prop where
  between : o.config.ctl.cycleStart = none → ∀ e ∈ o.prevEnd, o.config.registersHash = e
  inside : o.config.ctl.cycleStart ≠ none → ∀ e ∈ o.prevEnd, o.cycleStart = e

lemma Observed.Untouched.next (ho : o.Untouched) {t : TamperedEnv} (ht : t.reg = none) :
    (observedStep o t).Untouched := by
  have hconfig := Config.tampered_none ht o.config
  have hnext : (observedStep o t).config = step vmDecodeInstruction o.config t.env := by
    rw [observedStep, hconfig]
  by_cases hcycle : o.config.ctl.InCycle
  · have hsome := cycleStart_ne_none hcycle
    have hstart := step_cycleStart (e := t.env) hcycle
    refine ⟨fun hnone => absurd (hstart.symm.trans (hnext ▸ hnone)) hsome, fun _ e he => ?_⟩
    obtain ⟨hprevEnd, hcycleStart⟩ := observedStep_of_inCycle hcycle t
    rw [hprevEnd] at he
    rw [hcycleStart]
    exact ho.inside hsome e he
  · have hend : ∀ e ∈ (observedStep o t).prevEnd, o.config.registersHash = e := by
      intro e he
      by_cases htail : ∃ startMs, o.config.ctl = .tail startMs
      · obtain ⟨startMs, htail⟩ := htail
        rw [observedStep_prevEnd_of_tail htail, Option.mem_some_iff, hconfig] at he
        exact he
      · rw [not_exists] at htail
        rw [observedStep_prevEnd_of_ne_tail htail] at he
        exact ho.between (cycleStart_eq_none hcycle htail) e he
    refine ⟨fun _ e he => ?_, fun hsome e he => ?_⟩
    · rw [hnext, step_registersHash hcycle]
      exact hend e he
    · have htop : o.config.ctl = .top := ctl_eq_top hcycle (hnext ▸ hsome)
      rw [← hend e he, observedStep, htop, hconfig]

lemma observedRun_vmConfig (h : Host) (vm : VmState) (ts : List TamperedEnv) :
    (observedRun h vm ts).config.vm.config = (start h vm).vm.config :=
  invariant (I := fun o : Observed => o.config.vm.config = (start h vm).vm.config) rfl
    (fun o t ho => (step_config (o.config.tampered t) t.env).trans ho) ts

/-- In every run, the check at the end of a cycle that is not the first one is right exactly if
the registers at that end agree with those at its start, or differ together with them, from
the registers at the end of the cycle before. -/
theorem hash_mismatch_right_iff {h : Host} {vm : VmState} {ts : List TamperedEnv} {t : TamperedEnv}
    {startMs : UInt64} {e : UInt32} (hcheck : vm.config.enableHashCheck = true)
    (htail : (observedRun h vm ts).config.ctl = .tail startMs)
    (he : e ∈ (observedRun h vm ts).prevEnd) :
    let o := observedRun h vm ts
    let c := o.config.tampered t
    ((c.reportsMismatch = true ↔ o.cycleStart ≠ e) ↔
        if o.cycleStart = e then c.registersHash = o.cycleStart ∨ c.vm.cycleCount ≤ 1
        else c.registersHash ≠ e ∧ 1 < c.vm.cycleCount) ∧
      ((∀ t ∈ ts, t.reg = none) → o.cycleStart = e) := by
  intro o c
  have hremembers : o.Remembers :=
    invariant (by simp [Observed.Remembers]) (fun o t (ho : o.Remembers) => ho.next t) ts
  have hon : c.vm.config.enableHashCheck = true :=
    (congrArg VmConfig.enableHashCheck (observedRun_vmConfig h vm ts)).trans hcheck
  constructor
  · rw [reportsMismatch_iff (c := c) htail]
    by_cases hcount : 1 < c.vm.cycleCount
    · -- past the first cycle the field holds the hash of the end before
      have hprev : c.vm.prevCycleHash = e := by
        rcases hremembers e he with hprev | ⟨hfirst, -⟩
        · exact hprev
        · exact absurd hcount (UInt32.not_lt.2 (UInt32.le_of_eq hfirst))
      rw [hprev]
      split_ifs with hstart
      · simp [hon, hcount, hstart, UInt32.not_le.2 hcount]
      · simp [hon, hcount, hstart]
    · -- the cycle is taken for the first one, and nothing is reported
      split_ifs with hstart
      · simp [hcount, hstart, UInt32.not_lt.1 hcount]
      · simp [hcount, hstart]
  · intro hts
    have halong : Along observedStep (fun _ t => t.reg = none) ⟨start h vm, none, 0⟩ ts :=
      along_iff.2 fun pre t post hsplit => hts t (by simp [hsplit])
    have huntouched : o.Untouched :=
      halong.invariant ⟨by simp, by simp⟩ fun o t ho ht => ho.next ht
    exact huntouched.inside (by simp [o, htail, Ctl.cycleStart]) e he

/-- A machine with a program of one `ADD R1, R1, #1`. -/
def oneAdd : VmState :=
  let vm := vmTablesInit vmCreate
  { vm with
    config := { vm.config with enableHashCheck := true }
    modules := [⟨[97], 0x3000, 4⟩]
    mem := overlay vm.mem 0x3000 (uint32Bytes 0x00020301) }

/-- The end of the second cycle of `oneAdd`, without tampering. -/
lemma oneAdd_second_cycle :
    let o := observedRun idleHost oneAdd (List.replicate 15 ⟨idleEnv, none⟩)
    o.config.ctl = .tail 1000 ∧ 1 < o.config.vm.cycleCount ∧
      o.prevEnd = some (calculateRegistersHash (Function.update (fun _ => 0) 1 1) .crc32) ∧
      o.cycleStart = calculateRegistersHash (Function.update (fun _ => 0) 1 1) .crc32 ∧
      o.config.vm.prevCycleHash = calculateRegistersHash (Function.update (fun _ => 0) 1 1) .crc32 ∧
      o.config.registersHash =
        calculateRegistersHash (Function.update (Function.update (fun _ => 0) 1 1) 1 2) .crc32 :=
  ⟨by decide +kernel, by decide +kernel, rfl, rfl, rfl, rfl⟩

/-- In the second cycle of `oneAdd` the check is not right. -/
theorem hash_mismatch_right_iff_add :
    let o := observedRun idleHost oneAdd (List.replicate 15 ⟨idleEnv, none⟩)
    let c := o.config.tampered ⟨idleEnv, none⟩
    let e := calculateRegistersHash (Function.update (fun _ => 0) 1 1) .crc32
    ((c.reportsMismatch = true ↔ o.cycleStart ≠ e) ↔
        if o.cycleStart = e then c.registersHash = o.cycleStart ∨ c.vm.cycleCount ≤ 1
        else c.registersHash ≠ e ∧ 1 < c.vm.cycleCount) ∧
      ((∀ t ∈ List.replicate 15 (⟨idleEnv, none⟩ : TamperedEnv), t.reg = none) →
        o.cycleStart = e) :=
  hash_mismatch_right_iff rfl oneAdd_second_cycle.1 oneAdd_second_cycle.2.2.1

/-- A program that counts its cycles: without tampering the second cycle starts with the hash with
which the first one ended, and the mismatch is reported. -/
theorem own_changes_reported :
    let ts := List.replicate 15 ⟨idleEnv, none⟩
    let o := observedRun idleHost oneAdd ts
    oneAdd.config.enableHashCheck = true ∧ (∀ t ∈ ts, t.reg = none) ∧
      o.config.ctl = .tail 1000 ∧ o.prevEnd = some o.cycleStart ∧
      (o.config.tampered ⟨idleEnv, none⟩).reportsMismatch = true := by
  obtain ⟨hctl, hcount, hprevEnd, hstart, hprev, hhash⟩ := oneAdd_second_cycle
  refine ⟨rfl, fun t ht => by rw [List.eq_of_mem_replicate ht], hctl, by rw [hstart, hprevEnd], ?_⟩
  have hdiffer : calculateRegistersHash (Function.update (Function.update (fun _ => 0) 1 1) 1 2)
      .crc32 ≠ calculateRegistersHash (Function.update (fun _ => 0) 1 1) .crc32 :=
    mt calculateRegistersHash_update.1 (by decide)
  rw [Config.tampered_none rfl, reportsMismatch_iff hctl]
  exact ⟨rfl, hcount, fun heq => hdiffer (hhash.symm.trans (heq.trans hprev))⟩

end Steps

end Vm32
