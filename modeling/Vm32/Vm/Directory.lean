/-
# Updates of the program directory

`main` loads the directory, takes its signature as the baseline and enters the loop, which polls
the signature and reloads; the directory may be replaced between any two of these steps.  A
stored signature of zero stands both for "no baseline yet" and for a directory without programs,
and a poll that finds it reports no change.  No update is lost as long as such a poll happens only
while a reload is pending anyway or while there is nothing new.
-/
import Vm32.Vm.Bookkeeping
import Vm32.Vm.Lifecycle

namespace Vm32

open LabelledRun

/-- Where `main` is. -/
inductive Stage
  /-- At the initial `reload_programs_from_directory`. -/
  | load
  /-- At the initial `directory_changed`. -/
  | baseline
  /-- In `run_program`. -/
  | loop
  /-- Behind the return after a failed initial load. -/
  | exited
deriving DecidableEq

/-- The machine and the directory it watches.  The snapshot that was loaded last and the list of
all snapshots so far are recorded for the specification. -/
structure World where
  stage : Stage
  config : Config
  current : Dir
  loaded : Dir
  seen : List Dir

/-- A step of the environment or of the machine. -/
inductive Act
  /-- The directory is replaced. -/
  | replace (d : Dir)
  /-- The machine takes a step. -/
  | vm (h : Host) (vmStopRequested : Bool)

/-- The step of the machine is a reload that is going to succeed. -/
def Reloads (c : Config) (d : Dir) : Bool :=
  c.ctl == .reload && c.vm.reloadPending &&
    match c.vm.programDir with
    | none => false
    | some dir => (reloadProgramsFromDirectory (c.vm.setReloadPending false) dir d).2

/-- The initial `directory_changed` of `main`, and the lines between it and `run_program`. -/
def baselineVm (vm : VmState) (dir : List UInt8) (d : Dir) : VmState :=
  vmTablesInit (timersInit
    { vm with programDirSignature := (directoryChanged dir d vm.programDirSignature).2 })

/-- One step of `main` with the program directory `dir`. -/
def worldStep (dir : List UInt8) (w : World) : Act → World
  | .replace d => { w with current := d, seen := d :: w.seen }
  | .vm h vmStopRequested =>
    match w.stage with
    | .load =>
      match reloadProgramsFromDirectory w.config.vm dir w.current with
      | (vm, true) =>
        { w with stage := .baseline, config := ⟨vm, w.config.ctl⟩, loaded := w.current }
      | (vm, false) => { w with stage := .exited, config := ⟨vm, w.config.ctl⟩ }
    | .baseline =>
      { w with stage := .loop, config := start h (baselineVm w.config.vm dir w.current) }
    | .loop =>
      { w with
        config := step vmDecodeInstruction w.config ⟨h, w.current, vmStopRequested⟩
        loaded := if Reloads w.config w.current then w.current else w.loaded }
    | .exited => w

/-- `main` before the initial load. -/
def World.init (vm : VmState) (d : Dir) : World := ⟨.load, ⟨vm, .poll⟩, d, none, [d]⟩

/-- The loaded program is that of the current snapshot. -/
def World.UpToDate (w : World) (dir : List UInt8) : Prop :=
  w.loaded = w.current ∧
    w.config.vm.modules = moduleTable w.config.vm.pcStart (reloadFiles dir w.current)

/-! ### The assumptions -/

/-- Different snapshots with programs have different signatures, and none has the signature
zero. -/
structure DistinctSignatures (dir : List UInt8) (S : Set Dir) : Prop where
  ne_zero : ∀ d ∈ S, reloadFiles dir d ≠ [] → calcDirSignature dir d ≠ 0
  inj : ∀ d ∈ S, ∀ d' ∈ S, reloadFiles dir d ≠ [] → reloadFiles dir d' ≠ [] →
    calcDirSignature dir d = calcDirSignature dir d' → d = d'

/-- The directory is replaced by snapshots of `S` only, and by those with programs only when they
have not been seen before. -/
def Unseen (dir : List UInt8) (S : Set Dir) (w : World) : Act → Prop
  | .replace d => d ∈ S ∧ (reloadFiles dir d ≠ [] → d ∉ w.seen)
  | .vm _ _ => True

/-- The step calls `directory_changed`. -/
def CallsDirectoryChanged (w : World) : Act → Prop
  | .replace _ => False
  | .vm _ _ => w.stage = .baseline ∨ w.stage = .loop ∧ w.config.ctl = .poll

/-- A call of `directory_changed` that finds the stored signature zero is made while a reload is
pending or while the program of the current snapshot is loaded. -/
def ZeroSignatureSafe (w : World) (a : Act) : Prop :=
  CallsDirectoryChanged w a → w.config.vm.programDirSignature = 0 →
    w.config.vm.reloadPending = true ∨ w.loaded = w.current

/-- A directory without programs has the signature zero. -/
lemma calcDirSignature_of_empty {dir : List UInt8} {d : Dir} (h : reloadFiles dir d = []) :
    calcDirSignature dir d = 0 := by
  rw [reloadFiles, List.map_eq_nil_iff] at h
  rw [calcDirSignature]
  cases hfiles : collectBinFiles dir d with
  | none => rfl
  | some files =>
    rw [hfiles, Option.getD_some] at h
    rw [h]
    exact crc32Finalize_begin

/-- `directory_changed` stores the signature of the snapshot in any case. -/
lemma directoryChanged_snd (dir : List UInt8) (d : Dir) (prevSig : UInt32) :
    (directoryChanged dir d prevSig).2 = calcDirSignature dir d := by
  simp only [directoryChanged]
  split_ifs with hzero hne
  · rfl
  · rfl
  · simpa using Eq.symm (by simpa using hne)

lemma directoryChanged_fst (dir : List UInt8) (d : Dir) (prevSig : UInt32) :
    (directoryChanged dir d prevSig).1 = true ↔
      prevSig ≠ 0 ∧ calcDirSignature dir d ≠ prevSig := by
  simp only [directoryChanged]
  split_ifs with hzero hne <;> simp_all

/-! ### The invariant -/

variable {dir : List UInt8} {S : Set Dir}

/-- What holds in every reachable world: the stored signature is zero or that of a snapshot with
programs, and if it is that of the current snapshot, then this snapshot is loaded or a reload is
pending. -/
structure Tracked (dir : List UInt8) (S : Set Dir) (w : World) : Prop where
  programDir : w.config.vm.programDir = some dir
  seen_sub : ∀ d ∈ w.seen, d ∈ S
  current_mem : w.current ∈ w.seen
  baseline : w.stage = .load ∨ w.stage = .baseline → w.config.vm.programDirSignature = 0
  signature : w.config.vm.programDirSignature = 0 ∨
    ∃ d ∈ w.seen, reloadFiles dir d ≠ [] ∧
      w.config.vm.programDirSignature = calcDirSignature dir d
  noticed : w.config.vm.programDirSignature ≠ 0 →
    w.config.vm.programDirSignature = calcDirSignature dir w.current →
      w.config.vm.reloadPending = true ∨ w.loaded = w.current
  modules : w.stage = .baseline ∨ w.stage = .loop →
    w.config.vm.reloadPending = true ∨
      w.config.vm.modules = moduleTable w.config.vm.pcStart (reloadFiles dir w.loaded)

lemma tracked_init {vm : VmState} {d : Dir} (hdir : vm.programDir = some dir)
    (hzero : vm.programDirSignature = 0) (hd : d ∈ S) : Tracked dir S (World.init vm d) where
  programDir := hdir
  seen_sub := by simpa [World.init] using hd
  current_mem := by simp [World.init]
  baseline _ := hzero
  signature := Or.inl hzero
  noticed h := absurd hzero h
  modules h := by simp [World.init] at h

/-- Replacing the directory. -/
lemma Tracked.replace {w : World} (hw : Tracked dir S w) (hsig : DistinctSignatures dir S)
    {d : Dir} (hnew : Unseen dir S w (.replace d)) :
    Tracked dir S (worldStep dir w (.replace d)) where
  programDir := hw.programDir
  seen_sub := by simpa [worldStep] using ⟨hnew.1, hw.seen_sub⟩
  current_mem := by simp [worldStep]
  baseline := hw.baseline
  signature := hw.signature.imp_right fun ⟨d', hd', hrest⟩ =>
    ⟨d', List.mem_cons_of_mem _ hd', hrest⟩
  noticed hne heq := by
    -- the signature of a new snapshot is not stored
    obtain ⟨d', hd', hne', heq'⟩ := hw.signature.resolve_left hne
    have hprog : reloadFiles dir d ≠ [] := fun hnil =>
      hne (heq.trans (calcDirSignature_of_empty hnil))
    obtain rfl := hsig.inj d' (hw.seen_sub d' hd') d hnew.1 hne' hprog (heq'.symm.trans heq)
    exact absurd hd' (hnew.2 hprog)
  modules := hw.modules

/-- After a call of `directory_changed`. -/
lemma Tracked.signature_of_current {w : World} (hw : Tracked dir S w) :
    calcDirSignature dir w.current = 0 ∨
      ∃ d ∈ w.seen, reloadFiles dir d ≠ [] ∧
        calcDirSignature dir w.current = calcDirSignature dir d := by
  by_cases hnil : reloadFiles dir w.current = []
  · exact Or.inl (calcDirSignature_of_empty hnil)
  · exact Or.inr ⟨w.current, hw.current_mem, hnil, rfl⟩

/-- The initial load. -/
lemma Tracked.load {w : World} (hw : Tracked dir S w) (hstage : w.stage = .load) (h : Host)
    (b : Bool) : Tracked dir S (worldStep dir w (.vm h b)) := by
  obtain ⟨mem, modules, size, hash, heq⟩ :=
    reloadProgramsFromDirectory_withProgram w.config.vm dir w.current
  have hmods := modules_of_reload w.config.vm dir w.current
  have hzero := hw.baseline (Or.inl hstage)
  rcases hrun : reloadProgramsFromDirectory w.config.vm dir w.current with ⟨vm', ok⟩
  rw [hrun] at heq hmods
  obtain rfl : vm' = _ := heq
  cases ok with
  | false =>
    simp only [worldStep, hstage, hrun]
    exact ⟨hw.programDir, hw.seen_sub, hw.current_mem, fun _ => hzero, Or.inl hzero,
      fun hne => absurd hzero hne, by simp⟩
  | true =>
    simp only [worldStep, hstage, hrun]
    exact ⟨hw.programDir, hw.seen_sub, hw.current_mem, fun _ => hzero, Or.inl hzero,
      fun hne => absurd hzero hne, fun _ => Or.inr (hmods rfl)⟩

/-- The baseline. -/
lemma Tracked.takeBaseline {w : World} (hw : Tracked dir S w) (hstage : w.stage = .baseline)
    {h : Host} {b : Bool} (hsafe : ZeroSignatureSafe w (.vm h b)) :
    Tracked dir S (worldStep dir w (.vm h b)) := by
  have hstep : worldStep dir w (.vm h b) =
      { w with stage := .loop, config := start h (baselineVm w.config.vm dir w.current) } := by
    simp only [worldStep, hstage]
  have hsig : (start h (baselineVm w.config.vm dir w.current)).vm.programDirSignature =
      calcDirSignature dir w.current :=
    directoryChanged_snd dir w.current w.config.vm.programDirSignature
  rw [hstep]
  refine ⟨hw.programDir, hw.seen_sub, hw.current_mem, by simp, ?_, fun _ _ => ?_, fun _ => ?_⟩
  · rw [hsig]
    exact hw.signature_of_current
  · exact hsafe (Or.inl hstage) (hw.baseline (Or.inr hstage))
  · exact hw.modules (Or.inl hstage)

/-- A poll stores the current signature and makes a change pending. -/
lemma pollDirectory_spec {vm : VmState} (hdir : vm.programDir = some dir) (d : Dir) :
    pollDirectory vm d =
      { vm with
        programDirSignature := calcDirSignature dir d
        reloadPending := vm.reloadPending ||
          (vm.programDirSignature != 0 && calcDirSignature dir d != vm.programDirSignature) } := by
  have hsnd := directoryChanged_snd dir d vm.programDirSignature
  have hfst := directoryChanged_fst dir d vm.programDirSignature
  simp only [pollDirectory, hdir]
  rw [hsnd]
  congr 1
  rw [Bool.eq_iff_iff]
  simp only [Bool.or_eq_true, Bool.and_eq_true, bne_iff_ne, ← hfst]
  split_ifs with hchanged <;> simp [hchanged]

/-- What a poll in the loop finds. -/
lemma Tracked.poll {w : World} (hw : Tracked dir S w) (hstage : w.stage = .loop)
    (hctl : w.config.ctl = .poll) {h : Host} {b : Bool} (hsafe : ZeroSignatureSafe w (.vm h b)) :
    Tracked dir S (worldStep dir w (.vm h b)) ∧
      ((worldStep dir w (.vm h b)).config.vm.reloadPending = true ∨
        (worldStep dir w (.vm h b)).loaded = (worldStep dir w (.vm h b)).current) := by
  have hstep : worldStep dir w (.vm h b) =
      { w with config := ⟨pollDirectory w.config.vm w.current, .reload⟩ } := by
    simp [worldStep, hstage, step, hctl, Reloads]
  rw [hstep, pollDirectory_spec hw.programDir]
  have hafter : (w.config.vm.reloadPending || (w.config.vm.programDirSignature != 0 &&
      calcDirSignature dir w.current != w.config.vm.programDirSignature)) = true ∨
      w.loaded = w.current := by
    by_cases hzero : w.config.vm.programDirSignature = 0
    · exact (hsafe (Or.inr ⟨hstage, hctl⟩) hzero).imp_left fun hp => by simp [hp]
    by_cases hchanged : calcDirSignature dir w.current = w.config.vm.programDirSignature
    · exact (hw.noticed hzero hchanged.symm).imp_left fun hp => by simp [hp]
    · exact Or.inl (by simp [hzero, hchanged])
  refine ⟨⟨hw.programDir, hw.seen_sub, hw.current_mem, by simp [hstage], hw.signature_of_current,
    fun _ _ => hafter, fun _ => ?_⟩, hafter⟩
  exact (hw.modules (Or.inr hstage)).imp_left fun hp => by simp [hp]

/-- A reload step in the loop when nothing is pending. -/
lemma worldStep_reload_idle {w : World} (hstage : w.stage = .loop) (hctl : w.config.ctl = .reload)
    (hpending : w.config.vm.reloadPending = false) (h : Host) (b : Bool) :
    worldStep dir w (.vm h b) = { w with config := ⟨w.config.vm, .top⟩ } := by
  have hkeep := applyPendingReload_of_idle (Or.inr hpending) w.current
  simp [worldStep, hstage, step, hctl, Reloads, hpending, hkeep]

/-- A reload step in the loop when a reload is pending: it loads the current snapshot, or the
reload stays pending. -/
lemma worldStep_reload_pending {w : World} (hw : Tracked dir S w) (hstage : w.stage = .loop)
    (hctl : w.config.ctl = .reload) (hpending : w.config.vm.reloadPending = true) (h : Host)
    (b : Bool) :
    ∃ mem modules size hash ok,
      (ok = true → modules = moduleTable w.config.vm.pcStart (reloadFiles dir w.current)) ∧
      worldStep dir w (.vm h b) =
        { w with
          config := ⟨(w.config.vm.withProgram mem modules size hash).setReloadPending !ok, .top⟩
          loaded := if ok then w.current else w.loaded } := by
  have hmods := modules_of_reload (w.config.vm.setReloadPending false) dir w.current
  rcases applyPendingReload_cases hw.programDir w.current with
    ⟨hno, -⟩ | ⟨-, mem, modules, size, hash, heq, happly⟩
  · rw [hpending] at hno
    cases hno
  refine ⟨mem, modules, size, hash,
    (reloadProgramsFromDirectory (w.config.vm.setReloadPending false) dir w.current).2,
    fun hok => ?_, ?_⟩
  · have hloaded := hmods hok
    rw [heq] at hloaded
    exact hloaded
  · simp [worldStep, hstage, step, hctl, Reloads, hpending, hw.programDir, happly]

/-- What a reload in the loop keeps. -/
lemma Tracked.reload {w : World} (hw : Tracked dir S w) (hstage : w.stage = .loop)
    (hctl : w.config.ctl = .reload) (h : Host) (b : Bool) :
    Tracked dir S (worldStep dir w (.vm h b)) := by
  cases hpending : w.config.vm.reloadPending with
  | false =>
    rw [worldStep_reload_idle hstage hctl hpending]
    exact ⟨hw.programDir, hw.seen_sub, hw.current_mem, hw.baseline, hw.signature, hw.noticed,
      hw.modules⟩
  | true =>
    obtain ⟨mem, modules, size, hash, ok, hmods, hstep⟩ :=
      worldStep_reload_pending hw hstage hctl hpending h b
    rw [hstep]
    refine ⟨hw.programDir, hw.seen_sub, hw.current_mem, by simp [hstage], hw.signature,
      fun _ _ => ?_, fun _ => ?_⟩
    · cases ok
      · exact Or.inl rfl
      · exact Or.inr rfl
    · cases ok
      · exact Or.inl rfl
      · exact Or.inr (hmods rfl)

/-- The other steps of the loop. -/
lemma Tracked.other {w : World} (hw : Tracked dir S w) (hstage : w.stage = .loop)
    (hpoll : w.config.ctl ≠ .poll) (hreload : w.config.ctl ≠ .reload) (h : Host) (b : Bool) :
    Tracked dir S (worldStep dir w (.vm h b)) := by
  have hstep : worldStep dir w (.vm h b) =
      { w with config := step vmDecodeInstruction w.config ⟨h, w.current, b⟩ } := by
    have hno : Reloads w.config w.current = false := by simp [Reloads, hreload]
    simp [worldStep, hstage, hno]
  have hkeep := step_bookkeeping hpoll hreload ⟨h, w.current, b⟩
  simp only [VmState.bookkeeping, Bookkeeping.mk.injEq] at hkeep
  obtain ⟨hstart, hdir, hsig, hpending, hmods⟩ := hkeep
  rw [hstep]
  refine ⟨hdir.trans hw.programDir, hw.seen_sub, hw.current_mem, by simp [hstage], ?_, ?_, ?_⟩
  · simpa only [hsig] using hw.signature
  · simpa only [hsig, hpending] using hw.noticed
  · simpa only [hpending, hmods, hstart] using hw.modules

/-- Every step keeps the invariant. -/
theorem Tracked.step {w : World} (hw : Tracked dir S w) (hsig : DistinctSignatures dir S)
    {a : Act} (hnew : Unseen dir S w a) (hsafe : ZeroSignatureSafe w a) :
    Tracked dir S (worldStep dir w a) := by
  cases a with
  | replace d => exact hw.replace hsig hnew
  | vm h b =>
    cases hstage : w.stage with
    | load => exact hw.load hstage h b
    | baseline => exact hw.takeBaseline hstage hsafe
    | loop =>
      by_cases hpoll : w.config.ctl = .poll
      · exact (hw.poll hstage hpoll hsafe).1
      by_cases hreload : w.config.ctl = .reload
      · exact hw.reload hstage hreload h b
      · exact hw.other hstage hpoll hreload h b
    | exited => simpa only [worldStep, hstage] using hw

/-! ### The main result -/

/-- In every run whose calls of `directory_changed` find the stored signature zero only while a
reload is pending or the current snapshot is loaded, no update is lost: once the directory stayed
unchanged during a poll and the reload step behind it, its program is loaded or a reload is
pending.  A poll that finds zero otherwise loses the update. -/
theorem update_noticed_iff {vm : VmState} {d₀ : Dir} {acts : List Act}
    (hsig : DistinctSignatures dir S) (hdir : vm.programDir = some dir)
    (hzero : vm.programDirSignature = 0) (hd₀ : d₀ ∈ S)
    (hnew : Along (worldStep dir) (Unseen dir S) (World.init vm d₀) acts)
    (hsafe : Along (worldStep dir) ZeroSignatureSafe (World.init vm d₀) acts)
    (hstage : (run (worldStep dir) (World.init vm d₀) acts).stage = .loop)
    (hpoll : (run (worldStep dir) (World.init vm d₀) acts).config.ctl = .poll)
    (h h' : Host) (b b' : Bool) :
    let w := run (worldStep dir) (World.init vm d₀) acts
    let w' := run (worldStep dir) w [.vm h b, .vm h' b']
    w'.UpToDate dir ∨ w'.config.vm.reloadPending = true ↔ ZeroSignatureSafe w (.vm h b) := by
  intro w w'
  have hw : Tracked dir S w := (hnew.and hsafe).invariant (tracked_init hdir hzero hd₀)
    fun w a hw ⟨hnew, hsafe⟩ => hw.step hsig hnew hsafe
  obtain ⟨w₁, hw₁⟩ : ∃ w₁, w₁ = worldStep dir w (.vm h b) := ⟨_, rfl⟩
  have hpolled : w₁ = { w with config := ⟨pollDirectory w.config.vm w.current, .reload⟩ } := by
    rw [hw₁]
    simp [worldStep, hstage, step, hpoll, Reloads, w]
  have hstage₁ : w₁.stage = .loop := by rw [hpolled]; exact hstage
  have hctl₁ : w₁.config.ctl = .reload := by rw [hpolled]
  have hw' : w' = worldStep dir w₁ (.vm h' b') := by rw [hw₁]; rfl
  rw [hw']
  -- a poll misses a new directory only if the stored signature is zero
  constructor
  · intro hdone _ hzero
    by_contra hcon
    push Not at hcon
    have hidle : w₁.config.vm.reloadPending = false := by
      rw [hpolled, pollDirectory_spec hw.programDir]
      simp [hcon.1, hzero]
    rw [worldStep_reload_idle hstage₁ hctl₁ hidle, hpolled] at hdone
    rcases hdone with hup | hp
    · exact hcon.2 hup.1
    · rw [hpolled] at hidle
      exact absurd (hp.symm.trans hidle) (by decide)
  · intro hsafe'
    obtain ⟨htracked, hafter⟩ := hw.poll hstage hpoll hsafe'
    rw [← hw₁] at htracked hafter
    cases hpending : w₁.config.vm.reloadPending with
    | false =>
      rw [worldStep_reload_idle hstage₁ hctl₁ hpending]
      have hloaded := hafter.resolve_left (by simp [hpending])
      have hmods := (htracked.modules (Or.inr hstage₁)).resolve_left (by simp [hpending])
      exact Or.inl ⟨hloaded, hloaded ▸ hmods⟩
    | true =>
      -- a failed reload stays pending, a successful one has loaded the directory
      obtain ⟨mem, modules, size, hash, ok, hmods, hstep⟩ :=
        worldStep_reload_pending htracked hstage₁ hctl₁ hpending h' b'
      rw [hstep]
      cases ok with
      | false => exact Or.inr rfl
      | true => exact Or.inl ⟨rfl, hmods rfl⟩

/-! ### Two runs -/

/-- A machine that watches the directory `p`. -/
def watching : VmState := { vmCreate with programDir := some [112] }

lemma distinctSignatures_add : DistinctSignatures [112] {addOneDir, addTwoDir} := by
  have hne : calcDirSignature [112] addOneDir ≠ calcDirSignature [112] addTwoDir := by
    decide +kernel
  constructor
  · rintro d (rfl | rfl) -
    · decide +kernel
    · decide +kernel
  · rintro d (rfl | rfl) d' (rfl | rfl) - - heq
    · rfl
    · exact absurd heq hne
    · exact absurd heq.symm hne
    · rfl

lemma addTwoDir_ne : addTwoDir ≠ addOneDir := by decide

/-- The directory is replaced once the machine is in the loop. -/
theorem update_noticed_iff_in_loop :
    let acts : List Act := [.vm idleHost false, .vm idleHost false, .replace addTwoDir]
    let w := run (worldStep [112]) (World.init watching addOneDir) acts
    let w' := run (worldStep [112]) w [.vm idleHost false, .vm idleHost false]
    w'.UpToDate [112] ∨ w'.config.vm.reloadPending = true ↔
      ZeroSignatureSafe w (.vm idleHost false) := by
  refine update_noticed_iff distinctSignatures_add rfl rfl (Or.inl rfl) ?_ ?_ ?_ ?_ _ _ _ _
  · refine ⟨trivial, trivial, ⟨Or.inr rfl, fun _ hmem => ?_⟩, trivial⟩
    exact addTwoDir_ne (List.mem_singleton.1 hmem)
  · refine ⟨fun hcall => ?_, fun _ _ => Or.inr ?_, fun hcall => hcall.elim, trivial⟩
    · rcases hcall with hcall | hcall
      · cases hcall
      · cases hcall.1
    · decide +kernel
  · decide +kernel
  · decide +kernel

/-- The directory is replaced between the initial load and the baseline, and the replacement is
never loaded. -/
theorem update_lost_before_baseline :
    let acts : List Act := [.vm idleHost false, .replace addTwoDir, .vm idleHost false]
    let w := run (worldStep [112]) (World.init watching addOneDir) acts
    let w' := run (worldStep [112]) w [.vm idleHost false, .vm idleHost false]
    DistinctSignatures [112] {addOneDir, addTwoDir} ∧
      Along (worldStep [112]) (Unseen [112] {addOneDir, addTwoDir})
        (World.init watching addOneDir) acts ∧
      w.stage = .loop ∧ w.config.ctl = .poll ∧
      ¬(w'.UpToDate [112] ∨ w'.config.vm.reloadPending = true) := by
  intro acts w w'
  refine ⟨distinctSignatures_add, ?_, ?_, ?_, ?_⟩
  · refine ⟨trivial, ⟨Or.inr rfl, fun _ hmem => ?_⟩, trivial, trivial⟩
    exact addTwoDir_ne (List.mem_singleton.1 hmem)
  · decide +kernel
  · decide +kernel
  · rintro (hup | hpending)
    · exact absurd hup.1 (by decide +kernel)
    · exact absurd hpending (by decide +kernel)

end Vm32
