/-
# The check of the program image

With the hash check on, the end of each cycle hashes the program in memory and compares the hash
with the one that was taken when the program was loaded.  The image may have been changed in the
meantime by the program's own string instructions and `DEMUX`, or by something else than the
program; for the latter a step may here be preceded by a change of memory.
-/
import Vm32.Vm.Integrity
import Vm32.Vm.LoaderLayout

namespace Vm32

open LabelledRun

/-! ### Runs with intrusions -/

/-- What the environment shows to a step, and the memory that has taken the place of the one of
the machine, if any. -/
structure Intrusion where
  env : Env
  mem : Option (ℕ → UInt8)

/-- The machine as the step finds it. -/
def Config.intruded (c : Config) (t : Intrusion) : Config :=
  ⟨{ c.vm with mem := t.mem.getD c.vm.mem }, c.ctl⟩

/-- The end of a cycle reports `PROGRAM MEMORY HASH MISMATCH`. -/
def Config.reportsProgram (c : Config) : Bool :=
  match c.ctl with
  | .tail startMs => (cycleTail startMs c.vm).2.programMismatch
  | _ => false

/-- The image behind a step: that of the directory after a successful reload, and none after a
failed one, unless it failed before it forgot the program. -/
def imageBehind (c : Config) (e : Env) (image : Option (List UInt8)) : Option (List UInt8) :=
  match c.ctl, c.vm.programDir with
  | .reload, some dir =>
    if !c.vm.reloadPending || (reloadFiles dir e.dir).isEmpty then image
    else if (reloadProgramsFromDirectory (c.vm.setReloadPending false) dir e.dir).2 then
      some (imageOf (reloadFiles dir e.dir))
    else none
  | _, _ => image

/-- A run of the machine with the contents of the files that were loaded last. -/
structure Guarded where
  config : Config
  image : Option (List UInt8)

/-- One step of a guarded run. -/
def guardedStep (g : Guarded) (t : Intrusion) : Guarded where
  config := step vmDecodeInstruction (g.config.intruded t) t.env
  image := imageBehind (g.config.intruded t) t.env g.image

/-- A guarded run of `run_program` on a machine with the files loaded. -/
def guardedRun (h : Host) (vm : VmState) (files : List NamedFile) (ts : List Intrusion) : Guarded :=
  run guardedStep ⟨start h (loadPrograms vm files).1, some (imageOf files)⟩ ts

/-! ### What is remembered of the image -/

section Steps

variable {vm : VmState} {files : List NamedFile} {p : UInt32} {image : List UInt8} {g : Guarded}

/-- The hash and the size in the state are those of the image. -/
structure VmState.Remembers (vm : VmState) (image : List UInt8) : Prop where
  size : vm.programSize.toNat = image.length
  hash : vm.programHash = crc32 image

/-- The image of a loadable list lies in memory. -/
lemma Loadable.image_fits (hl : Loadable p files) :
    imageOf files = [] ∨ p.toNat + (imageOf files).length ≤ vmMemBytes := by
  induction files generalizing p with
  | nil => exact Or.inl rfl
  | cons f fs ih =>
    obtain ⟨hf, hfs⟩ := hl
    have hnext := hf.next_toNat
    rw [imageOf_cons, List.append_eq_nil_iff, List.length_append]
    rcases ih hfs with hnil | hle
    · rcases hf.2.2.2 with hempty | hfits
      · exact Or.inl ⟨hempty, hnil⟩
      · rw [hnil, List.length_nil]
        exact Or.inr hfits
    · rw [hnext] at hle
      exact Or.inr (by omega)

/-- The size and the hashes of a list that is loaded. -/
lemma withLoaded_hashes (hl : Loadable vm.pcStart files) :
    let vm' := withLoaded (forgetProgram vm) vm.pcStart files
    vm'.programSize.toNat = (imageOf files).length ∧
      calculateMemoryHash vm'.mem vm'.pcStart vm'.programSize = crc32 (imageOf files) ∧
      vmCalculateProgramHash vm' = crc32 (imageOf files) := by
  intro vm'
  have hbound : vmMemBytes < 2 ^ 64 := by decide
  have hfits := hl.image_fits
  have hsize : vm'.programSize.toNat = (imageOf files).length := by
    show (0 + UInt64.ofNat (imageOf files).length).toNat = _
    rw [UInt64.zero_add]
    refine UInt64.toNat_ofNat_of_lt' ?_
    show _ < 2 ^ 64
    rcases hfits with hnil | hle
    · rw [hnil]
      decide
    · omega
  have hhash : calculateMemoryHash vm'.mem vm'.pcStart vm'.programSize = crc32 (imageOf files) := by
    rw [calculateMemoryHash, hsize]
    exact congrArg crc32 (memBytes_overlay _ _ _)
  refine ⟨hsize, hhash, ?_⟩
  rcases hfits with hnil | hle
  · -- nothing is loaded, and nothing is hashed
    have hzero : vm'.programSize = 0 := by
      rw [hnil, List.length_nil] at hsize
      exact UInt64.toNat_inj.1 hsize
    rw [vmCalculateProgramHash, hzero, hnil]
    exact crc32Finalize_begin.symm
  · rw [vmCalculateProgramHash_of_fits, hhash]
    rw [hsize]
    exact hle

/-- A successful `load_programs` remembers its files. -/
lemma remembers_loadPrograms (hok : (loadPrograms vm files).2 = true) :
    (loadPrograms vm files).1.Remembers (imageOf files) := by
  obtain ⟨hne, hl⟩ := loadPrograms_ok_iff.1 hok
  obtain ⟨hsize, hhash, -⟩ := withLoaded_hashes hl
  rw [loadPrograms_eq hne, loadLoop_of_loadable hl, if_pos rfl]
  exact ⟨hsize, hhash⟩

/-- A reload remembers its files, or fails before it forgets the program, or the image is lost. -/
lemma remembers_reload {dir : List UInt8} {d : Dir} (hdir : vm.programDir = some dir)
    (hpending : vm.reloadPending = true)
    (hok : (reloadProgramsFromDirectory (vm.setReloadPending false) dir d).2 = true) :
    (applyPendingReload vm d).Remembers (imageOf (reloadFiles dir d)) := by
  have hload : (loadPrograms (vm.setReloadPending false) (reloadFiles dir d)).2 = true :=
    loadPrograms_ok_iff.2 (reload_ok_iff.1 hok)
  obtain ⟨hne, hl⟩ := loadPrograms_ok_iff.1 hload
  have hloaded := @withLoaded_hashes (vm.setReloadPending false) _ hl
  obtain ⟨hsize, -, hhash⟩ := hloaded
  rw [applyPendingReload_of_pending hdir hpending, reloadProgramsFromDirectory_eq, if_pos hload,
    loadPrograms_eq hne, loadLoop_of_loadable hl, if_pos rfl]
  exact ⟨hsize, hhash⟩

/-- A reload that finds no files changes nothing of the program. -/
lemma remembers_reload_of_nil {dir : List UInt8} {d : Dir} (hdir : vm.programDir = some dir)
    (hpending : vm.reloadPending = true) (hnil : reloadFiles dir d = [])
    (h : vm.Remembers image) : (applyPendingReload vm d).Remembers image := by
  rw [applyPendingReload_of_pending hdir hpending, reloadProgramsFromDirectory_eq, hnil]
  exact ⟨h.size, h.hash⟩

/-- What a step must leave alone for an image to stay remembered. -/
lemma VmState.Remembers.congr {vm' : VmState} (h : vm.Remembers image)
    (hsame : (vm'.programSize, vm'.programHash) = (vm.programSize, vm.programHash)) :
    vm'.Remembers image := by
  obtain ⟨hsize, hhash⟩ := Prod.mk.inj hsame
  exact ⟨by rw [hsize]; exact h.size, hhash.trans h.hash⟩

/-- Only a reload changes what is remembered. -/
lemma remembers_step_of_ne {c : Config} (hctl : c.ctl ≠ .reload) (e : Env)
    (h : c.vm.Remembers image) : (step vmDecodeInstruction c e).vm.Remembers image := by
  obtain ⟨vm, ctl⟩ := c
  have hsettled : ∀ vm' : VmState, vm'.frame.settled = vm.frame.settled →
      (vm'.programSize, vm'.programHash) = (vm.programSize, vm.programHash) := by
    intro vm' hframe
    exact Prod.ext (congrArg Frame.programSize hframe) (congrArg Frame.programHash hframe)
  cases ctl with
  | poll =>
    exact h.congr (pollDirectory_keeps (f := fun vm => (vm.programSize, vm.programHash))
      (fun _ _ _ => rfl) vm e.dir)
  | reload => exact absurd rfl hctl
  | top =>
    exact h.congr (cycleTop_keeps (f := fun vm => (vm.programSize, vm.programHash))
      (fun _ _ _ _ => rfl) e.vmStopRequested vm)
  | module idx startMs =>
    exact h.congr (hsettled _ (step_settled (c := ⟨vm, .module idx startMs⟩) trivial e))
  | instr idx mod count startMs =>
    exact h.congr (hsettled _ (step_settled (c := ⟨vm, .instr idx mod count startMs⟩) trivial e))
  | tail startMs =>
    exact h.congr (cycleTail_keeps (f := fun vm => (vm.programSize, vm.programHash))
      (fun _ _ _ => rfl) startMs vm)
  | finished => exact h

/-- A step with the image behind it. -/
lemma remembers_step {c : Config} {e : Env} {known : Option (List UInt8)}
    (hknown : ∀ image ∈ known, c.vm.Remembers image) (himage : image ∈ imageBehind c e known) :
    (step vmDecodeInstruction c e).vm.Remembers image := by
  obtain ⟨vm, ctl⟩ := c
  by_cases hreload : ctl = .reload
  · subst hreload
    show (applyPendingReload vm e.dir).Remembers image
    cases hdir : vm.programDir with
    | none =>
      simp only [imageBehind, hdir] at himage
      rw [applyPendingReload_of_idle (Or.inl hdir)]
      exact hknown image himage
    | some dir =>
      simp only [imageBehind, hdir] at himage
      split_ifs at himage with hskip hok
      · by_cases hpending : vm.reloadPending = true
        · have hnil : reloadFiles dir e.dir = [] := by simpa [hpending] using hskip
          exact remembers_reload_of_nil hdir hpending hnil (hknown image himage)
        · rw [applyPendingReload_of_idle (Or.inr (by simpa using hpending))]
          exact hknown image himage
      · obtain rfl := Option.some.inj himage
        have hpending : vm.reloadPending = true := by
          by_contra hnot
          simp [hnot] at hskip
        exact remembers_reload hdir hpending hok
      · cases himage
  · have himage' : image ∈ known := by
      cases ctl with
      | reload => exact absurd rfl hreload
      | _ => exact himage
    exact remembers_step_of_ne hreload e (hknown image himage')

end Steps

/-! ### Runs -/

section Runs

variable {vm : VmState} {files : List NamedFile} {h : Host} {ts : List Intrusion}

lemma guardedRun_remembers (hok : (loadPrograms vm files).2 = true) :
    ∀ image ∈ (guardedRun h vm files ts).image,
      (guardedRun h vm files ts).config.vm.Remembers image := by
  refine invariant (I := fun g : Guarded => ∀ image ∈ g.image, g.config.vm.Remembers image)
    ?_ ?_ ts
  · intro image himage
    obtain rfl := Option.some.inj himage
    exact (remembers_loadPrograms hok).congr rfl
  · intro g t hg image himage
    exact remembers_step (c := g.config.intruded t) (fun image hold => (hg image hold).congr rfl)
      himage

/-- What the end of a cycle compares. -/
lemma reportsProgram_iff {c : Config} {startMs : UInt64} {image : List UInt8}
    (hctl : c.ctl = .tail startMs) (hcheck : c.vm.config.enableHashCheck = true)
    (h : c.vm.Remembers image) :
    c.reportsProgram = true ↔
      crc32 (memBytes c.vm.mem c.vm.pcStart.toNat image.length) ≠ crc32 image := by
  have hreport : c.reportsProgram =
      (calculateMemoryHash c.vm.mem c.vm.pcStart c.vm.programSize != c.vm.programHash) := by
    simp only [Config.reportsProgram, hctl, cycleTail, finishCycleTime]
    split_ifs <;> simp [updateAllTimers, hcheck]
  rw [hreport, bne_iff_ne, calculateMemoryHash, h.size, h.hash]

lemma length_memBytes (mem : ℕ → UInt8) (start n : ℕ) : (memBytes mem start n).length = n := by
  simp [memBytes]

lemma guardedRun_config (c : Guarded) (ts : List Intrusion) :
    (run guardedStep c ts).config.vm.config = c.config.vm.config :=
  invariant (I := fun g : Guarded => g.config.vm.config = c.config.vm.config) rfl
    (fun g t hg => (step_config (g.config.intruded t) t.env).trans hg) ts

/-- The file with the program `ADD R1, R1, #1`. -/
def addFile : NamedFile := ⟨[97], .readable (uint32Bytes 0x00020301) (by decide)⟩

/-- A fresh machine with the hash check on. -/
def checking : VmState :=
  let vm := vmTablesInit vmCreate
  { vm with config := { vm.config with enableHashCheck := true } }

end Runs

end Vm32
