/-
# Failed reloads

`load_programs` frees the old module table and clears the integrity values before it opens the
first file, and copies each file over the old image as it goes.  A reload that fails therefore
leaves the running program intact only when it fails before that, or when what it has written
until the failure is what was there anyway.
-/
import Vm32.Vm.HotReload
import Vm32.Vm.Lifecycle

namespace Vm32

variable {vm : VmState} {dir : List UInt8} {d : Dir}

/-- Nothing that belongs to the loaded program differs, and a reload is pending. -/
structure Intact (vm vm' : VmState) : Prop where
  modules : vm'.modules = vm.modules
  programSize : vm'.programSize = vm.programSize
  programHash : vm'.programHash = vm.programHash
  mem : ∀ a < vmMemBytes, vm'.mem a = vm.mem a
  pending : vm'.reloadPending = true

/-- The loop stops at a file on which `fseek` fails, and the files before it are what the
machine already has loaded, with a program hash of zero. -/
def SeekFailsBehindProgram (vm : VmState) (files : List NamedFile) : Prop :=
  ∃ pre f post, files = pre ++ f :: post ∧ Loadable vm.pcStart pre ∧
    f.file.opens = true ∧ f.file.seeks = false ∧
    vm.modules = moduleTable vm.pcStart pre ∧
    vm.programSize = UInt64.ofNat (imageOf pre).length ∧ vm.programHash = 0 ∧
    ∀ (i : ℕ) (hi : i < (imageOf pre).length), vm.pcStart.toNat + i < vmMemBytes →
      vm.mem (vm.pcStart.toNat + i) = (imageOf pre)[i]

/-- The loop on a list with a file on which `fseek` fails. -/
lemma loadLoop_seek_fails {pre : List NamedFile} {f : NamedFile} {p : UInt32}
    (hpre : Loadable p pre) (hopens : f.file.opens = true) (hseeks : f.file.seeks = false)
    (post : List NamedFile) (vm : VmState) :
    loadLoop (pre ++ f :: post) p vm = (withLoaded vm p pre, false) := by
  induction pre generalizing p vm with
  | nil => simp [loadLoop, hopens, hseeks]
  | cons g pre ih =>
    rw [List.cons_append, loadLoop_cons hpre.1, ih hpre.2, withLoaded_cons hpre.1]

/-- A failing reload leaves what `load_programs` left, with the flag set again. -/
lemma applyPendingReload_of_fail (hdir : vm.programDir = some dir)
    (hpending : vm.reloadPending = true)
    (hfail : (reloadProgramsFromDirectory (vm.setReloadPending false) dir d).2 = false) :
    applyPendingReload vm d =
      (loadPrograms (vm.setReloadPending false) (reloadFiles dir d)).1.setReloadPending true := by
  have heq := reloadProgramsFromDirectory_eq (vm.setReloadPending false) dir d
  have hload : (loadPrograms (vm.setReloadPending false) (reloadFiles dir d)).2 = false := by
    by_contra hok
    rw [heq, if_pos (by simpa using hok)] at hfail
    cases hfail
  rw [hload, if_neg Bool.false_ne_true] at heq
  rw [applyPendingReload_of_pending hdir hpending, heq]
  rfl

/-- The overlay of memory with bytes that are there already. -/
lemma overlay_eq_iff {mem : ℕ → UInt8} {dest : ℕ} {bs : List UInt8} :
    (∀ a < vmMemBytes, overlay mem dest bs a = mem a) ↔
      ∀ (i : ℕ) (hi : i < bs.length), dest + i < vmMemBytes → mem (dest + i) = bs[i] := by
  constructor
  · intro h i hi hlt
    rw [← h _ hlt, overlay_getElem mem dest bs hi]
  · intro h a ha
    by_cases hin : dest ≤ a ∧ a < dest + bs.length
    · obtain ⟨i, rfl⟩ := Nat.exists_eq_add_of_le hin.1
      rw [overlay_getElem mem dest bs (by omega), h i (by omega) ha]
    · exact overlay_of_not_mem mem hin

/-- A failing seek behind files `pre`, read as a statement about the state before. -/
lemma intact_withLoaded_iff {pre : List NamedFile} :
    Intact vm ((withLoaded (forgetProgram (vm.setReloadPending false)) vm.pcStart
        pre).setReloadPending true) ↔
      vm.modules = moduleTable vm.pcStart pre ∧
        vm.programSize = UInt64.ofNat (imageOf pre).length ∧ vm.programHash = 0 ∧
        ∀ (i : ℕ) (hi : i < (imageOf pre).length), vm.pcStart.toNat + i < vmMemBytes →
          vm.mem (vm.pcStart.toNat + i) = (imageOf pre)[i] := by
  rw [← overlay_eq_iff]
  constructor
  · rintro ⟨hmods, hsize, hhash, hmem, -⟩
    refine ⟨hmods.symm.trans ?_, hsize.symm.trans ?_, hhash.symm, hmem⟩
    · simp [withLoaded, forgetProgram, VmState.setReloadPending]
    · simp [withLoaded, forgetProgram, VmState.setReloadPending]
  · rintro ⟨hmods, hsize, hhash, hmem⟩
    refine ⟨?_, ?_, hhash.symm, hmem, rfl⟩
    · simp [withLoaded, forgetProgram, VmState.setReloadPending, hmods]
    · simp [withLoaded, forgetProgram, VmState.setReloadPending, hsize]

/-- A failed reload of a machine with a loaded program leaves the program intact exactly if
there was nothing to load, or if it failed in `fseek` behind files that are the program. -/
theorem failed_reload_intact_iff (hdir : vm.programDir = some dir)
    (hpending : vm.reloadPending = true) (hloaded : vm.modules ≠ [])
    (hfail : (reloadProgramsFromDirectory (vm.setReloadPending false) dir d).2 = false) :
    Intact vm (applyPendingReload vm d) ↔
      reloadFiles dir d = [] ∨ SeekFailsBehindProgram vm (reloadFiles dir d) := by
  rw [applyPendingReload_of_fail hdir hpending hfail]
  by_cases hne : reloadFiles dir d = []
  · -- without files the loader fails before it forgets the program
    refine iff_of_true ?_ (Or.inl hne)
    rw [hne]
    exact ⟨rfl, rfl, rfl, fun _ _ => rfl, rfl⟩
  have hbad : (loadLoop (reloadFiles dir d) vm.pcStart
      (forgetProgram (vm.setReloadPending false))).2 = false := by
    by_contra hok
    have hl := loadLoop_ok_iff.1 (by simpa using hok)
    obtain ⟨hash, hload⟩ := reload_of_loadable (vm.setReloadPending false) hne hl
    rw [hload] at hfail
    cases hfail
  have hload : (loadPrograms (vm.setReloadPending false) (reloadFiles dir d)).1 =
      (loadLoop (reloadFiles dir d) vm.pcStart (forgetProgram (vm.setReloadPending false))).1 := by
    rw [loadPrograms_eq hne, if_neg ((Bool.not_eq_true _).symm ▸ hbad)]
    rfl
  rw [hload, or_iff_right hne]
  constructor
  · intro hintact
    rcases loadLoop_fail hbad with hnil | ⟨pre, f, post, hsplit, hpre, hopens, hseeks, heq⟩
    · -- an emptied module table is not the old one
      exact absurd (hintact.modules.symm.trans hnil) hloaded
    · rw [heq] at hintact
      exact ⟨pre, f, post, hsplit, hpre, hopens, hseeks, intact_withLoaded_iff.1 hintact⟩
  · rintro ⟨pre, f, post, hsplit, hpre, hopens, hseeks, hstate⟩
    have heq := loadLoop_seek_fails hpre hopens hseeks post
      (forgetProgram (vm.setReloadPending false))
    rw [hsplit, heq]
    exact intact_withLoaded_iff.2 hstate

/-- A machine into which a directory `p` with the single file `a.bin`, an instruction `NOP`,
was loaded, and whose reload flag is set. -/
def nopMachine : VmState :=
  ((reloadProgramsFromDirectory { vmCreate with programDir := some [112] } [112]
    (singleFile [0, 0, 0, 0x86] (by decide))).1).setReloadPending true

/-- The directory has become unreadable, or the file in it. -/
theorem failed_reload_intact_iff_unreadable :
    let d : Dir := some [.regularFile aBin ⟨false, true, 4, [0, 0, 0, 0x86], by decide⟩]
    (Intact nopMachine (applyPendingReload nopMachine none) ↔
        reloadFiles [112] none = [] ∨ SeekFailsBehindProgram nopMachine (reloadFiles [112] none)) ∧
      (Intact nopMachine (applyPendingReload nopMachine d) ↔
        reloadFiles [112] d = [] ∨ SeekFailsBehindProgram nopMachine (reloadFiles [112] d)) :=
  ⟨failed_reload_intact_iff rfl rfl (by decide) rfl,
    failed_reload_intact_iff rfl rfl (by decide) rfl⟩

/-- The file has become one that cannot be opened: the reload fails, and the machine is left
without modules. -/
theorem failed_reload_drops_modules :
    let d : Dir := some [.regularFile aBin ⟨false, true, 4, [0, 0, 0, 0x86], by decide⟩]
    nopMachine.modules ≠ [] ∧
      (reloadProgramsFromDirectory (nopMachine.setReloadPending false) [112] d).2 = false ∧
      (applyPendingReload nopMachine d).modules = [] ∧
      ¬ Intact nopMachine (applyPendingReload nopMachine d) := by
  refine ⟨by decide, rfl, rfl, fun hintact => ?_⟩
  exact absurd hintact.modules (by decide)

end Vm32
