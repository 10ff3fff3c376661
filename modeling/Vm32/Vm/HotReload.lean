/-
# Hot reload

`hot_reload.c`: collecting the `.bin` files of the program directory, the signature by which a
change of the directory is noticed, and the reload itself.  A directory is a snapshot of its
entries, in the order in which `readdir` returns them, or nothing when `opendir` fails; every
function here reads one snapshot.
-/
import Mathlib.Data.List.Sort
import Vm32.Vm.Loader

namespace Vm32

/-- An entry of a directory: its name, what `stat` says of it, and the file. -/
structure DirEntry where
  dName : List UInt8
  regular : Bool
  stSize : Int64
  stMtime : Int64
  file : File
deriving DecidableEq

/-- The entry of a regular file. -/
def DirEntry.regularFile (name : List UInt8) (file : File) : DirEntry :=
  ⟨name, true, file.fsize, 0, file⟩

/-- A snapshot of a directory. -/
abbrev Dir := Option (List DirEntry)

/-- The name `a.bin`. -/
def aBin : List UInt8 := [97, 46, 98, 105, 110]

/-- The snapshot with the single file `a.bin`. -/
def singleFile (data : List UInt8) (h : data.length < 2 ^ 63) : Dir :=
  some [.regularFile aBin (.readable data h)]

/-- A directory with the program `ADD R1, R1, #1`. -/
def addOneDir : Dir := singleFile [1, 3, 2, 0] (by decide)

/-- A directory with the program `ADD R1, R1, #2`. -/
def addTwoDir : Dir := singleFile [2, 3, 2, 0] (by decide)

/-- A collected file: its path and its entry. -/
structure BinFile where
  path : List UInt8
  entry : DirEntry

/-- The file under its path, as it is passed to `load_programs`. -/
def BinFile.named (f : BinFile) : NamedFile := ⟨f.path, f.entry.file⟩

/-! ### Collecting files -/

/-- `strrchr`: the string from the last occurrence of a byte on. -/
def strrchr (c : UInt8) : List UInt8 → Option (List UInt8)
  | [] => none
  | b :: bs =>
    match strrchr c bs with
    | some s => some s
    | none => if b == c then some (b :: bs) else none

/-- `has_bin_extension`: the last dot starts `.bin`. -/
def hasBinExtension (name : List UInt8) : Bool := strrchr 46 name == some [46, 98, 105, 110]

/-- The names `.` and `..`. -/
def isDotName (name : List UInt8) : Bool := name == [46] || name == [46, 46]

/-- `join_path`. -/
def joinPath (dir name : List UInt8) : List UInt8 := dir ++ 47 :: name

/-- `strcmp a b <= 0`. -/
def strcmpLe : List UInt8 → List UInt8 → Bool
  | [], _ => true
  | _ :: _, [] => false
  | a :: as, b :: bs => a < b || (a == b && strcmpLe as bs)

/-- The body of the `readdir` loop. -/
def collectEntry (dir : List UInt8) (ent : DirEntry) : Option BinFile :=
  if !hasBinExtension ent.dName then none
  else if isDotName ent.dName then none
  else
    let full := joinPath dir ent.dName
    if !ent.regular then none else some ⟨full, ent⟩

/-- `collect_bin_files`; `none` is a return of -1. -/
def collectBinFiles (dir : List UInt8) (d : Dir) : Option (List BinFile) :=
  d.map fun entries =>
    (entries.filterMap (collectEntry dir)).insertionSort fun f g =>
      strcmpLe f.path g.path = true

/-! ### The signature -/

/-- The eight bytes of an `off_t` or a `time_t` in memory. -/
def int64Bytes (x : Int64) : List UInt8 :=
  (List.range 8).map fun i => (x.toUInt64 >>> UInt64.ofNat (8 * i)).toUInt8

/-- The contribution of one file to the signature. -/
def signFile (crc : UInt32) (f : BinFile) : UInt32 :=
  let crc := crc32Update crc f.path
  let crc := crc32Update crc (int64Bytes f.entry.stSize)
  let crc := crc32Update crc (int64Bytes f.entry.stMtime)
  if f.entry.file.opens then crc32Update crc f.entry.file.data else crc

/-- `calc_dir_signature`. -/
def calcDirSignature (dir : List UInt8) (d : Dir) : UInt32 :=
  match collectBinFiles dir d with
  | none => 0
  | some files => crc32Finalize (files.foldl signFile crc32Begin)

/-- `directory_changed`: whether it returns 1, and the new value of `*prev_sig`.  A stored
signature of zero counts as not initialised. -/
def directoryChanged (dir : List UInt8) (d : Dir) (prevSig : UInt32) : Bool × UInt32 :=
  let newSig := calcDirSignature dir d
  if prevSig == 0 then (false, newSig)
  else if newSig != prevSig then (true, newSig)
  else (false, prevSig)

/-! ### Reloading -/

/-- `reload_programs_from_directory`; the flag is `true` for a return of 0. -/
def reloadProgramsFromDirectory (vm : VmState) (dir : List UInt8) (d : Dir) : VmState × Bool :=
  match collectBinFiles dir d with
  | none => (vm, false)
  | some files =>
    if files.isEmpty then (vm, false)
    else
      match loadPrograms vm (files.map BinFile.named) with
      | (vm, false) => (vm, false)
      | (vm, true) => (vm.setProgramHash (vmCalculateProgramHash vm), true)

/-- The atomic store to `vm->reload_pending`. -/
def VmState.setReloadPending (vm : VmState) (pending : Bool) : VmState :=
  { vm with reloadPending := pending }

/-- `apply_pending_reload`. -/
def applyPendingReload (vm : VmState) (d : Dir) : VmState :=
  match vm.programDir with
  | none => vm
  | some dir =>
    if !vm.reloadPending then vm
    else
      match reloadProgramsFromDirectory (vm.setReloadPending false) dir d with
      | (vm, false) => vm.setReloadPending true
      | (vm, true) => vm

/-- The poll at the head of the cycle loop. -/
def pollDirectory (vm : VmState) (d : Dir) : VmState :=
  match vm.programDir with
  | none => vm
  | some dir =>
    let (changed, sig) := directoryChanged dir d vm.programDirSignature
    { vm with
      programDirSignature := sig
      reloadPending := if changed then true else vm.reloadPending }

/-! ### What a reload is -/

/-- The files that a reload from the snapshot would load; none when it cannot be read. -/
def reloadFiles (dir : List UInt8) (d : Dir) : List NamedFile :=
  ((collectBinFiles dir d).getD []).map BinFile.named

/-- A reload is a call of `load_programs`, unless there is nothing to load. -/
lemma reloadProgramsFromDirectory_eq (vm : VmState) (dir : List UInt8) (d : Dir) :
    reloadProgramsFromDirectory vm dir d =
      if (loadPrograms vm (reloadFiles dir d)).2 then
        ((loadPrograms vm (reloadFiles dir d)).1.setProgramHash
          (vmCalculateProgramHash (loadPrograms vm (reloadFiles dir d)).1), true)
      else ((loadPrograms vm (reloadFiles dir d)).1, false) := by
  rw [reloadProgramsFromDirectory, reloadFiles]
  cases collectBinFiles dir d with
  | none => rfl
  | some files =>
    cases files with
    | nil => rfl
    | cons f fs =>
      simp only [List.isEmpty_cons, Bool.false_eq_true, if_false, Option.getD_some]
      generalize loadPrograms vm ((f :: fs).map BinFile.named) = result
      obtain ⟨vm', ok⟩ := result
      cases ok <;> rfl

/-- The module table of a loadable list is as long as the list. -/
lemma length_moduleTable (p : UInt32) (files : List NamedFile) :
    (moduleTable p files).length = files.length := by
  induction files generalizing p with
  | nil => rfl
  | cons f fs ih => simp [moduleTable, ih]

/-- `load_programs` on a nonempty list. -/
lemma loadPrograms_eq {files : List NamedFile} (hne : files ≠ []) (vm : VmState) :
    loadPrograms vm files =
      if (loadLoop files vm.pcStart (forgetProgram vm)).2 then
        let vm' := withLoaded (forgetProgram vm) vm.pcStart files
        (vm'.setProgramHash (calculateMemoryHash vm'.mem vm'.pcStart vm'.programSize), true)
      else ((loadLoop files vm.pcStart (forgetProgram vm)).1, false) := by
  have hempty : files.isEmpty = false := by simpa using hne
  rw [loadPrograms, hempty, if_neg Bool.false_ne_true]
  cases hok : (loadLoop files vm.pcStart (forgetProgram vm)).2 with
  | false =>
    rw [if_neg Bool.false_ne_true]
    split
    · next h => rw [h]
    · next h => simp [h] at hok
  | true =>
    have hl := loadLoop_ok_iff.1 hok
    have hmods : (withLoaded (forgetProgram vm) vm.pcStart files).modules.isEmpty = false := by
      cases files with
      | nil => exact absurd rfl hne
      | cons f fs => rfl
    rw [loadLoop_of_loadable hl, if_pos rfl]
    simp only [hmods, Bool.false_eq_true, if_false]

/-- `load_programs` succeeds on the nonempty loadable lists. -/
lemma loadPrograms_ok_iff {vm : VmState} {files : List NamedFile} :
    (loadPrograms vm files).2 = true ↔ files ≠ [] ∧ Loadable vm.pcStart files := by
  by_cases hne : files = []
  · simp [hne, loadPrograms]
  · rw [loadPrograms_eq hne, ← @loadLoop_ok_iff files vm.pcStart (forgetProgram vm)]
    cases (loadLoop files vm.pcStart (forgetProgram vm)).2 <;> simp [hne]

/-- What a successful `load_programs` leaves. -/
lemma loadPrograms_of_loadable (vm : VmState) {files : List NamedFile} (hne : files ≠ [])
    (hl : Loadable vm.pcStart files) :
    ∃ hash, (loadPrograms vm files).1 =
      (withLoaded (forgetProgram vm) vm.pcStart files).setProgramHash hash := by
  rw [loadPrograms_eq hne, loadLoop_of_loadable hl]
  exact ⟨_, rfl⟩

/-- A successful reload. -/
lemma reload_of_loadable (vm : VmState) {dir : List UInt8} {d : Dir}
    (hne : reloadFiles dir d ≠ []) (hl : Loadable vm.pcStart (reloadFiles dir d)) :
    ∃ hash, reloadProgramsFromDirectory vm dir d =
      ((withLoaded (forgetProgram vm) vm.pcStart (reloadFiles dir d)).setProgramHash hash,
        true) := by
  obtain ⟨hash, hload⟩ := loadPrograms_of_loadable vm hne hl
  rw [reloadProgramsFromDirectory_eq, if_pos (loadPrograms_ok_iff.2 ⟨hne, hl⟩), hload]
  exact ⟨_, rfl⟩

/-- A reload succeeds if there is something to load and all of it can be loaded. -/
lemma reload_ok_iff {vm : VmState} {dir : List UInt8} {d : Dir} :
    (reloadProgramsFromDirectory vm dir d).2 = true ↔
      reloadFiles dir d ≠ [] ∧ Loadable vm.pcStart (reloadFiles dir d) := by
  rw [reloadProgramsFromDirectory_eq, ← loadPrograms_ok_iff]
  split_ifs with hok <;> simp [hok]

lemma modules_of_reload (vm : VmState) (dir : List UInt8) (d : Dir)
    (hok : (reloadProgramsFromDirectory vm dir d).2 = true) :
    (reloadProgramsFromDirectory vm dir d).1.modules =
      moduleTable vm.pcStart (reloadFiles dir d) := by
  obtain ⟨hne, hl⟩ := reload_ok_iff.1 hok
  obtain ⟨hash, heq⟩ := reload_of_loadable vm hne hl
  rw [heq]
  simp [withLoaded, forgetProgram, VmState.setProgramHash]

/-! ### What a load can change -/

/-- The state with another program. -/
def VmState.withProgram (vm : VmState) (mem : ℕ → UInt8) (modules : List ModuleInfo)
    (programSize : UInt64) (programHash : UInt32) : VmState :=
  { vm with
    mem := mem, modules := modules, programSize := programSize, programHash := programHash }

lemma loadLoop_withProgram (files : List NamedFile) (p : UInt32) (vm : VmState) :
    ∃ mem modules size, (loadLoop files p vm).1 =
      vm.withProgram mem modules size vm.programHash := by
  induction files generalizing p vm with
  | nil => exact ⟨_, _, _, rfl⟩
  | cons f fs ih =>
    simp only [loadLoop]
    split_ifs
    · exact ⟨_, _, _, rfl⟩
    · exact ⟨_, _, _, rfl⟩
    · obtain ⟨mem, modules, size, heq⟩ := ih p (vm.addModule ⟨f.name, p, 0⟩)
      exact ⟨mem, modules, size, heq⟩
    · exact ⟨_, _, _, rfl⟩
    · exact ⟨_, _, _, rfl⟩
    · obtain ⟨mem, modules, size, heq⟩ := ih (p + UInt32.ofNat f.file.bytes.length)
        (((vm.fread p f.file.bytes).addModule
          ⟨f.name, p, UInt32.ofNat f.file.bytes.length⟩).addProgramSize
            (UInt32.ofNat f.file.bytes.length))
      exact ⟨mem, modules, size, heq⟩

lemma loadPrograms_withProgram (vm : VmState) (files : List NamedFile) :
    ∃ mem modules size hash, (loadPrograms vm files).1 =
      vm.withProgram mem modules size hash := by
  by_cases hne : files = []
  · rw [hne]
    exact ⟨_, _, _, _, rfl⟩
  · obtain ⟨mem, modules, size, heq⟩ := loadLoop_withProgram files vm.pcStart (forgetProgram vm)
    rw [loadPrograms_eq hne, heq]
    split_ifs <;> exact ⟨_, _, _, _, rfl⟩

lemma reloadProgramsFromDirectory_withProgram (vm : VmState) (dir : List UInt8) (d : Dir) :
    ∃ mem modules size hash, (reloadProgramsFromDirectory vm dir d).1 =
      vm.withProgram mem modules size hash := by
  obtain ⟨mem, modules, size, hash, heq⟩ := loadPrograms_withProgram vm (reloadFiles dir d)
  rw [reloadProgramsFromDirectory_eq, heq]
  split_ifs <;> exact ⟨_, _, _, _, rfl⟩

/-- Without a program directory or a pending reload nothing happens. -/
lemma applyPendingReload_of_idle {vm : VmState}
    (hidle : vm.programDir = none ∨ vm.reloadPending = false) (d : Dir) :
    applyPendingReload vm d = vm := by
  rw [applyPendingReload]
  cases hdir : vm.programDir with
  | none => rfl
  | some dir => exact if_pos (by simpa [hdir] using hidle)

/-- A pending reload is carried out, and stays pending if it fails. -/
lemma applyPendingReload_of_pending {vm : VmState} {dir : List UInt8}
    (hdir : vm.programDir = some dir) (hpending : vm.reloadPending = true) (d : Dir) :
    applyPendingReload vm d =
      (reloadProgramsFromDirectory (vm.setReloadPending false) dir d).1.setReloadPending
        !(reloadProgramsFromDirectory (vm.setReloadPending false) dir d).2 := by
  obtain ⟨mem, modules, size, hash, heq⟩ :=
    reloadProgramsFromDirectory_withProgram (vm.setReloadPending false) dir d
  rw [applyPendingReload, hdir]
  simp only [hpending, Bool.not_true, Bool.false_eq_true, if_false]
  generalize reloadProgramsFromDirectory (vm.setReloadPending false) dir d = result at heq ⊢
  obtain ⟨vm', ok⟩ := result
  obtain rfl : vm' = _ := heq
  cases ok <;> rfl

/-- A reload changes the program and clears the flag, or leaves it set when it fails. -/
lemma applyPendingReload_cases {vm : VmState} {dir : List UInt8} (hdir : vm.programDir = some dir)
    (d : Dir) :
    vm.reloadPending = false ∧ applyPendingReload vm d = vm ∨
      vm.reloadPending = true ∧
        ∃ mem modules size hash,
          (reloadProgramsFromDirectory (vm.setReloadPending false) dir d).1 =
            (vm.setReloadPending false).withProgram mem modules size hash ∧
          applyPendingReload vm d =
            (vm.withProgram mem modules size hash).setReloadPending
              !(reloadProgramsFromDirectory (vm.setReloadPending false) dir d).2 := by
  cases hpending : vm.reloadPending with
  | false => exact Or.inl ⟨rfl, applyPendingReload_of_idle (Or.inr hpending) d⟩
  | true =>
    obtain ⟨mem, modules, size, hash, heq⟩ :=
      reloadProgramsFromDirectory_withProgram (vm.setReloadPending false) dir d
    refine Or.inr ⟨rfl, mem, modules, size, hash, heq, ?_⟩
    rw [applyPendingReload_of_pending hdir hpending, heq]
    rfl

/-- What is no part of the program survives a reload. -/
lemma applyPendingReload_keeps {β : Type*} {f : VmState → β}
    (hf : ∀ vm mem modules size hash pending,
      f ((VmState.withProgram vm mem modules size hash).setReloadPending pending) = f vm)
    (vm : VmState) (d : Dir) : f (applyPendingReload vm d) = f vm := by
  cases hdir : vm.programDir with
  | none => rw [applyPendingReload_of_idle (Or.inl hdir)]
  | some dir =>
    rcases applyPendingReload_cases hdir d with ⟨-, heq⟩ | ⟨-, mem, modules, size, hash, -, heq⟩
    · rw [heq]
    · rw [heq, hf]

/-- What is no part of the watching of the directory survives a poll. -/
lemma pollDirectory_keeps {β : Type*} {f : VmState → β}
    (hf : ∀ (vm : VmState) sig pending,
      f { vm with programDirSignature := sig, reloadPending := pending } = f vm)
    (vm : VmState) (d : Dir) : f (pollDirectory vm d) = f vm := by
  rw [pollDirectory]
  split
  · rfl
  · exact hf vm _ _

end Vm32
