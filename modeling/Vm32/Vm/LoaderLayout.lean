/-
# The layout of loaded programs

The files of a list that is read back completely are loaded exactly if they fit into memory
behind `PC_START`.  Then they lie there one behind the other, in the order of the list, the module
table says where, and both program hashes are the checksum of their concatenation.
-/
import Vm32.Vm.HotReload
import Vm32.Vm.Lifecycle

namespace Vm32

/-- The file is read back with the size it reports. -/
def File.Readable (f : File) : Prop :=
  ∃ (data : List UInt8) (h : data.length < 2 ^ 63), f = .readable data h

/-- The size of a file. -/
def File.size (f : File) : ℕ := f.data.length

/-- The sum of the sizes of the files. -/
def totalSize (files : List NamedFile) : ℕ := (files.map fun f => f.file.size).sum

/-- How a list of files lies in memory after a load that began in the state `vm`. -/
structure Layout (vm vm' : VmState) (files : List NamedFile) : Prop where
  count : vm'.modules.length = files.length
  /-- Module `i` has the name, the size and the bytes of file `i`, and starts behind the files
  before it. -/
  module : ∀ i f, files[i]? = some f → ∃ mod, vm'.modules[i]? = some mod ∧ mod.name = f.name ∧
    mod.addr.toNat = vm.pcStart.toNat + totalSize (files.take i) ∧ mod.size.toNat = f.file.size ∧
    ∀ k (hk : k < f.file.size), vm'.mem (mod.addr.toNat + k) = f.file.data.get ⟨k, hk⟩
  disjoint : vm'.modules.Pairwise fun a b => a.addr.toNat + a.size.toNat ≤ b.addr.toNat
  programSize : vm'.programSize.toNat = totalSize files
  programHash : vm'.programHash = crc32 (files.flatMap fun f => f.file.data)
  calculated : vmCalculateProgramHash vm' = vm'.programHash
  outside : ∀ a, ¬(vm.pcStart.toNat ≤ a ∧ a < vm.pcStart.toNat + totalSize files) →
    vm'.mem a = vm.mem a

section Files

variable {f : File} {files : List NamedFile}

/-- All bytes of a readable file are delivered. -/
lemma File.Readable.bytes (hf : f.Readable) : f.bytes = f.data := by
  obtain ⟨data, h, rfl⟩ := hf
  have hsize : (Int64.ofNat data.length).toUInt64.toNat = data.length := by
    rw [Int64.toUInt64_ofNat', UInt64.toNat_ofNat_of_lt' (h.trans (by norm_num))]
  simp only [File.bytes, File.readable, hsize, List.take_length]

lemma File.Readable.loadsAt_iff (hf : f.Readable) {p : UInt32} :
    f.LoadsAt p ↔ f.size = 0 ∨ p.toNat + f.size ≤ vmMemBytes := by
  have hbytes := hf.bytes
  obtain ⟨data, h, rfl⟩ := hf
  have hsize : (Int64.ofNat data.length).toUInt64.toNat = data.length := by
    rw [Int64.toUInt64_ofNat', UInt64.toNat_ofNat_of_lt' (h.trans (by norm_num))]
  simp only [File.LoadsAt, hbytes]
  simp only [File.readable, File.size, hsize, List.length_eq_zero_iff, true_and]

@[simp] lemma totalSize_nil : totalSize [] = 0 := rfl

@[simp] lemma totalSize_cons (f : NamedFile) (fs : List NamedFile) :
    totalSize (f :: fs) = f.file.size + totalSize fs := by
  simp [totalSize]

/-- Readable files are loadable exactly if all of them fit. -/
lemma loadable_iff_fits {p : UInt32} (hp : p.toNat ≤ vmMemBytes)
    (hread : ∀ f ∈ files, f.file.Readable) :
    Loadable p files ↔ p.toNat + totalSize files ≤ vmMemBytes := by
  induction files generalizing p with
  | nil => simpa [Loadable] using hp
  | cons f fs ih =>
    have hf := hread f List.mem_cons_self
    have hfs : ∀ g ∈ fs, g.file.Readable := fun g hg => hread g (List.mem_cons_of_mem f hg)
    rw [Loadable, totalSize_cons]
    by_cases hloads : f.file.LoadsAt p
    · have hnext : (p + UInt32.ofNat f.file.bytes.length).toNat = p.toNat + f.file.size := by
        rw [hloads.next_toNat, hf.bytes]
        rfl
      have hroom : (p + UInt32.ofNat f.file.bytes.length).toNat ≤ vmMemBytes := by
        rw [hnext]
        rcases hf.loadsAt_iff.1 hloads with hempty | hle
        · rw [hempty]
          exact hp
        · exact hle
      rw [ih hroom hfs, hnext, Nat.add_assoc]
      simp [hloads]
    · -- a file that does not fit alone does not fit with the others
      have hover := not_or.1 (mt hf.loadsAt_iff.2 hloads)
      constructor
      · exact fun h => absurd h.1 hloads
      · intro hle
        omega

lemma length_imageOf (hread : ∀ f ∈ files, f.file.Readable) :
    (imageOf files).length = totalSize files := by
  induction files with
  | nil => rfl
  | cons f fs ih =>
    rw [imageOf_cons, List.length_append, totalSize_cons, (hread f List.mem_cons_self).bytes,
      ih fun g hg => hread g (List.mem_cons_of_mem f hg)]
    rfl

lemma imageOf_eq (hread : ∀ f ∈ files, f.file.Readable) :
    imageOf files = files.flatMap fun f => f.file.data :=
  List.flatMap_congr fun f hf => (hread f hf).bytes

/-- The entry of a file in the module table. -/
lemma moduleTable_getElem? {p : UInt32} (hread : ∀ f ∈ files, f.file.Readable)
    (hl : Loadable p files) {i : ℕ} {f : NamedFile} (hi : files[i]? = some f) :
    ∃ mod, (moduleTable p files)[i]? = some mod ∧ mod.name = f.name ∧
      mod.addr.toNat = p.toNat + totalSize (files.take i) ∧ mod.size.toNat = f.file.size := by
  induction files generalizing p i with
  | nil => cases hi
  | cons g gs ih =>
    have hg := hread g List.mem_cons_self
    have hlt := hl.1.length_lt
    cases i with
    | zero =>
      obtain rfl := Option.some.inj hi
      refine ⟨_, rfl, rfl, rfl, ?_⟩
      rw [UInt32.toNat_ofNat_of_lt' hlt, hg.bytes]
      rfl
    | succ i =>
      obtain ⟨mod, hmod, hname, haddr, hsize⟩ :=
        ih (fun h hh => hread h (List.mem_cons_of_mem g hh)) hl.2 hi
      refine ⟨mod, hmod, hname, ?_, hsize⟩
      rw [haddr, hl.1.next_toNat, hg.bytes, List.take_succ_cons, totalSize_cons, Nat.add_assoc]
      rfl

/-- The bytes of a file in the image. -/
lemma imageOf_getElem? (hread : ∀ f ∈ files, f.file.Readable) {i : ℕ} {f : NamedFile}
    (hi : files[i]? = some f) {k : ℕ} (hk : k < f.file.size) :
    (imageOf files)[totalSize (files.take i) + k]? = some (f.file.data.get ⟨k, hk⟩) := by
  obtain ⟨hlt, rfl⟩ := List.getElem?_eq_some_iff.1 hi
  have hsplit : files = files.take i ++ files[i] :: files.drop (i + 1) := by
    rw [List.getElem_cons_drop, List.take_append_drop]
  have hlen : (imageOf (files.take i)).length = totalSize (files.take i) :=
    length_imageOf fun f hf => hread f (List.mem_of_mem_take hf)
  have himage : imageOf files =
      imageOf (files.take i) ++ (files[i].file.data ++ imageOf (files.drop (i + 1))) := by
    conv_lhs => rw [hsplit]
    rw [imageOf, List.flatMap_append, List.flatMap_cons, (hread _ (List.getElem_mem hlt)).bytes]
    rfl
  rw [himage, ← hlen, List.getElem?_append_right (by omega), Nat.add_sub_cancel_left,
    List.getElem?_append_left hk]
  exact List.getElem?_eq_getElem hk

/-- In a module table every module ends before the next ones begin. -/
lemma moduleTable_disjoint {p : UInt32} (hl : Loadable p files) :
    (∀ mod ∈ moduleTable p files, p.toNat ≤ mod.addr.toNat) ∧
      (moduleTable p files).Pairwise fun a b => a.addr.toNat + a.size.toNat ≤ b.addr.toNat := by
  induction files generalizing p with
  | nil => simp [moduleTable]
  | cons f fs ih =>
    obtain ⟨hbehind, hrest⟩ := ih hl.2
    have hsize : (UInt32.ofNat f.file.bytes.length).toNat = f.file.bytes.length :=
      UInt32.toNat_ofNat_of_lt' hl.1.length_lt
    rw [hl.1.next_toNat] at hbehind
    rw [moduleTable, List.pairwise_cons, List.forall_mem_cons]
    refine ⟨⟨le_refl _, fun mod hmod => ?_⟩, fun mod hmod => ?_, hrest⟩
    · exact (Nat.le_add_right _ _).trans (hbehind mod hmod)
    · rw [hsize]
      exact hbehind mod hmod

end Files

/-- What is read back from an overlay is the overlay. -/
lemma memBytes_overlay (mem : ℕ → UInt8) (start : ℕ) (bs : List UInt8) :
    memBytes (overlay mem start bs) start bs.length = bs := by
  refine List.ext_getElem (by simp [memBytes]) fun i hi hi' => ?_
  simp only [memBytes, List.getElem_map, List.getElem_range]
  exact overlay_getElem mem start bs hi'

/-- A program in memory is hashed as a whole by `vm_calculate_program_hash`. -/
lemma vmCalculateProgramHash_of_fits {vm : VmState}
    (hfits : vm.pcStart.toNat + vm.programSize.toNat ≤ vmMemBytes) :
    vmCalculateProgramHash vm = calculateMemoryHash vm.mem vm.pcStart vm.programSize := by
  have hempty : ∀ start, crc32 (memBytes vm.mem start 0) = 0 := fun _ => crc32Finalize_begin
  rw [vmCalculateProgramHash, calculateMemoryHash]
  split_ifs with hzero hstart
  · rw [eq_of_beq hzero]
    exact (hempty _).symm
  · have hnone : vm.programSize.toNat = 0 := by omega
    rw [hnone]
    exact (hempty _).symm
  · have hshort : ¬vmMemBytes - vm.pcStart.toNat < vm.programSize.toNat := by omega
    simp only [if_neg hshort]

/-- Files that are read back completely are loaded exactly if they fit behind `PC_START`, and
then they lie there one behind the other. -/
theorem loader_layout {vm : VmState} {files : List NamedFile}
    (hstart : vm.pcStart.toNat ≤ vmMemBytes) (hne : files ≠ [])
    (hread : ∀ f ∈ files, f.file.Readable) :
    ((loadPrograms vm files).2 = true ↔ vm.pcStart.toNat + totalSize files ≤ vmMemBytes) ∧
      ((loadPrograms vm files).2 = true → Layout vm (loadPrograms vm files).1 files) := by
  have hfits := loadable_iff_fits hstart hread
  refine ⟨by rw [loadPrograms_ok_iff, hfits, and_iff_right hne], fun hok => ?_⟩
  have hl := (loadPrograms_ok_iff.1 hok).2
  have hroom := hfits.1 hl
  have hlen := length_imageOf hread
  -- the size is summed in 64 bits, and an image that fits is far smaller
  have hsize : (withLoaded (forgetProgram vm) vm.pcStart files).programSize.toNat =
      totalSize files := by
    have hmem : vmMemBytes < 2 ^ 64 := by decide
    rw [withLoaded, ← hlen]
    simp only [forgetProgram, UInt64.zero_add]
    refine UInt64.toNat_ofNat_of_lt' ?_
    rw [hlen]
    exact lt_of_le_of_lt (by omega) hmem
  have hhash : calculateMemoryHash (withLoaded (forgetProgram vm) vm.pcStart files).mem vm.pcStart
      (withLoaded (forgetProgram vm) vm.pcStart files).programSize =
      crc32 (files.flatMap fun f => f.file.data) := by
    rw [calculateMemoryHash, hsize, ← hlen, ← imageOf_eq hread]
    exact congrArg crc32 (memBytes_overlay _ _ _)
  rw [loadPrograms_eq hne, loadLoop_of_loadable hl, if_pos rfl]
  obtain ⟨-, hdisjoint⟩ := moduleTable_disjoint hl
  constructor
  · exact length_moduleTable vm.pcStart files
  · intro i f hi
    obtain ⟨mod, hmod, hname, haddr, hmodsize⟩ := moduleTable_getElem? hread hl hi
    refine ⟨mod, hmod, hname, haddr, hmodsize, fun k hk => ?_⟩
    -- byte `k` of the file is a byte of the image, and the image lies in memory
    have hbyte := imageOf_getElem? hread hi hk
    obtain ⟨hlt, hget⟩ := List.getElem?_eq_some_iff.1 hbyte
    rw [haddr, Nat.add_assoc]
    exact (overlay_getElem vm.mem vm.pcStart.toNat (imageOf files) hlt).trans hget
  · exact hdisjoint
  · exact hsize
  · exact hhash
  · refine vmCalculateProgramHash_of_fits ?_
    exact (congrArg (vm.pcStart.toNat + ·) hsize).trans_le hroom
  · intro a ha
    -- outside the image memory is what it was
    rw [← hlen] at ha
    exact overlay_of_not_mem vm.mem ha

/-- A file that fills memory up to its last byte, behind an empty one. -/
theorem loader_layout_full :
    let vm := { vmCreate with pcStart := UInt32.ofNat (vmMemBytes - 2) }
    let files : List NamedFile :=
      [⟨[97], .readable [] (by decide)⟩, ⟨[98], .readable [1, 2] (by decide)⟩]
    ((loadPrograms vm files).2 = true ↔ vm.pcStart.toNat + totalSize files ≤ vmMemBytes) ∧
      ((loadPrograms vm files).2 = true → Layout vm (loadPrograms vm files).1 files) := by
  intro vm files
  have hread : ∀ f ∈ files, f.file.Readable := by
    intro f hf
    simp only [files, List.mem_cons, List.not_mem_nil, or_false] at hf
    rcases hf with rfl | rfl
    · exact ⟨_, _, rfl⟩
    · exact ⟨_, _, rfl⟩
  exact loader_layout (by decide) (by simp [files]) hread

end Vm32
