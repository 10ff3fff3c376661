/-
# Loading program files

`load_programs` of `loader.c` copies the files of a list into memory, one behind the other from
`PC_START` on, and builds the module table.  A file is what the C library shows of it: whether
it can be opened, whether the seek to its end succeeds, the size `ftell` reports, and the bytes
`fread` can deliver.

The effect of the loop on a loadable list is one overlay of memory with the concatenated
contents; a list that is not loadable fails at its first bad file.
-/
import Vm32.Vm.Instruction

namespace Vm32

/-- A file as `load_programs` sees it. -/
structure File where
  opens : Bool
  seeks : Bool
  fsize : Int64
  data : List UInt8
  /-- An offset in a file is an `off_t`. -/
  length_data : data.length < 2 ^ 63
deriving DecidableEq

/-- A file that is read back with the size it reports. -/
def File.readable (data : List UInt8) (h : data.length < 2 ^ 63) : File :=
  ⟨true, true, Int64.ofNat data.length, data, h⟩

/-- A path and the file behind it. -/
structure NamedFile where
  name : List UInt8
  file : File

/-- The bytes that `fread` delivers for a request of `fsize` bytes. -/
def File.bytes (f : File) : List UInt8 := f.data.take f.fsize.toUInt64.toNat

/-- Memory with `bytes` written from `dest` on. -/
def overlay (mem : ℕ → UInt8) (dest : ℕ) (bytes : List UInt8) (a : ℕ) : UInt8 :=
  if dest ≤ a ∧ a < dest + bytes.length then bytes.getD (a - dest) 0 else mem a

/-- The bytes of memory from `start` on. -/
def memBytes (mem : ℕ → UInt8) (start n : ℕ) : List UInt8 :=
  (List.range n).map fun i => mem (start + i)

/-- `calculate_memory_hash`. -/
def calculateMemoryHash (mem : ℕ → UInt8) (startAddr : UInt32) (length : UInt64) : UInt32 :=
  crc32 (memBytes mem startAddr.toNat length.toNat)

/-- `vm_calculate_program_hash`. -/
def vmCalculateProgramHash (vm : VmState) : UInt32 :=
  if vm.programSize == 0 then 0
  else if vmMemBytes ≤ vm.pcStart.toNat then 0
  else
    let hashSize := vm.programSize.toNat
    let hashSize :=
      if vmMemBytes - vm.pcStart.toNat < hashSize then vmMemBytes - vm.pcStart.toNat
      else hashSize
    crc32 (memBytes vm.mem vm.pcStart.toNat hashSize)

/-- The assignment of `vm->program_hash`. -/
def VmState.setProgramHash (vm : VmState) (hash : UInt32) : VmState :=
  { vm with programHash := hash }

/-- `fread` into memory. -/
def VmState.fread (vm : VmState) (dest : UInt32) (bytes : List UInt8) : VmState :=
  { vm with mem := overlay vm.mem dest.toNat bytes }

/-- The assignments of `vm->modules[vm->module_count]` and the increment of the count. -/
def VmState.addModule (vm : VmState) (mod : ModuleInfo) : VmState :=
  { vm with modules := vm.modules ++ [mod] }

/-- The increment of `vm->program_size`. -/
def VmState.addProgramSize (vm : VmState) (n : UInt32) : VmState :=
  { vm with programSize := vm.programSize + n.toUInt64 }

/-! ### `load_programs` -/

/-- The failing returns that drop the partial module table. -/
def dropModules (vm : VmState) : VmState × Bool := ({ vm with modules := [] }, false)

/-- The loop of `load_programs`, with `write_ptr`; the flag is `false` for a return of -1.  A
failing `fseek` returns without the cleanup of the other failures. -/
def loadLoop : List NamedFile → UInt32 → VmState → VmState × Bool
  | [], _, vm => (vm, true)
  | f :: fs, writePtr, vm =>
    if !f.file.opens then dropModules vm
    else if !f.file.seeks then (vm, false)
    else if f.file.fsize == 0 then
      loadLoop fs writePtr (vm.addModule ⟨f.name, writePtr, 0⟩)
    else if vmMemBytes < (writePtr.toUInt64 + f.file.fsize.toUInt64).toNat then dropModules vm
    else
      let bytes := f.file.bytes
      let vm := vm.fread writePtr bytes
      if bytes.length ≠ f.file.fsize.toUInt64.toNat then dropModules vm
      else
        let n := UInt32.ofNat bytes.length
        loadLoop fs (writePtr + n) ((vm.addModule ⟨f.name, writePtr, n⟩).addProgramSize n)

/-- What `load_programs` forgets before it opens the first file. -/
def forgetProgram (vm : VmState) : VmState :=
  { vm with modules := [], programSize := 0, programHash := 0 }

/-- `load_programs`; the flag is `true` for a return of 0. -/
def loadPrograms (vm : VmState) (files : List NamedFile) : VmState × Bool :=
  if files.isEmpty then (vm, false)
  else
    match loadLoop files vm.pcStart (forgetProgram vm) with
    | (vm, false) => (vm, false)
    | (vm, true) =>
      if vm.modules.isEmpty then (vm, false)
      else
        (vm.setProgramHash (calculateMemoryHash vm.mem vm.pcStart vm.programSize), true)

/-! ### Loadable lists -/

/-- The file is read completely, into memory. -/
def File.LoadsAt (f : File) (writePtr : UInt32) : Prop :=
  f.opens = true ∧ f.seeks = true ∧ f.bytes.length = f.fsize.toUInt64.toNat ∧
    (f.bytes = [] ∨ writePtr.toNat + f.bytes.length ≤ vmMemBytes)

/-- Every file of the list is read completely, each behind the one before it. -/
def Loadable : UInt32 → List NamedFile → Prop
  | _, [] => True
  | writePtr, f :: fs =>
    f.file.LoadsAt writePtr ∧ Loadable (writePtr + UInt32.ofNat f.file.bytes.length) fs

/-- The module table of a list that is loaded completely. -/
def moduleTable : UInt32 → List NamedFile → List ModuleInfo
  | _, [] => []
  | writePtr, f :: fs =>
    let n := UInt32.ofNat f.file.bytes.length
    ⟨f.name, writePtr, n⟩ :: moduleTable (writePtr + n) fs

/-- The contents of the files, one behind the other. -/
def imageOf (files : List NamedFile) : List UInt8 := files.flatMap fun f => f.file.bytes

/-- The state with the files of the list loaded behind what is there. -/
def withLoaded (vm : VmState) (writePtr : UInt32) (files : List NamedFile) : VmState :=
  { vm with
    mem := overlay vm.mem writePtr.toNat (imageOf files)
    modules := vm.modules ++ moduleTable writePtr files
    programSize := vm.programSize + UInt64.ofNat (imageOf files).length }

@[simp] lemma imageOf_nil : imageOf [] = [] := rfl

@[simp] lemma imageOf_cons (f : NamedFile) (fs : List NamedFile) :
    imageOf (f :: fs) = f.file.bytes ++ imageOf fs := rfl

@[simp] lemma overlay_nil (mem : ℕ → UInt8) (dest : ℕ) : overlay mem dest [] = mem := by
  funext a
  simp only [overlay, List.length_nil, Nat.add_zero]
  exact if_neg (by omega)

/-- Writing two strings one behind the other is writing their concatenation. -/
lemma overlay_append (mem : ℕ → UInt8) (dest : ℕ) (bs cs : List UInt8) :
    overlay (overlay mem dest bs) (dest + bs.length) cs = overlay mem dest (bs ++ cs) := by
  funext a
  simp only [overlay, List.length_append, List.getD_eq_getElem?_getD]
  by_cases h1 : dest + bs.length ≤ a ∧ a < dest + bs.length + cs.length
  · rw [if_pos h1, if_pos ⟨by omega, by omega⟩, List.getElem?_append_right (by omega),
      show a - (dest + bs.length) = a - dest - bs.length by omega]
  · rw [if_neg h1]
    by_cases h2 : dest ≤ a ∧ a < dest + bs.length
    · rw [if_pos h2, if_pos ⟨h2.1, by omega⟩, List.getElem?_append_left (by omega)]
    · rw [if_neg h2, if_neg (by omega)]

/-- What is read back from an overlay. -/
lemma overlay_getElem (mem : ℕ → UInt8) (dest : ℕ) (bs : List UInt8) {i : ℕ}
    (hi : i < bs.length) : overlay mem dest bs (dest + i) = bs[i] := by
  rw [overlay, if_pos ⟨by omega, by omega⟩, Nat.add_sub_cancel_left]
  simp [hi]

lemma overlay_of_not_mem (mem : ℕ → UInt8) {dest a : ℕ} {bs : List UInt8}
    (ha : ¬(dest ≤ a ∧ a < dest + bs.length)) : overlay mem dest bs a = mem a := if_neg ha

/-- A file that is read completely does not reach the end of the address space. -/
lemma File.LoadsAt.length_lt {f : File} {p : UInt32} (hf : f.LoadsAt p) :
    f.bytes.length < 2 ^ 32 := by
  rcases hf.2.2.2 with hnil | hle
  · simp [hnil]
  · simp only [vmMemBytes] at hle
    omega

lemma length_bytes_le (f : File) : f.bytes.length ≤ f.data.length := by
  simp [File.bytes]

/-- The write pointer behind a file. -/
lemma File.LoadsAt.next_toNat {f : File} {p : UInt32} (hf : f.LoadsAt p) :
    (p + UInt32.ofNat f.bytes.length).toNat = p.toNat + f.bytes.length := by
  have hlt := hf.length_lt
  rw [UInt32.toNat_add, UInt32.toNat_ofNat_of_lt' hlt]
  rcases hf.2.2.2 with hnil | hle
  · simp [hnil, Nat.mod_eq_of_lt p.toNat_lt]
  · simp only [vmMemBytes] at hle
    exact Nat.mod_eq_of_lt (by omega)

/-- The loop passes a file that is read completely. -/
lemma loadLoop_cons {f : NamedFile} {fs : List NamedFile} {p : UInt32} {vm : VmState}
    (hf : f.file.LoadsAt p) :
    loadLoop (f :: fs) p vm =
      loadLoop fs (p + UInt32.ofNat f.file.bytes.length) (withLoaded vm p [f]) := by
  obtain ⟨hopens, hseeks, hlen, hfits⟩ := hf
  have hlt := File.LoadsAt.length_lt ⟨hopens, hseeks, hlen, hfits⟩
  by_cases hzero : f.file.fsize = 0
  · -- an empty file is entered in the module table and nothing is read
    have hnil : f.file.bytes = [] := by
      rw [File.bytes, hzero]
      rfl
    simp [loadLoop, hopens, hseeks, hzero, hnil, withLoaded, imageOf, moduleTable,
      VmState.addModule]
  · have hne : f.file.bytes ≠ [] := by
      intro hnil
      rw [hnil, List.length_nil] at hlen
      have hbits : f.file.fsize.toUInt64 = (0 : Int64).toUInt64 := UInt64.toNat_inj.1 hlen.symm
      exact hzero (congrArg Int64.ofUInt64 hbits)
    have hle := hfits.resolve_left hne
    have hroom : (p.toUInt64 + f.file.fsize.toUInt64).toNat ≤ vmMemBytes := by
      rw [UInt64.toNat_add, UInt32.toNat_toUInt64, ← hlen]
      exact (Nat.mod_le _ _).trans hle
    have hsize : (UInt32.ofNat f.file.bytes.length).toUInt64 =
        UInt64.ofNat f.file.bytes.length := by
      rw [← UInt64.toNat_inj, UInt32.toNat_toUInt64, UInt32.toNat_ofNat_of_lt' hlt,
        UInt64.toNat_ofNat_of_lt' (hlt.trans (by decide))]
    rw [loadLoop, if_neg (by simp [hopens]), if_neg (by simp [hseeks]),
      if_neg (by simpa using hzero), if_neg (not_lt.2 hroom)]
    dsimp only
    rw [if_neg (not_not.2 hlen)]
    simp only [withLoaded, moduleTable, imageOf_cons, imageOf_nil, List.append_nil, ← hsize,
      VmState.fread, VmState.addModule, VmState.addProgramSize]

/-- Loading a list is loading its first file and then the others. -/
lemma withLoaded_cons {f : NamedFile} {p : UInt32} (hf : f.file.LoadsAt p) (fs : List NamedFile)
    (vm : VmState) :
    withLoaded (withLoaded vm p [f]) (p + UInt32.ofNat f.file.bytes.length) fs =
      withLoaded vm p (f :: fs) := by
  have hmem : overlay (overlay vm.mem p.toNat f.file.bytes)
      (p + UInt32.ofNat f.file.bytes.length).toNat (imageOf fs) =
      overlay vm.mem p.toNat (f.file.bytes ++ imageOf fs) := by
    rw [hf.next_toNat, overlay_append]
  simp only [withLoaded, moduleTable, imageOf_cons, imageOf_nil, List.append_nil, hmem,
    List.append_assoc, List.singleton_append, List.length_append, UInt64.ofNat_add,
    UInt64.add_assoc]

@[simp] lemma withLoaded_nil (vm : VmState) (p : UInt32) : withLoaded vm p [] = vm := by
  simp [withLoaded, moduleTable]

/-- The loop on a loadable list. -/
theorem loadLoop_of_loadable {files : List NamedFile} {p : UInt32} (hl : Loadable p files)
    (vm : VmState) : loadLoop files p vm = (withLoaded vm p files, true) := by
  induction files generalizing p vm with
  | nil => rw [withLoaded_nil, loadLoop]
  | cons f fs ih => rw [loadLoop_cons hl.1, ih hl.2, withLoaded_cons hl.1]

/-- A file that is not read completely ends the loop: all failures but that of `fseek` drop the
module table. -/
lemma loadLoop_cons_fail {f : NamedFile} {p : UInt32} (hf : ¬ f.file.LoadsAt p)
    (fs : List NamedFile) (vm : VmState) :
    (loadLoop (f :: fs) p vm).2 = false ∧
      ((loadLoop (f :: fs) p vm).1.modules = [] ∨
        f.file.opens = true ∧ f.file.seeks = false ∧ loadLoop (f :: fs) p vm = (vm, false)) := by
  cases hopens : f.file.opens with
  | false => simp [loadLoop, hopens, dropModules]
  | true =>
    cases hseeks : f.file.seeks with
    | false => simp [loadLoop, hopens, hseeks]
    | true =>
      rw [loadLoop, if_neg (by simp [hopens]), if_neg (by simp [hseeks])]
      split_ifs with hzero hover
      · -- an empty file is always read completely
        refine absurd ⟨hopens, hseeks, ?_, Or.inl ?_⟩ hf <;>
          rw [File.bytes, eq_of_beq hzero]
        · rfl
        · rfl
      · exact ⟨rfl, Or.inl rfl⟩
      · dsimp only
        by_cases hlen : f.file.bytes.length = f.file.fsize.toUInt64.toNat
        · -- the check of the size passed, and everything was read
          refine absurd ⟨hopens, hseeks, hlen, Or.inr ?_⟩ hf
          have hle := (length_bytes_le f.file).trans_lt f.file.length_data
          rw [not_lt, UInt64.toNat_add, UInt32.toNat_toUInt64, ← hlen] at hover
          have hp := p.toNat_lt
          omega
        · rw [if_pos hlen]
          exact ⟨rfl, Or.inl rfl⟩

/-- How the loop fails: it stops at the first file that is not read completely. -/
theorem loadLoop_fail {files : List NamedFile} {p : UInt32} {vm : VmState}
    (hfail : (loadLoop files p vm).2 = false) :
    (loadLoop files p vm).1.modules = [] ∨
      ∃ pre f post, files = pre ++ f :: post ∧ Loadable p pre ∧ f.file.opens = true ∧
        f.file.seeks = false ∧ loadLoop files p vm = (withLoaded vm p pre, false) := by
  induction files generalizing p vm with
  | nil => simp [loadLoop] at hfail
  | cons f fs ih =>
    by_cases hf : f.file.LoadsAt p
    · rw [loadLoop_cons hf] at hfail ⊢
      rcases ih hfail with hnil | ⟨pre, g, post, rfl, hpre, hopens, hseeks, heq⟩
      · exact Or.inl hnil
      · refine Or.inr ⟨f :: pre, g, post, rfl, ⟨hf, hpre⟩, hopens, hseeks, ?_⟩
        rw [heq, withLoaded_cons hf]
    · obtain ⟨-, hnil | ⟨hopens, hseeks, heq⟩⟩ := loadLoop_cons_fail hf fs vm
      · exact Or.inl hnil
      · refine Or.inr ⟨[], f, fs, rfl, trivial, hopens, hseeks, ?_⟩
        rw [heq, withLoaded_nil]

/-- The loop succeeds on the loadable lists only. -/
lemma loadLoop_ok_iff {files : List NamedFile} {p : UInt32} {vm : VmState} :
    (loadLoop files p vm).2 = true ↔ Loadable p files := by
  constructor
  · intro hok
    induction files generalizing p vm with
    | nil => trivial
    | cons f fs ih =>
      by_cases hf : f.file.LoadsAt p
      · rw [loadLoop_cons hf] at hok
        exact ⟨hf, ih hok⟩
      · rw [(loadLoop_cons_fail hf fs vm).1] at hok
        cases hok
  · intro hl
    rw [loadLoop_of_loadable hl]

end Vm32
