/-
# The order of a directory

`readdir` returns the entries of a directory in any order.  `collect_bin_files` makes one list of
them all the same: the names in a directory are distinct, so there is one list of its programs that
is ascending, and every sorting procedure finds it.  What is computed from the list, the signature
and the program that a reload loads, then depends on the entries alone.
-/
import Vm32.Vm.HotReload

namespace Vm32

/-! ### Comparing paths -/

/-- `strcmp` compares byte strings in the lexicographic order. -/
lemma strcmpLe_iff (s t : List UInt8) : strcmpLe s t = true ↔ s ≤ t := by
  induction s generalizing t with
  | nil => simp [strcmpLe]
  | cons a s ih =>
    cases t with
    | nil => simp [strcmpLe]
    | cons b t =>
      rw [strcmpLe, List.cons_le_cons_iff]
      simp [ih]

lemma strcmpLe_antisymm {s t : List UInt8} (h : strcmpLe s t = true) (h' : strcmpLe t s = true) :
    s = t := List.le_antisymm ((strcmpLe_iff s t).1 h) ((strcmpLe_iff t s).1 h')

lemma strcmpLe_total (s t : List UInt8) : strcmpLe s t = true ∨ strcmpLe t s = true := by
  rw [strcmpLe_iff, strcmpLe_iff]
  exact List.le_total s t

lemma strcmpLe_trans {s t u : List UInt8} (h : strcmpLe s t = true) (h' : strcmpLe t u = true) :
    strcmpLe s u = true := by
  rw [strcmpLe_iff] at h h' ⊢
  exact List.le_trans h h'

/-! ### Names -/

/-- `.bin`. -/
def binExtension : List UInt8 := [46, 98, 105, 110]

lemma strrchr_of_not_mem {c : UInt8} {s : List UInt8} (h : c ∉ s) : strrchr c s = none := by
  induction s with
  | nil => rfl
  | cons b s ih =>
    rw [List.mem_cons, not_or] at h
    simp [strrchr, ih h.2, Ne.symm h.1]

/-- `strrchr` finds the last occurrence. -/
lemma strrchr_append (c : UInt8) (s : List UInt8) {t : List UInt8} (h : c ∉ t) :
    strrchr c (s ++ c :: t) = some (c :: t) := by
  induction s with
  | nil => simp [strrchr, strrchr_of_not_mem h]
  | cons b s ih => rw [List.cons_append, strrchr, ih]

/-- What `strrchr` finds is the end of the string. -/
lemma strrchr_suffix {c : UInt8} {s t : List UInt8} (h : strrchr c s = some t) : t <:+ s := by
  induction s with
  | nil => simp [strrchr] at h
  | cons b s ih =>
    cases hs : strrchr c s with
    | some u =>
      simp only [strrchr, hs, Option.some.injEq] at h
      subst h
      exact (ih hs).trans (List.suffix_cons b s)
    | none =>
      simp only [strrchr, hs, Option.ite_none_right_eq_some, Option.some.injEq] at h
      exact h.2 ▸ List.suffix_rfl

/-- The last dot of a name starts `.bin` if and only if the name ends so: there is no other dot in
`.bin`. -/
lemma hasBinExtension_iff (name : List UInt8) :
    hasBinExtension name = true ↔ binExtension <:+ name := by
  rw [hasBinExtension, beq_iff_eq]
  refine ⟨strrchr_suffix, ?_⟩
  rintro ⟨stem, rfl⟩
  exact strrchr_append 46 stem (by decide)

/-- Neither `.` nor `..` is the name of a program. -/
lemma isDotName_of_suffix {name : List UInt8} (h : binExtension <:+ name) :
    isDotName name = false := by
  have hlen : 4 ≤ name.length := h.length_le
  rw [isDotName, Bool.or_eq_false_iff, beq_eq_false_iff_ne, beq_eq_false_iff_ne]
  constructor <;> rintro rfl <;> simp at hlen

lemma joinPath_injective (dir : List UInt8) : Function.Injective (joinPath dir) := by
  intro s t h
  exact List.cons_injective (List.append_cancel_left h)

/-- The entry is a program: a regular file whose last extension is `.bin`. -/
def DirEntry.IsProgram (e : DirEntry) : Prop := e.regular = true ∧ binExtension <:+ e.dName

/-- The loop keeps the programs, with their paths. -/
lemma collectEntry_eq_some_iff (dir : List UInt8) (e : DirEntry) (f : BinFile) :
    collectEntry dir e = some f ↔ e.IsProgram ∧ f = ⟨joinPath dir e.dName, e⟩ := by
  by_cases hbin : binExtension <:+ e.dName
  · rw [collectEntry, (hasBinExtension_iff _).2 hbin, isDotName_of_suffix hbin]
    cases hreg : e.regular <;> simp [DirEntry.IsProgram, hbin, hreg, eq_comm]
  · have hno : hasBinExtension e.dName = false := by
      rwa [← Bool.not_eq_true, hasBinExtension_iff]
    rw [collectEntry, hno]
    simp [DirEntry.IsProgram, hbin]

/-! ### The list of programs -/

/-- The list of the programs among the entries: these and no others, and their paths ascend, so each
stands in it once. -/
structure Lists (dir : List UInt8) (entries : List DirEntry) (files : List BinFile) : Prop where
  mem_iff : ∀ f, f ∈ files ↔ ∃ e ∈ entries, e.IsProgram ∧ f = ⟨joinPath dir e.dName, e⟩
  ascending : (files.map BinFile.path).Pairwise fun s t => strcmpLe s t = true ∧ s ≠ t

section Lists

variable {dir : List UInt8} {es es' : List DirEntry} {files files' : List BinFile}

lemma Lists.of_mem_iff (hmem : ∀ e, e ∈ es ↔ e ∈ es') (h : Lists dir es files) :
    Lists dir es' files := by
  refine ⟨fun f => ?_, h.ascending⟩
  rw [h.mem_iff]
  exact exists_congr fun e => and_congr_left' (hmem e)

lemma Lists.nodup (h : Lists dir es files) : files.Nodup :=
  .of_map BinFile.path (h.ascending.imp And.right)

/-- Entries have one list. -/
lemma Lists.unique (h : Lists dir es files) (h' : Lists dir es files') : files = files' := by
  have hperm : files.Perm files' := (List.perm_ext_iff_of_nodup h.nodup h'.nodup).2 fun f => by
    rw [h.mem_iff, h'.mem_iff]
  refine hperm.eq_of_pairwise ?_ (List.pairwise_map.1 h.ascending)
    (List.pairwise_map.1 h'.ascending)
  rintro f g - - ⟨hle, hne⟩ ⟨hge, -⟩
  exact absurd (strcmpLe_antisymm hle hge) hne

end Lists

/-! ### Sorting -/

/-- What is assumed of `qsort`: it puts the files into an order in which no path is greater than one
behind it. -/
def IsQsort (qsort : List BinFile → List BinFile) : Prop :=
  ∀ files, (qsort files).Perm files ∧
    (qsort files).Pairwise fun f g => strcmpLe f.path g.path = true

/-- Distinct names have distinct paths. -/
lemma nodup_paths (dir : List UInt8) {es : List DirEntry}
    (hnames : (es.map DirEntry.dName).Nodup) :
    ((es.filterMap (collectEntry dir)).map BinFile.path).Nodup := by
  refine List.pairwise_map.2 (List.pairwise_filterMap.2 ((List.pairwise_map.1 hnames).imp ?_))
  intro e e' hne f hf f' hf'
  rw [((collectEntry_eq_some_iff dir e f).1 hf).2, ((collectEntry_eq_some_iff dir e' f').1 hf').2]
  exact (joinPath_injective dir).ne hne

/-- However the files are sorted, the outcome is the list of the programs. -/
lemma IsQsort.lists {qsort : List BinFile → List BinFile} (h : IsQsort qsort) (dir : List UInt8)
    {es : List DirEntry} (hnames : (es.map DirEntry.dName).Nodup) :
    Lists dir es (qsort (es.filterMap (collectEntry dir))) := by
  obtain ⟨hperm, hsorted⟩ := h (es.filterMap (collectEntry dir))
  constructor
  · intro f
    simp only [hperm.mem_iff, List.mem_filterMap, collectEntry_eq_some_iff]
  · have hne := (hperm.map BinFile.path).nodup_iff.2 (nodup_paths dir hnames)
    exact (List.pairwise_map.2 hsorted).and hne

/-- The sort of the model. -/
lemma isQsort_insertionSort :
    IsQsort (List.insertionSort fun f g => strcmpLe f.path g.path = true) := by
  intro files
  have : Std.Total fun f g : BinFile => strcmpLe f.path g.path = true :=
    ⟨fun f g => strcmpLe_total f.path g.path⟩
  have : IsTrans BinFile fun f g => strcmpLe f.path g.path = true :=
    ⟨fun _ _ _ => strcmpLe_trans⟩
  exact ⟨List.perm_insertionSort _ files, List.pairwise_insertionSort _ files⟩

lemma collectBinFiles_some (dir : List UInt8) {es : List DirEntry}
    (hnames : (es.map DirEntry.dName).Nodup) :
    ∃ files, collectBinFiles dir (some es) = some files ∧ Lists dir es files :=
  ⟨_, rfl, isQsort_insertionSort.lists dir hnames⟩

/-! ### What does not depend on the order -/

section Order

variable {es es' : List DirEntry}

lemma collectBinFiles_of_perm (dir : List UInt8) (hperm : es.Perm es')
    (hnames : (es.map DirEntry.dName).Nodup) :
    collectBinFiles dir (some es) = collectBinFiles dir (some es') := by
  obtain ⟨files, hfiles, hlists⟩ := collectBinFiles_some dir hnames
  obtain ⟨files', hfiles', hlists'⟩ :=
    collectBinFiles_some dir ((hperm.map DirEntry.dName).nodup_iff.1 hnames)
  rw [hfiles, hfiles', (hlists.of_mem_iff fun _ => hperm.mem_iff).unique hlists']

lemma calcDirSignature_of_perm (dir : List UInt8) (hperm : es.Perm es')
    (hnames : (es.map DirEntry.dName).Nodup) :
    calcDirSignature dir (some es) = calcDirSignature dir (some es') := by
  rw [calcDirSignature, calcDirSignature, collectBinFiles_of_perm dir hperm hnames]

/-- A directory that only comes in another order is not taken for a changed one. -/
theorem directoryChanged_of_perm (dir : List UInt8) (hperm : es.Perm es')
    (hnames : (es.map DirEntry.dName).Nodup) :
    directoryChanged dir (some es') (calcDirSignature dir (some es)) =
      (false, calcDirSignature dir (some es)) := by
  rw [directoryChanged, ← calcDirSignature_of_perm dir hperm hnames]
  simp

/-- A reload loads the modules in the same order. -/
theorem reload_of_perm (vm : VmState) (dir : List UInt8) (hperm : es.Perm es')
    (hnames : (es.map DirEntry.dName).Nodup) :
    reloadProgramsFromDirectory vm dir (some es) =
      reloadProgramsFromDirectory vm dir (some es') := by
  rw [reloadProgramsFromDirectory, reloadProgramsFromDirectory,
    collectBinFiles_of_perm dir hperm hnames]

end Order

/-- In whichever order `readdir` returns the entries of a directory, and however `qsort` sorts:
`collect_bin_files` returns the same list, in which the regular files whose last extension is `.bin`
and no others stand, in the strictly ascending order of their paths, and `calc_dir_signature`
returns the same value. -/
theorem directory_order (dir : List UInt8) {es es' : List DirEntry} (hperm : es.Perm es')
    (hnames : (es.map DirEntry.dName).Nodup) :
    (∃ files, collectBinFiles dir (some es) = some files ∧
        collectBinFiles dir (some es') = some files ∧
        (∀ f, f ∈ files ↔ ∃ e ∈ es, (e.regular = true ∧ binExtension <:+ e.dName) ∧
          f = ⟨joinPath dir e.dName, e⟩) ∧
        ((files.map BinFile.path).Pairwise fun s t => strcmpLe s t = true ∧ s ≠ t) ∧
        ∀ qsort, IsQsort qsort → qsort (es.filterMap (collectEntry dir)) = files ∧
          qsort (es'.filterMap (collectEntry dir)) = files) ∧
      calcDirSignature dir (some es) = calcDirSignature dir (some es') := by
  obtain ⟨files, hfiles, hlists⟩ := collectBinFiles_some dir hnames
  have hnames' := (hperm.map DirEntry.dName).nodup_iff.1 hnames
  have hlists' := hlists.of_mem_iff fun _ => hperm.mem_iff
  refine ⟨⟨files, hfiles, ?_, hlists.mem_iff, hlists.ascending, fun qsort hq => ?_⟩,
    calcDirSignature_of_perm dir hperm hnames⟩
  · rw [← collectBinFiles_of_perm dir hperm hnames, hfiles]
  · exact ⟨(hq.lists dir hnames).unique hlists, (hq.lists dir hnames').unique hlists'⟩

/-- The directory with `z.bin`, `a.bin`, `m.bin`, `ignore.txt` and the directory `subdir.bin`. -/
def mixedDir : List DirEntry :=
  let file := .readable [1, 2, 3, 4] (by decide)
  [.regularFile [122, 46, 98, 105, 110] file, .regularFile [97, 46, 98, 105, 110] file,
    .regularFile [109, 46, 98, 105, 110] file,
    .regularFile [105, 103, 110, 111, 114, 101, 46, 116, 120, 116] file,
    ⟨[115, 117, 98, 100, 105, 114, 46, 98, 105, 110], false, 0, 0, file⟩]

/-- Read from the other end, the directory gives the same list and the same signature. -/
theorem directory_order_mixed :
    collectBinFiles [100] (some mixedDir) = collectBinFiles [100] (some mixedDir.reverse) ∧
      calcDirSignature [100] (some mixedDir) = calcDirSignature [100] (some mixedDir.reverse) := by
  obtain ⟨⟨files, hfiles, hfiles', -⟩, hsig⟩ :=
    directory_order [100] (List.reverse_perm mixedDir).symm (by decide)
  exact ⟨hfiles.trans hfiles'.symm, hsig⟩

/-- The paths `d/a.bin`, `d/m.bin` and `d/z.bin`. -/
example : (collectBinFiles [100] (some mixedDir)).map (List.map BinFile.path) =
    some [[100, 47, 97, 46, 98, 105, 110], [100, 47, 109, 46, 98, 105, 110],
      [100, 47, 122, 46, 98, 105, 110]] := by decide

end Vm32
