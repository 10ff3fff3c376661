/-
# The output file

`main` of the assembler opens the output file before it reads the first line and writes each word
as soon as its line is assembled.  So the file that a failing run leaves behind holds the words of
the lines in front of the first bad one.
-/
import Vm32.Asm.Buffers

namespace Vm32

open CText Function

/-- The contents of the files, by their paths.  Different path strings stand for different files: there
are no links and no second spellings of a path. -/
abbrev FileSystem := List UInt8 → Option (List UInt8)

/-- `main`, for the arguments `argv[1]`, `argv[2]`, …: the exit code and the files afterwards.
Opening the output file for writing empties it. -/
def converterMain (writable : List UInt8 → Bool) (files : FileSystem) :
    List (List UInt8) → ℕ × FileSystem
  | input :: output :: options =>
    match files input with
    | none => (1, files)
    | some _ =>
      if !writable output then (1, files)
      else
        let rawHalt := options.head? == some (bytes "--raw-halt")
        let opened := update files output (some [])
        let result := assemble rawHalt ((opened input).getD [])
        (if result.2.isSome then 1 else 0, update opened output (some result.1))
  | _ => (1, files)

/-- The line stops the assembler. -/
def Rejected (rawHalt : Bool) (line : List UInt8) : Prop :=
  ∃ e, assembleLine rawHalt line = .error e

/-- The first of the lines with an instruction stops the assembler. -/
def FirstRejected (rawHalt : Bool) (lines : List (List UInt8)) : Prop :=
  ∃ line, lines.find? (fun line => lineTokens line != []) = some line ∧ Rejected rawHalt line

section Loop

variable {rawHalt : Bool} {lines : List (List UInt8)}

/-- The loop stops at the first rejected line, with nothing written if no line with an instruction
comes before it. -/
lemma assembleLoop_of_rejected (hrej : ∃ line ∈ lines, Rejected rawHalt line) (lineno : ℕ) :
    (assembleLoop rawHalt lineno lines).2.isSome ∧
      ((assembleLoop rawHalt lineno lines).1 = [] ↔ FirstRejected rawHalt lines) := by
  induction lines generalizing lineno with
  | nil => simp at hrej
  | cons line lines ih =>
    have hrest : ¬Rejected rawHalt line → ∃ line ∈ lines, Rejected rawHalt line := by
      intro hline
      obtain ⟨l, hl, hbad⟩ := hrej
      rcases List.mem_cons.1 hl with rfl | hl
      · exact absurd hbad hline
      · exact ⟨l, hl, hbad⟩
    rw [assembleLoop]
    cases htoks : lineTokens line with
    | nil =>
      have hline : assembleLine rawHalt line = .ok none := by rw [assembleLine_eq, htoks]
      have hfirst : FirstRejected rawHalt (line :: lines) ↔ FirstRejected rawHalt lines := by
        simp [FirstRejected, htoks]
      have hgood : ¬Rejected rawHalt line := by
        rintro ⟨e, he⟩
        simp [hline] at he
      rw [hline, hfirst]
      exact ih (hrest hgood) (lineno + 1)
    | cons tok operands =>
      have hfirst : FirstRejected rawHalt (line :: lines) ↔ Rejected rawHalt line := by
        simp [FirstRejected, htoks]
      cases hins : assembleTokens rawHalt tok operands with
      | error e =>
        have hline : assembleLine rawHalt line = .error e := by
          rw [assembleLine_eq, htoks]
          simp only [hins, Except.map]
        rw [hline, hfirst]
        exact ⟨rfl, iff_of_true rfl ⟨e, hline⟩⟩
      | ok ins =>
        have hline : assembleLine rawHalt line = .ok (some ins) := by
          rw [assembleLine_eq, htoks]
          simp only [hins, Except.map]
        have hgood : ¬Rejected rawHalt line := by
          rintro ⟨e, he⟩
          simp [hline] at he
        rw [hline, hfirst]
        refine ⟨(ih (hrest hgood) (lineno + 1)).1, iff_of_false (fun hnil => ?_) hgood⟩
        exact absurd (List.append_eq_nil_iff.1 hnil).1 (by simp [wordBytes])

end Loop

/-- A run for a source text with a rejected line fails and leaves no word behind if and only if the
output file is another file than the source and nothing is assembled before the first rejected
line; or the output file cannot be opened, and was missing or empty before. -/
theorem failing_run_leaves_nothing_iff {writable : List UInt8 → Bool} {files : FileSystem}
    {input output text : List UInt8} {options : List (List UInt8)}
    (hinput : files input = some text)
    (hrej : ∃ line ∈ fgets maxLine text,
      Rejected (options.head? == some (bytes "--raw-halt")) line) :
    let result := converterMain writable files (input :: output :: options)
    (result.1 ≠ 0 ∧ (result.2 output = none ∨ result.2 output = some [])) ↔
      if writable output then
        output ≠ input ∧
          FirstRejected (options.head? == some (bytes "--raw-halt")) (fgets maxLine text)
      else files output = none ∨ files output = some [] := by
  intro result
  have hresult : result = converterMain writable files (input :: output :: options) := rfl
  rw [converterMain, hinput] at hresult
  cases hwritable : writable output with
  | false =>
    simp only [hwritable, Bool.not_false, if_true] at hresult
    simp [hresult]
  | true =>
    simp only [hwritable, Bool.not_true, Bool.false_eq_true, if_false] at hresult
    by_cases hsame : output = input
    · -- the source is emptied before it is read
      subst hsame
      have hempty : ∀ rawHalt, assemble rawHalt [] = ([], none) := fun _ => rfl
      simp [hresult, hempty]
    · obtain ⟨hfails, hwritten⟩ := assembleLoop_of_rejected hrej 0
      rw [update_of_ne (Ne.symm hsame), hinput] at hresult
      simp only [Option.getD_some, assemble, hfails, if_true] at hresult
      simp [hresult, hsame, hwritten]

/-- The source text `text` in the file `a`, alone. -/
def sourceOnly (text : String) : FileSystem := fun path =>
  if path = bytes "a" then some (bytes text) else none

lemma rejected_bad : Rejected false (bytes "bad\n") := ⟨.unknownOpcode (bytes "bad"), rfl⟩

/-- A text whose first line is bad. -/
theorem failing_run_leaves_nothing_iff_bad :
    let result := converterMain (fun _ => true) (sourceOnly "bad\nnop\n") [bytes "a", bytes "b"]
    (result.1 ≠ 0 ∧ (result.2 (bytes "b") = none ∨ result.2 (bytes "b") = some [])) ↔
      if true then
        bytes "b" ≠ bytes "a" ∧ FirstRejected false (fgets maxLine (bytes "bad\nnop\n"))
      else sourceOnly "bad\nnop\n" (bytes "b") = none ∨
        sourceOnly "bad\nnop\n" (bytes "b") = some [] :=
  failing_run_leaves_nothing_iff (rfl : sourceOnly "bad\nnop\n" (bytes "a") = some (bytes "bad\nnop\n"))
    ⟨bytes "bad\n", by decide +kernel, rejected_bad⟩

/-- A text whose second line is bad leaves the word of the first one behind. -/
theorem failing_run_leaves_word :
    ¬∀ text : String, (∃ line ∈ fgets maxLine (bytes text), Rejected false line) →
      let result := converterMain (fun _ => true) (sourceOnly text) [bytes "a", bytes "b"]
      result.1 ≠ 0 ∧ (result.2 (bytes "b") = none ∨ result.2 (bytes "b") = some []) := by
  intro hall
  have hnothing := hall "nop\nbad\n" ⟨bytes "bad\n", by decide +kernel, rejected_bad⟩
  revert hnothing
  decide +kernel

end Vm32
