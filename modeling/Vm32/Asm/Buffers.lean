/-
# What the assembler emits

The output depends on the buffers only through their tokens: buffers without tokens are skipped,
every other one yields a word or ends the run.  So a text is assembled without an error exactly if
each nonempty token list among its buffers has a word, and the output is then the words in order.
-/
import Vm32.Asm.Converter

namespace Vm32

open CText

/-- The token lists of the buffers that are not skipped. -/
def instructionTokens (bufs : List (List UInt8)) : List (List (List UInt8)) :=
  (bufs.map lineTokens).filter (· != [])

/-- The tokens are assembled to the word. -/
def HasWord (rawHalt : Bool) (toks : List (List UInt8)) (word : UInt32) : Prop :=
  ∃ tok ops ins, toks = tok :: ops ∧ assembleTokens rawHalt tok ops = .ok ins ∧
    word = packWord ins

/-- The words of the buffers, in order. -/
def Emits (rawHalt : Bool) (bufs : List (List UInt8)) (words : List UInt32) : Prop :=
  List.Forall₂ (HasWord rawHalt) (instructionTokens bufs) words

variable {rawHalt : Bool}

section Tokens

@[simp] lemma instructionTokens_nil : instructionTokens [] = [] := rfl

lemma instructionTokens_append (s t : List (List UInt8)) :
    instructionTokens (s ++ t) = instructionTokens s ++ instructionTokens t := by
  simp [instructionTokens]

lemma instructionTokens_cons (buf : List UInt8) (bufs : List (List UInt8)) :
    instructionTokens (buf :: bufs) =
      (if lineTokens buf = [] then [] else [lineTokens buf]) ++ instructionTokens bufs := by
  by_cases h : lineTokens buf = [] <;> simp [instructionTokens, h]

@[simp] lemma lineTokens_nil : lineTokens [] = [] := rfl

lemma takeWhile_append_newline (p : List UInt8) :
    (p ++ [10]).takeWhile (· != 10) = p.takeWhile (· != 10) := by
  induction p with
  | nil => rfl
  | cons c p ih => rw [List.cons_append, List.takeWhile_cons, List.takeWhile_cons, ih]

/-- The newline at the end of a line does not matter. -/
lemma lineTokens_append_newline (line : List UInt8) :
    lineTokens (line ++ [10]) = lineTokens line := by
  have hcode : codePart ((line ++ [10]).dropWhile isSpace) = codePart (line.dropWhile isSpace) := by
    rw [List.dropWhile_append]
    split_ifs with hnil
    · rw [List.isEmpty_iff.1 hnil]
      rfl
    · rw [codePart, takeWhile_append_newline, codePart]
  rw [lineTokens, hcode, lineTokens]

end Tokens

/-! ### The loop -/

/-- A run without an error emits the words of its buffers. -/
theorem assembleLoop_eq_iff {lineno : ℕ} {bufs : List (List UInt8)} {out : List UInt8} :
    assembleLoop rawHalt lineno bufs = (out, none) ↔
      ∃ words, Emits rawHalt bufs words ∧ out = words.flatMap wordBytes := by
  induction bufs generalizing lineno out with
  | nil =>
    constructor
    · rintro ⟨⟩
      exact ⟨[], .nil, rfl⟩
    · rintro ⟨words, hwords, rfl⟩
      obtain rfl := List.forall₂_nil_left_iff.1 hwords
      rfl
  | cons buf bufs ih =>
    simp only [Emits, instructionTokens_cons]
    rw [assembleLoop, assembleLine_eq]
    cases hline : lineTokens buf with
    -- a blank line emits nothing
    | nil => exact ih
    | cons tok ops =>
      simp only [reduceCtorEq, if_false, List.singleton_append, List.forall₂_cons_left_iff]
      cases hins : assembleTokens rawHalt tok ops with
      | error e =>
        -- the loop ends at the first bad line, so it does not succeed
        simp only [Except.map, Prod.mk.injEq, reduceCtorEq, and_false, false_iff]
        rintro ⟨_, ⟨w, ws, ⟨_, _, ins, ⟨⟩, hok, -⟩, -⟩, -⟩
        rw [hins] at hok
        cases hok
      | ok ins =>
        have hrest := @ih (lineno + 1)
        simp only [Except.map, Prod.mk.injEq]
        constructor
        · rintro ⟨rfl, hnone⟩
          obtain ⟨ws, hws, hout⟩ := hrest.1 (Prod.ext rfl hnone)
          exact ⟨packWord ins :: ws, ⟨_, ws, ⟨tok, ops, ins, rfl, hins, rfl⟩, hws, rfl⟩, by
            rw [List.flatMap_cons, ← hout]⟩
        · rintro ⟨_, ⟨w, ws, ⟨_, _, ins', ⟨⟩, hok, rfl⟩, hws, rfl⟩, rfl⟩
          obtain rfl : ins = ins' := Except.ok.inj (hins.symm.trans hok)
          rw [hrest.2 ⟨ws, hws, rfl⟩]
          exact ⟨rfl, rfl⟩

theorem assemble_eq_iff {text out : List UInt8} :
    assemble rawHalt text = (out, none) ↔
      ∃ words, Emits rawHalt (fgets maxLine text) words ∧ out = words.flatMap wordBytes :=
  assembleLoop_eq_iff

/-! ### The buffers of a text -/

/-- Whether a line is ended by a newline or by the end of the file makes no difference. -/
lemma instructionTokens_fgetsLoop_newline {size room : ℕ} {buf l : List UInt8} (hnl : 10 ∉ l) :
    instructionTokens (fgetsLoop size room buf (l ++ [10])) =
      instructionTokens (fgetsLoop size room buf l) := by
  induction l generalizing room buf with
  | nil =>
    have hflush : instructionTokens (fgetsLoop size room buf []) = instructionTokens [buf] := by
      rw [fgetsLoop]
      split_ifs with hbuf
      · rw [hbuf]
        rfl
      · rfl
    rw [hflush, List.nil_append, fgetsLoop, if_pos (Or.inl rfl)]
    simp only [instructionTokens_cons, lineTokens_append_newline, fgetsLoop, if_true]
  | cons c l ih =>
    have hl : 10 ∉ l := fun h => hnl (List.mem_cons_of_mem c h)
    simp only [List.cons_append, fgetsLoop]
    split_ifs
    · rw [instructionTokens_cons, instructionTokens_cons, ih hl]
    · exact ih hl

/-- The instructions of a text are those of its lines, each read on its own. -/
theorem instructionTokens_fgets (size : ℕ) (text : List UInt8) :
    instructionTokens (fgets size text) =
      (text.splitOn 10).flatMap fun l => instructionTokens (fgets size l) := by
  induction hn : text.length using Nat.strong_induction_on generalizing text with
  | _ n ih =>
    by_cases hmem : (10 : UInt8) ∈ text
    · obtain ⟨l, s, rfl, hl⟩ := List.eq_append_cons_of_mem hmem
      have hlen : s.length < n := by
        rw [← hn, List.length_append, List.length_cons]
        omega
      rw [fgets_append_newline, instructionTokens_append, ih _ hlen s rfl,
        List.splitOn_append_cons_self_of_not_mem hl, List.flatMap_cons]
      congr 1
      exact instructionTokens_fgetsLoop_newline hl
    · rw [List.splitOn_eq_singleton hmem, List.flatMap_cons, List.flatMap_nil, List.append_nil]

lemma wordBytes_injective {v w : UInt32} (h : wordBytes v = wordBytes w) : v = w := by
  have hv := v.toNat_lt
  have hw := w.toNat_lt
  have hbyte : ∀ k (hk : k < 4), v.toNat / 2 ^ (8 * k) % 256 = w.toNat / 2 ^ (8 * k) % 256 := by
    intro k hk
    rw [← toNat_wordBytes v hk, ← toNat_wordBytes w hk]
    exact congrArg UInt8.toNat (List.getElem_of_eq h hk)
  have h₀ := hbyte 0 (by norm_num)
  have h₁ := hbyte 1 (by norm_num)
  have h₂ := hbyte 2 (by norm_num)
  have h₃ := hbyte 3 (by norm_num)
  rw [← UInt32.toNat_inj]
  omega

/-- A file with one line that fits into the buffer. -/
theorem assemble_line_iff {line : List UInt8} {word : UInt32} (hnl : 10 ∉ line)
    (hlen : line.length < maxLine) :
    assemble rawHalt (line ++ [10]) = (wordBytes word, none) ↔
      HasWord rawHalt (lineTokens line) word := by
  have htokens : instructionTokens (fgets maxLine (line ++ [10])) = instructionTokens [line] := by
    rw [fgets, instructionTokens_fgetsLoop_newline hnl]
    change instructionTokens (fgets maxLine line) = _
    by_cases hline : line = []
    · rw [hline]
      rfl
    · rw [fgets_line hnl hlen hline]
  rw [assemble_eq_iff]
  simp only [Emits, htokens, instructionTokens_cons, instructionTokens_nil, List.append_nil]
  split_ifs with hline
  · -- a line without tokens has no word and emits nothing
    rw [hline]
    constructor
    · rintro ⟨words, hwords, hout⟩
      rw [List.forall₂_nil_left_iff.1 hwords] at hout
      cases hout
    · rintro ⟨_, _, _, ⟨⟩, -⟩
  · constructor
    · rintro ⟨words, hwords, hout⟩
      obtain ⟨w, ws, hw, hws, rfl⟩ := List.forall₂_cons_left_iff.1 hwords
      obtain rfl := List.forall₂_nil_left_iff.1 hws
      rw [List.flatMap_cons, List.flatMap_nil, List.append_nil] at hout
      rwa [wordBytes_injective hout]
    · intro hw
      exact ⟨[word], .cons hw .nil, by simp⟩

end Vm32
