/-
# Lines longer than the buffer

A line that does not fit into the buffer is read in pieces, and each piece is treated as a line of
its own.  Whether the text is assembled line by line therefore depends on the pieces: those of a
comment must all be blank up to their first semicolon, and of the pieces of an instruction exactly
one may be anything else.  Then the piece with the instruction has all of it: the pieces around it
add white space to the last operand at most, at which `strtol` stops.
-/
import Vm32.Asm.Grammar

namespace Vm32

open CText

/-- The piece is skipped. -/
def Silent (piece : List UInt8) : Prop := lineTokens piece = []

instance : DecidablePred Silent := fun piece => inferInstanceAs (Decidable (lineTokens piece = []))

/-- The number of pieces of a line that are not skipped. -/
def loudPieces (line : List UInt8) : ℕ := (fgets maxLine line).countP fun piece => ¬Silent piece

/-- The line is read as a whole: a comment or blank line has only pieces that are skipped, an
instruction has one other piece. -/
def ReadWhole (line : List UInt8) : Prop := loudPieces line = if Silent line then 0 else 1

instance : DecidablePred ReadWhole := fun line =>
  inferInstanceAs (Decidable (loudPieces line = if Silent line then 0 else 1))

/-- The bytes that belong to a line on its own. -/
def lineBytes (rawHalt : Bool) (line : List UInt8) : List UInt8 :=
  match assembleLine rawHalt line with
  | .ok (some ins) => wordBytes (packWord ins)
  | _ => []

/-! ### Lines as the concatenation of their pieces -/

/-- The instruction text of a line without newline. -/
def codeText (line : List UInt8) : List UInt8 := (line.dropWhile isSpace).takeWhile (· != 59)

section Pieces

variable {a b line : List UInt8}

/-- The buffers hold the text. -/
lemma fgetsLoop_flatten (size room : ℕ) (buf s : List UInt8) :
    (fgetsLoop size room buf s).flatten = buf ++ s := by
  induction s generalizing room buf with
  | nil =>
    rw [fgetsLoop]
    split_ifs with hbuf
    · simp [hbuf]
    · simp
  | cons c s ih =>
    rw [fgetsLoop]
    split_ifs
    · rw [List.flatten_cons, ih, List.append_assoc]
      rfl
    · rw [ih, List.append_assoc]
      rfl

lemma fgets_flatten (size : ℕ) (s : List UInt8) : (fgets size s).flatten = s :=
  fgetsLoop_flatten size (size - 1) [] s

/-- The text is a part of one line: without NUL and newline. -/
def InLine (s : List UInt8) : Prop := 0 ∉ s ∧ 10 ∉ s

lemma inLine_append : InLine (a ++ b) ↔ InLine a ∧ InLine b := by
  simp only [InLine, List.mem_append, not_or]
  tauto

lemma lineTokens_eq (h : InLine line) : lineTokens line = tokens isDelim (codeText line) := by
  have hsub : ∀ c ∈ codePart (line.dropWhile isSpace), c ∈ line := fun c hc =>
    (List.dropWhile_suffix isSpace).subset
      ((List.takeWhile_prefix _).subset ((List.takeWhile_prefix _).subset hc))
  have h10 : (line.dropWhile isSpace).takeWhile (· != 10) = line.dropWhile isSpace := by
    refine List.takeWhile_eq_self_iff.2 fun c hc => ?_
    rw [bne_iff_ne]
    rintro rfl
    exact h.2 ((List.dropWhile_suffix isSpace).subset hc)
  rw [lineTokens, cstr_of_not_mem fun h0 => h.1 (hsub 0 h0), codePart, h10, codeText]

/-- Behind the leading white space there is a semicolon if there is one at all. -/
lemma mem_dropWhile_isSpace : 59 ∈ a.dropWhile isSpace ↔ 59 ∈ a := by
  constructor
  · exact fun h => (List.dropWhile_suffix isSpace).subset h
  · intro h
    rw [← List.takeWhile_append_dropWhile (p := isSpace) (l := a), List.mem_append] at h
    rcases h with h | h
    · exact absurd (List.mem_takeWhile_imp h) (by decide)
    · exact h

lemma dropWhile_append_of_ne_nil (hne : a.dropWhile isSpace ≠ []) :
    (a ++ b).dropWhile isSpace = a.dropWhile isSpace ++ b := by
  rw [List.dropWhile_append, if_neg]
  rwa [List.isEmpty_iff]

/-- Text behind a comment does not matter. -/
lemma codeText_append_of_mem (h : 59 ∈ a) : codeText (a ++ b) = codeText a := by
  have hmem := mem_dropWhile_isSpace.2 h
  rw [codeText, dropWhile_append_of_ne_nil (List.ne_nil_of_mem hmem), List.takeWhile_append,
    if_neg, codeText]
  intro hlen
  have hall := (List.takeWhile_prefix (· != (59 : UInt8))).eq_of_length hlen
  exact absurd (List.takeWhile_eq_self_iff.1 hall 59 hmem) (by decide)

lemma takeWhile_of_not_mem (h : 59 ∉ a) : a.takeWhile (· != 59) = a := by
  refine List.takeWhile_eq_self_iff.2 fun c hc => ?_
  rw [bne_iff_ne]
  rintro rfl
  exact h hc

/-- Without a comment the text goes on, and the leading white space that is skipped for a line on
its own is a part of it. -/
lemma codeText_append_of_not_mem (h : 59 ∉ a) (hne : a.dropWhile isSpace ≠ []) :
    codeText (a ++ b) = codeText a ++ (b.takeWhile isSpace ++ codeText b) := by
  have hmem : 59 ∉ a.dropWhile isSpace := fun h' => h (mem_dropWhile_isSpace.1 h')
  have hspace : 59 ∉ b.takeWhile isSpace := fun h' =>
    absurd (List.mem_takeWhile_imp h') (by decide)
  have hb : b.takeWhile (· != 59) = b.takeWhile isSpace ++ codeText b := by
    conv_lhs => rw [← List.takeWhile_append_dropWhile (p := isSpace) (l := b)]
    rw [List.takeWhile_append, takeWhile_of_not_mem hspace, if_pos rfl, codeText]
  have ha : codeText a = a.dropWhile isSpace := takeWhile_of_not_mem hmem
  rw [ha, ← hb, codeText, dropWhile_append_of_ne_nil hne, List.takeWhile_append,
    takeWhile_of_not_mem hmem, if_pos rfl]

/-- White space alone is skipped. -/
lemma codeText_append_of_space (h : a.dropWhile isSpace = []) :
    codeText (a ++ b) = codeText b := by
  rw [codeText, List.dropWhile_append, if_pos (List.isEmpty_iff.2 h), codeText]

end Pieces

/-! ### Pieces around an instruction -/

section Around

variable {rawHalt : Bool} {a b : List UInt8} {word : UInt32}

/-- Pieces in front of an instruction that are skipped hold only what is skipped in front of a
mnemonic. -/
lemma hasWord_of_silent_append (hline : InLine (a ++ b)) (ha : Silent a)
    (hword : HasWord rawHalt (lineTokens (a ++ b)) word) : HasWord rawHalt (lineTokens b) word := by
  obtain ⟨hlinea, hlineb⟩ := inLine_append.1 hline
  rw [lineTokens_eq hline] at hword
  rw [lineTokens_eq hlineb]
  rw [Silent, lineTokens_eq hlinea] at ha
  by_cases hne : a.dropWhile isSpace = []
  · rwa [codeText_append_of_space hne] at hword
  by_cases h59 : 59 ∈ a
  · rw [codeText_append_of_mem h59, ha] at hword
    obtain ⟨_, _, _, ⟨⟩, -⟩ := hword
  -- now the white space in front of `b` is in the middle of the instruction text
  rw [codeText_append_of_not_mem h59 hne, tokens_append_delims (tokens_eq_nil_iff.1 ha)] at hword
  have hspace : ∀ s : List UInt8, (∀ x ∈ s, isSpace x = true) →
      HasWord rawHalt (tokens isDelim (s ++ codeText b)) word →
      HasWord rawHalt (tokens isDelim (codeText b)) word := by
    intro s hs hword
    induction s with
    | nil => exact hword
    | cons x s ih =>
      cases hx : isDelim x with
      | true =>
        rw [List.cons_append, tokens_cons_delim hx] at hword
        exact ih (fun y hy => hs y (List.mem_cons_of_mem x hy)) hword
      | false =>
        -- a mnemonic does not start with white space
        rw [List.cons_append, tokens_first hx] at hword
        obtain ⟨_, _, ins, ⟨⟩, ⟨hop, -⟩, -⟩ := hasWord_iff.1 hword
        have := mnemonic_not_isSpace hop x List.mem_cons_self
        rw [hs x List.mem_cons_self] at this
        cases this
  exact hspace _ (fun x hx => List.mem_takeWhile_imp hx) hword

lemma parseNumber_append_space {x : UInt8} (hx : isSpace x) (s : List UInt8) :
    parseNumber (s ++ [x]) = parseNumber s := by
  have h := strtol_append_space hx s
  simp only [parseNumber]
  cases hr : strtol s with
  | none =>
    rw [hr, Option.map_none, Option.map_eq_none_iff] at h
    rw [h]
  | some r =>
    rw [hr, Option.map_some, Option.map_eq_some_iff] at h
    obtain ⟨r', hr', heq⟩ := h
    rw [hr']
    simp only [Prod.mk.injEq] at heq
    simp only [heq.1, heq.2]

/-- White space behind an operand does not matter. -/
lemma parseReg_append_space {x : UInt8} (hx : isSpace x) {tok : List UInt8} (hne : tok ≠ []) :
    parseReg (tok ++ [x]) = parseReg tok := by
  obtain ⟨c, s, rfl⟩ := List.exists_cons_of_ne_nil hne
  simp only [List.cons_append, parseReg, parseNumber_append_space hx]

lemma parseImmediate_append_space {x : UInt8} (hx : isSpace x) {tok : List UInt8}
    (hne : tok ≠ []) : parseImmediate (tok ++ [x]) = parseImmediate tok := by
  obtain ⟨c, s, rfl⟩ := List.exists_cons_of_ne_nil hne
  simp only [List.cons_append, parseImmediate, parseNumber_append_space hx]

/-- White space on its own is not an operand. -/
lemma parseReg_space {x : UInt8} (hx : isSpace x) : parseReg [x] = none := by
  have hr : (toLower x != 114) = true := by
    rw [bne_iff_ne, Ne, toLower_eq_r]
    rintro (rfl | rfl) <;> exact absurd hx (by decide)
  rw [parseReg, hr, if_pos rfl]

lemma parseImmediate_space {x : UInt8} (hx : isSpace x) : parseImmediate [x] = none := by
  have hr : (x != 35) = true := by
    rw [bne_iff_ne]
    rintro rfl
    exact absurd hx (by decide)
  rw [parseImmediate, hr, if_pos rfl]

/-- Whatever is read from the one operand is read from the other. -/
def ReadsAs (t u : Option (List UInt8)) : Prop :=
  (∀ v, ReadsReg t v → ReadsReg u v) ∧ ∀ e o, ReadsC e t o → ReadsC e u o

lemma ReadsAs.refl (t : Option (List UInt8)) : ReadsAs t t := ⟨fun _ h => h, fun _ _ h => h⟩

lemma readsAs_of_space {x : UInt8} (hx : isSpace x) (u : Option (List UInt8)) :
    ReadsAs (some [x]) u := by
  constructor
  · rintro v ⟨h, -⟩
    rw [parseReg_space hx] at h
    cases h
  · rintro e (v | v) h
    · rw [ReadsC, parseReg_space hx] at h
      cases h.1
    · rw [ReadsC, parseImmediate_space hx] at h
      cases h.2.2.1

lemma readsAs_append_space {x : UInt8} (hx : isSpace x) {tok : List UInt8} (hne : tok ≠ []) :
    ReadsAs (some (tok ++ [x])) (some tok) := by
  constructor
  · intro v h
    rwa [ReadsReg, parseReg_append_space hx hne] at h
  · rintro e (v | v) h
    · rwa [ReadsC, parseReg_append_space hx hne] at h
    · rwa [ReadsC, parseReg_append_space hx hne, parseImmediate_append_space hx hne] at h

lemma ReadsOperands.imp {ops ops' : List (List UInt8)} {ins : AsmInstr}
    (h : ∀ k : ℕ, ReadsAs ops[k]? ops'[k]?) (hops : ReadsOperands ops ins) :
    ReadsOperands ops' ins :=
  ⟨(h 0).1 _ hops.areg, (h 1).1 _ hops.breg, (h 2).2 _ _ hops.cop⟩

/-- A white space character behind an instruction does not matter, even if it is not a
delimiter. -/
lemma hasWord_of_append_space {x : UInt8} (hx : isSpace x) {s : List UInt8}
    (hne : tokens isDelim s ≠ []) (hword : HasWord rawHalt (tokens isDelim (s ++ [x])) word) :
    HasWord rawHalt (tokens isDelim s) word := by
  cases hdelim : isDelim x with
  | true => rwa [tokens_append_right (by simpa using hdelim)] at hword
  | false =>
    obtain ⟨tok, ops, ins, htoks, ⟨hop, hread⟩, rfl⟩ := hasWord_iff.1 hword
    rcases tokens_concat hdelim s with hsplit | ⟨pre, u, hs, hsplit⟩
    · -- the character would be an operand of its own
      obtain ⟨tok', ops', hs⟩ := List.exists_cons_of_ne_nil hne
      rw [hs, List.cons_append, htoks] at hsplit
      obtain ⟨rfl, rfl⟩ := List.cons.inj hsplit
      refine hasWord_iff.2 ⟨tok, ops', ins, hs, ⟨hop, hread.imp fun k => ?_⟩, rfl⟩
      rcases Nat.lt_trichotomy k ops'.length with hk | rfl | hk
      · rw [List.getElem?_append_left hk]
        exact .refl _
      · rw [List.getElem?_concat_length]
        exact readsAs_of_space hx _
      · rw [List.getElem?_eq_none (by simpa using hk), List.getElem?_eq_none hk.le]
        exact .refl _
    · -- the character is the end of the last token
      have hu : u ≠ [] := ne_nil_of_mem_tokens (hs ▸ List.mem_append_right pre List.mem_cons_self)
      rw [htoks] at hsplit
      rcases pre with _ | ⟨tok', pre⟩
      · -- a mnemonic does not end with white space
        obtain ⟨rfl, rfl⟩ := List.cons.inj hsplit
        have := mnemonic_not_isSpace hop x (List.mem_append_right u List.mem_cons_self)
        rw [hx] at this
        cases this
      · rw [List.cons_append] at hs hsplit
        obtain ⟨rfl, rfl⟩ := List.cons.inj hsplit
        refine hasWord_iff.2 ⟨tok, pre ++ [u], ins, hs, ⟨hop, hread.imp fun k => ?_⟩, rfl⟩
        rcases Nat.lt_trichotomy k pre.length with hk | rfl | hk
        · rw [List.getElem?_append_left hk, List.getElem?_append_left hk]
          exact .refl _
        · rw [List.getElem?_concat_length, List.getElem?_concat_length]
          exact readsAs_append_space hx hu
        · rw [List.getElem?_eq_none (by simpa using hk), List.getElem?_eq_none (by simpa using hk)]
          exact .refl _

/-- Pieces behind an instruction that are skipped do not matter. -/
lemma hasWord_of_append_silent (hline : InLine (a ++ b)) (ha : ¬Silent a) (hb : Silent b)
    (hword : HasWord rawHalt (lineTokens (a ++ b)) word) : HasWord rawHalt (lineTokens a) word := by
  obtain ⟨hlinea, hlineb⟩ := inLine_append.1 hline
  rw [lineTokens_eq hline] at hword
  rw [Silent, lineTokens_eq hlinea] at ha
  rw [Silent, lineTokens_eq hlineb] at hb
  rw [lineTokens_eq hlinea]
  by_cases h59 : 59 ∈ a
  · -- `b` lies in the comment that starts in `a`
    rwa [codeText_append_of_mem h59] at hword
  by_cases hne : a.dropWhile isSpace = []
  · rw [codeText, hne] at ha
    exact absurd tokens_nil ha
  rw [codeText_append_of_not_mem h59 hne, ← List.append_assoc,
    tokens_append_right (tokens_eq_nil_iff.1 hb)] at hword
  -- white space at the end of the code may be taken off, one character after another
  have hspace : ∀ s : List UInt8, (∀ x ∈ s, isSpace x = true) →
      HasWord rawHalt (tokens isDelim (codeText a ++ s)) word →
      HasWord rawHalt (tokens isDelim (codeText a)) word := by
    intro s hs hword
    induction s using List.reverseRecOn with
    | nil => rwa [List.append_nil] at hword
    | append_singleton s x ih =>
      rw [← List.append_assoc] at hword
      have hnonempty : tokens isDelim (codeText a ++ s) ≠ [] := by
        intro hnil
        refine ha (tokens_eq_nil_iff.2 fun y hy => ?_)
        exact tokens_eq_nil_iff.1 hnil y (List.mem_append_left s hy)
      exact ih (fun y hy => hs y (List.mem_append_left [x] hy))
        (hasWord_of_append_space (hs x (by simp)) hnonempty hword)
  exact hspace _ (fun x hx => List.mem_takeWhile_imp hx) hword

/-- What is not skipped stays so if the line goes on. -/
lemma not_silent_append (hline : InLine (a ++ b)) (ha : ¬Silent a) : ¬Silent (a ++ b) := by
  obtain ⟨hlinea, -⟩ := inLine_append.1 hline
  rw [Silent, lineTokens_eq hlinea] at ha
  rw [Silent, lineTokens_eq hline]
  by_cases h59 : 59 ∈ a
  · rwa [codeText_append_of_mem h59]
  by_cases hne : a.dropWhile isSpace = []
  · rw [codeText, hne] at ha
    exact absurd tokens_nil ha
  intro hnil
  rw [codeText_append_of_not_mem h59 hne] at hnil
  exact ha (tokens_eq_nil_iff.2 fun y hy =>
    tokens_eq_nil_iff.1 hnil y (List.mem_append_left _ hy))

end Around

/-! ### The pieces of one line -/

section OneLine

variable {rawHalt : Bool} {pieces : List (List UInt8)} {word : UInt32}

lemma length_instructionTokens (pieces : List (List UInt8)) :
    (instructionTokens pieces).length = pieces.countP fun piece => ¬Silent piece := by
  induction pieces with
  | nil => rfl
  | cons piece pieces ih =>
    rw [instructionTokens_cons, List.length_append, ih, List.countP_cons]
    by_cases h : Silent piece
    · have : lineTokens piece = [] := h
      simp [h, this]
    · have : lineTokens piece ≠ [] := h
      simp [h, this, Nat.add_comm]

/-- At least one piece of an instruction is not skipped. -/
lemma loud_of_hasWord (hline : InLine pieces.flatten)
    (hword : HasWord rawHalt (lineTokens pieces.flatten) word) :
    0 < pieces.countP fun piece => ¬Silent piece := by
  induction pieces with
  | nil =>
    obtain ⟨_, _, _, ⟨⟩, -⟩ := hword
  | cons piece pieces ih =>
    rw [List.flatten_cons] at hline hword
    rw [List.countP_cons]
    by_cases h : Silent piece
    · have := ih (inLine_append.1 hline).2 (hasWord_of_silent_append hline h hword)
      omega
    · simp [h]

lemma hasWord_of_append_all_silent {piece : List UInt8} (hline : InLine (piece ++ pieces.flatten))
    (hpiece : ¬Silent piece) (hall : ∀ p ∈ pieces, Silent p)
    (hword : HasWord rawHalt (lineTokens (piece ++ pieces.flatten)) word) :
    HasWord rawHalt (lineTokens piece) word := by
  induction pieces generalizing piece with
  | nil => rwa [List.flatten_nil, List.append_nil] at hword
  | cons p pieces ih =>
    rw [List.flatten_cons, ← List.append_assoc] at hline hword
    have hpre := (inLine_append.1 hline).1
    obtain ⟨hp, hrest⟩ := List.forall_mem_cons.1 hall
    exact hasWord_of_append_silent hpre hpiece hp
      (ih hline (not_silent_append hpre hpiece) hrest hword)

/-- If only one piece of an instruction is not skipped, the piece is the instruction. -/
lemma emits_of_one_loud (hline : InLine pieces.flatten)
    (hword : HasWord rawHalt (lineTokens pieces.flatten) word)
    (hone : (pieces.countP fun piece => ¬Silent piece) = 1) : Emits rawHalt pieces [word] := by
  induction pieces with
  | nil => simp at hone
  | cons piece pieces ih =>
    rw [List.flatten_cons] at hline hword
    rw [List.countP_cons] at hone
    rw [Emits, instructionTokens_cons]
    by_cases h : Silent piece
    · have hnil : lineTokens piece = [] := h
      rw [if_pos hnil]
      exact ih (inLine_append.1 hline).2 (hasWord_of_silent_append hline h hword)
        (by simpa [h] using hone)
    · have hne : lineTokens piece ≠ [] := h
      have hzero : (pieces.countP fun p => ¬Silent p) = 0 := by simpa [h] using hone
      have hall : ∀ p ∈ pieces, Silent p := by simpa using hzero
      have hrest : instructionTokens pieces = [] := by
        rw [← List.length_eq_zero_iff, length_instructionTokens, hzero]
      rw [if_neg hne, hrest]
      exact .cons (hasWord_of_append_all_silent hline h hall hword) .nil

end OneLine

/-! ### Texts -/

section Texts

variable {rawHalt : Bool} {line : List UInt8}

/-- A valid line is skipped, or it has a word. -/
lemma valid_line_cases (hvalid : ∃ r, assembleLine rawHalt line = .ok r) :
    (Silent line ∧ lineBytes rawHalt line = []) ∨
      ∃ word, HasWord rawHalt (lineTokens line) word ∧ lineBytes rawHalt line = wordBytes word := by
  obtain ⟨_ | ins, hr⟩ := hvalid
  · refine Or.inl ⟨?_, by rw [lineBytes, hr]⟩
    rw [assembleLine_eq] at hr
    cases hline : lineTokens line with
    | nil => exact hline
    | cons tok ops =>
      simp only [hline] at hr
      cases h : assembleTokens rawHalt tok ops <;> rw [h] at hr <;> cases hr
  · obtain ⟨tok, ops, htoks, hop, hread⟩ := assembleLine_some_iff.1 hr
    exact Or.inr ⟨_, hasWord_iff.2 ⟨tok, ops, ins, htoks, ⟨hop, hread⟩, rfl⟩, by
      rw [lineBytes, hr]⟩

lemma not_silent_of_hasWord {word : UInt32} (h : HasWord rawHalt (lineTokens line) word) :
    ¬Silent line := by
  intro hs
  rw [hs] at h
  obtain ⟨_, _, _, ⟨⟩, -⟩ := h

/-- A valid line has at least the piece with its instruction. -/
lemma le_loudPieces (hline : InLine line) (hvalid : ∃ r, assembleLine rawHalt line = .ok r) :
    (lineBytes rawHalt line).length = 4 * (if Silent line then 0 else 1) ∧
      (if Silent line then 0 else 1) ≤ loudPieces line := by
  rcases valid_line_cases hvalid with ⟨hs, hbytes⟩ | ⟨word, hword, hbytes⟩
  · simp [hs, hbytes]
  · have hflat : (fgets maxLine line).flatten = line := fgets_flatten maxLine line
    rw [if_neg (not_silent_of_hasWord hword), hbytes]
    rw [← hflat] at hword hline
    exact ⟨length_wordBytes word, loud_of_hasWord hline hword⟩

/-- A valid line that is read as a whole contributes its own bytes. -/
lemma emits_of_readWhole (hline : InLine line) (hvalid : ∃ r, assembleLine rawHalt line = .ok r)
    (hwhole : ReadWhole line) :
    ∃ words, Emits rawHalt (fgets maxLine line) words ∧
      words.flatMap wordBytes = lineBytes rawHalt line := by
  have hflat : (fgets maxLine line).flatten = line := fgets_flatten maxLine line
  rcases valid_line_cases hvalid with ⟨hs, hbytes⟩ | ⟨word, hword, hbytes⟩
  · rw [ReadWhole, if_pos hs, loudPieces, ← length_instructionTokens,
      List.length_eq_zero_iff] at hwhole
    refine ⟨[], ?_, by rw [hbytes, List.flatMap_nil]⟩
    rw [Emits, hwhole]
    exact .nil
  · rw [ReadWhole, if_neg (not_silent_of_hasWord hword)] at hwhole
    rw [← hflat] at hword hline
    exact ⟨[word], emits_of_one_loud hline hword hwhole, by
      rw [hbytes, List.flatMap_cons, List.flatMap_nil, List.append_nil]⟩

/-- The lines of a text are without newline, and without NUL if the text is. -/
lemma inLine_of_mem_splitOn {text : List UInt8} (hnul : 0 ∉ text) :
    ∀ l ∈ text.splitOn 10, InLine l := by
  induction hn : text.length using Nat.strong_induction_on generalizing text with
  | _ n ih =>
    by_cases hmem : (10 : UInt8) ∈ text
    · obtain ⟨l, s, rfl, hl⟩ := List.eq_append_cons_of_mem hmem
      have hlen : s.length < n := by
        rw [← hn, List.length_append, List.length_cons]
        omega
      have hs : 0 ∉ s := fun h => hnul (List.mem_append_right l (List.mem_cons_of_mem 10 h))
      rw [List.splitOn_append_cons_self_of_not_mem hl, List.forall_mem_cons]
      exact ⟨⟨fun h => hnul (List.mem_append_left _ h), hl⟩, ih _ hlen hs rfl⟩
    · rw [List.splitOn_eq_singleton hmem, List.forall_mem_singleton]
      exact ⟨hnul, hmem⟩

/-- The number of pieces that are not skipped, for all lines. -/
lemma length_flatMap_pieces (lines : List (List UInt8)) :
    (lines.flatMap fun l => instructionTokens (fgets maxLine l)).length =
      (lines.map loudPieces).sum := by
  simp only [List.length_flatMap, length_instructionTokens]
  rfl

/-- Pieces that are not skipped make the output longer than what belongs to the lines, unless each
line is read as a whole. -/
lemma length_lineBytes_le {lines : List (List UInt8)} (hlines : ∀ l ∈ lines, InLine l)
    (hvalid : ∀ l ∈ lines, ∃ r, assembleLine rawHalt l = .ok r) :
    (lines.flatMap (lineBytes rawHalt)).length ≤ 4 * (lines.map loudPieces).sum ∧
      ((lines.flatMap (lineBytes rawHalt)).length = 4 * (lines.map loudPieces).sum →
        ∀ l ∈ lines, ReadWhole l) := by
  induction lines with
  | nil => simp
  | cons l lines ih =>
    rw [List.forall_mem_cons] at hvalid hlines
    obtain ⟨hle, heq⟩ := ih hlines.2 hvalid.2
    obtain ⟨hbytes, hloud⟩ := le_loudPieces hlines.1 hvalid.1
    rw [List.flatMap_cons, List.length_append, List.map_cons, List.sum_cons, hbytes,
      List.forall_mem_cons]
    refine ⟨by omega, fun h => ⟨?_, heq (by omega)⟩⟩
    rw [ReadWhole]
    omega

/-- A valid text is assembled line by line exactly if each of its lines is read as a whole. -/
theorem assemble_line_by_line_iff {text : List UInt8} (hnul : 0 ∉ text)
    (hvalid : ∀ l ∈ text.splitOn 10, ∃ r, assembleLine rawHalt l = .ok r) :
    assemble rawHalt text = ((text.splitOn 10).flatMap (lineBytes rawHalt), none) ↔
      ∀ l ∈ text.splitOn 10, ReadWhole l := by
  have hlines := inLine_of_mem_splitOn hnul
  rw [assemble_eq_iff]
  simp only [Emits]
  rw [instructionTokens_fgets]
  generalize text.splitOn 10 = lines at hvalid hlines
  constructor
  · rintro ⟨words, hwords, hout⟩
    refine (length_lineBytes_le hlines hvalid).2 ?_
    have hbytes : (words.flatMap wordBytes).length = 4 * words.length := by
      simp [List.length_flatMap, length_wordBytes, Nat.mul_comm]
    rw [hout, hbytes, ← hwords.length_eq, length_flatMap_pieces]
  · intro hwhole
    induction lines with
    | nil => exact ⟨[], .nil, rfl⟩
    | cons l lines ih =>
      rw [List.forall_mem_cons] at hvalid hlines hwhole
      obtain ⟨ws, hws, hbytes⟩ := emits_of_readWhole hlines.1 hvalid.1 hwhole.1
      obtain ⟨words, hwords, hout⟩ := ih hvalid.2 hlines.2 hwhole.2
      refine ⟨ws ++ words, ?_, ?_⟩
      · rw [List.flatMap_cons]
        exact List.rel_append hws hwords
      · rw [List.flatMap_cons, List.flatMap_append, hbytes, hout]

/-- An instruction with a comment, a comment and another instruction. -/
theorem assemble_line_by_line_iff_two :
    let text := bytes "add R1, R2, #3 ; x\n; y\nNOP"
    assemble false text = ((text.splitOn 10).flatMap (lineBytes false), none) ↔
      ∀ l ∈ text.splitOn 10, ReadWhole l := by
  intro text
  have hlines : text.splitOn 10 = [bytes "add R1, R2, #3 ; x", bytes "; y", bytes "NOP"] := by
    decide
  refine assemble_line_by_line_iff (by decide) ?_
  rw [hlines]
  exact List.forall_mem_cons.2 ⟨⟨_, rfl⟩, List.forall_mem_cons.2 ⟨⟨_, rfl⟩,
    List.forall_mem_singleton.2 ⟨_, rfl⟩⟩⟩

/-- The end of a comment of 514 characters is assembled. -/
theorem long_comment_is_assembled :
    let text := 59 :: (List.replicate 510 120 ++ bytes "nop")
    0 ∉ text ∧ (∀ l ∈ text.splitOn 10, assembleLine false l = .ok none) ∧
      assemble false text ≠ ((text.splitOn 10).flatMap (lineBytes false), none) := by
  decide +kernel

end Texts

end Vm32
