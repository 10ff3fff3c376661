/-
# The operand grammar of the assembler

What the manual describes: a mnemonic and at most three operands, a register written as `R` and an
integer literal, an immediate as `#` and a signed integer literal.  Every line of this grammar is
assembled to the instruction it denotes.  The assembler also takes lines that are not of the
grammar, because it never looks at a fourth operand, at what `strtol` leaves unread, or at white
space and signs that `strtol` skips, and because the numbers are converted to `int` before they
are compared with the ranges.
-/
import Vm32.Asm.Buffers

namespace Vm32

open CText

/-! ### The grammar -/

/-- The tokens of a source line. -/
def sourceTokens (line : List UInt8) : List (List UInt8) :=
  tokens isDelim (codePart (line.dropWhile isSpace))

/-- The token is the register of number `v`. -/
def RegToken (tok : List UInt8) (v : Int32) : Prop :=
  ∃ c s n, tok = c :: s ∧ (c = 114 ∨ c = 82) ∧ IntLiteral s n ∧ n ≤ 255 ∧ v.toInt = n

/-- The token is the immediate `v`. -/
def ImmToken (tok : List UInt8) (v : Int32) : Prop :=
  ∃ s z, tok = 35 :: s ∧ SignedLiteral s z ∧ -128 ≤ z ∧ z ≤ 127 ∧ v.toInt = z

/-- An operand A or B, which may be missing. -/
def RegOperand (tok : Option (List UInt8)) (v : Int32) : Prop :=
  match tok with
  | none => v = 0
  | some tok => RegToken tok v

/-- An operand C, which may be missing. -/
def COperand (opent : OpEntry) (tok : Option (List UInt8)) (o : Operand) : Prop :=
  match tok, o with
  | none, o => o = .reg 0
  | some tok, .reg v => RegToken tok v
  | some tok, .imm v => opent.cflags = .allowImm ∧ ImmToken tok v

/-- The entry of an opcode. -/
def opEntry (op : ℕ) : OpEntry := opTable.getD op ⟨"", .none⟩

/-- The line is of the grammar, and this is the instruction that it denotes. -/
def Denotes (rawHalt : Bool) (line : List UInt8) (ins : AsmInstr) : Prop :=
  ∃ tok ops, sourceTokens line = tok :: ops ∧ ops.length ≤ 3 ∧
    opcodeFromName (rewriteHalt rawHalt tok) = some ins.op ∧ RegOperand ops[0]? ins.areg ∧
    RegOperand ops[1]? ins.breg ∧ COperand (opEntry ins.op) ops[2]? ins.cop

/-- A file with this line is assembled to one word exactly if the line is of the grammar, and then
the fields of the word are the values of the literals. -/
def AcceptsExactly (rawHalt : Bool) (line : List UInt8) : Prop :=
  (∀ word, assemble rawHalt (line ++ [10]) = (wordBytes word, none) →
    ∃ ins, Denotes rawHalt line ins ∧ word = packWord ins ∧ DecodesTo word ins) ∧
  ∀ ins, Denotes rawHalt line ins →
    assemble rawHalt (line ++ [10]) = (wordBytes (packWord ins), none)

/-! ### What the assembler accepts -/

/-- The operand is missing, or it is parsed as a register in range. -/
def ReadsReg (tok : Option (List UInt8)) (v : Int32) : Prop :=
  match tok with
  | none => v = 0
  | some tok => parseReg tok = some v ∧ checkRegRange v

/-- The operand C is missing, or it is parsed as a register or an immediate in range. -/
def ReadsC (opent : OpEntry) (tok : Option (List UInt8)) (o : Operand) : Prop :=
  match tok, o with
  | none, o => o = .reg 0
  | some tok, .reg v => parseReg tok = some v ∧ checkRegRange v
  | some tok, .imm v =>
    parseReg tok = none ∧ opent.cflags = .allowImm ∧ parseImmediate tok = some v ∧ checkImm8Range v

lemma parseOperandReg_ok_iff {bad : List UInt8 → AsmError} {range : Int32 → AsmError}
    {tok : Option (List UInt8)} {v : Int32} :
    parseOperandReg bad range tok = .ok v ↔ ReadsReg tok v := by
  cases tok with
  | none => simp [parseOperandReg, ReadsReg, eq_comm]
  | some tok =>
    simp only [parseOperandReg, ReadsReg]
    cases hparse : parseReg tok with
    | none => simp
    | some r =>
      by_cases hr : checkRegRange r = true
      · simp only [hr, if_true, Except.ok.injEq, Option.some.injEq]
        exact ⟨fun h => ⟨h, h ▸ hr⟩, fun h => h.1⟩
      · simp only [hr, Option.some.injEq]
        constructor
        · rintro ⟨⟩
        · rintro ⟨rfl, h⟩
          exact absurd h hr

section OperandC

variable {opent : OpEntry} {tok : List UInt8} {o : Operand}

lemma readsC_of_parseReg {r : Int32} (hreg : parseReg tok = some r) :
    ReadsC opent (some tok) o ↔ checkRegRange r ∧ o = .reg r := by
  cases o with
  | reg v =>
    simp only [ReadsC, hreg, Option.some.injEq, Operand.reg.injEq]
    constructor
    · rintro ⟨rfl, h⟩
      exact ⟨h, rfl⟩
    · rintro ⟨h, rfl⟩
      exact ⟨rfl, h⟩
  | imm v => simp [ReadsC, hreg]

lemma readsC_of_not_parseReg (hreg : parseReg tok = none) :
    ReadsC opent (some tok) o ↔
      ∃ v, parseImmediate tok = some v ∧ opent.cflags = .allowImm ∧ checkImm8Range v ∧
        o = .imm v := by
  cases o with
  | reg v => simp [ReadsC, hreg]
  | imm v =>
    simp only [ReadsC, hreg, Operand.imm.injEq, true_and]
    constructor
    · rintro ⟨hflag, himm, hv⟩
      exact ⟨v, himm, hflag, hv, rfl⟩
    · rintro ⟨_, himm, hflag, hv, rfl⟩
      exact ⟨hflag, himm, hv⟩

/-- An operand that is parsed as a register does not depend on the policy for C. -/
lemma parseOperandC_reg {r : Int32} (hreg : parseReg tok = some r) :
    parseOperandC opent (some tok) >>= checkMustReg opent =
      if checkRegRange r then .ok (.reg r) else .error (.rangeCReg r) := by
  simp only [parseOperandC, hreg]
  split_ifs <;> rfl

/-- For an immediate the second check of the policy never fails, because the first one is
stricter. -/
lemma parseOperandC_imm {v : Int32} (hreg : parseReg tok = none)
    (himm : parseImmediate tok = some v) :
    parseOperandC opent (some tok) >>= checkMustReg opent =
      if opent.cflags ≠ .allowImm then .error (.immNotAllowed opent.name)
      else if checkImm8Range v then .ok (.imm v) else .error (.rangeImm v) := by
  simp only [parseOperandC, hreg, himm]
  split_ifs with hflag
  · rfl
  · rw [not_not] at hflag
    simp [bind, Except.bind, checkMustReg, hflag]
  · rfl

lemma parseOperandC_bad (hreg : parseReg tok = none) (himm : parseImmediate tok = none) :
    parseOperandC opent (some tok) >>= checkMustReg opent = .error (.badC tok) := by
  simp only [parseOperandC, hreg, himm]
  rfl

lemma parseOperandC_ok_iff {tok : Option (List UInt8)} :
    parseOperandC opent tok >>= checkMustReg opent = .ok o ↔ ReadsC opent tok o := by
  cases tok with
  | none =>
    change Except.ok (Operand.reg 0) = .ok o ↔ o = .reg 0
    rw [Except.ok.injEq, eq_comm]
  | some tok =>
    cases hreg : parseReg tok with
    | some r =>
      -- a register is read first, and it has to be in range
      rw [parseOperandC_reg hreg, readsC_of_parseReg hreg]
      split_ifs with hr
      · simp [hr, eq_comm]
      · simp [hr]
    | none =>
      rw [readsC_of_not_parseReg hreg]
      cases himm : parseImmediate tok with
      | none =>
        rw [parseOperandC_bad hreg himm]
        simp only [reduceCtorEq, false_and, exists_false]
      | some v =>
        rw [parseOperandC_imm hreg himm]
        split_ifs with hflag hv
        · simp [hflag]
        · rw [not_not] at hflag
          simp only [Except.ok.injEq, Option.some.injEq]
          constructor
          · rintro rfl
            exact ⟨v, rfl, hflag, hv, rfl⟩
          · rintro ⟨_, rfl, -, -, rfl⟩
            rfl
        · simp [hv]

end OperandC

/-- The operands of an instruction are read from the tokens. -/
structure ReadsOperands (ops : List (List UInt8)) (ins : AsmInstr) : Prop where
  areg : ReadsReg ops[0]? ins.areg
  breg : ReadsReg ops[1]? ins.breg
  cop : ReadsC (opEntry ins.op) ops[2]? ins.cop

lemma opcodeFromName_lt {name : List UInt8} {op : ℕ} (h : opcodeFromName name = some op) :
    op < 68 :=
  (List.findIdx?_eq_some_iff_getElem.1 h).1

lemma except_bind_ok_iff {ε α β : Type} {x : Except ε α} {f : α → Except ε β} {b : β} :
    x >>= f = .ok b ↔ ∃ a, x = .ok a ∧ f a = .ok b := by
  cases x <;> simp [bind, Except.bind]

lemma assembleTokens_ok_iff {rawHalt : Bool} {tok : List UInt8} {ops : List (List UInt8)}
    {ins : AsmInstr} :
    assembleTokens rawHalt tok ops = .ok ins ↔
      opcodeFromName (rewriteHalt rawHalt tok) = some ins.op ∧ ReadsOperands ops ins := by
  simp only [assembleTokens]
  cases hop : opcodeFromName (rewriteHalt rawHalt tok) with
  | none => simp
  | some op =>
    have hlt : ¬0x7F < op := by
      have := opcodeFromName_lt hop
      omega
    simp only [except_bind_ok_iff, parseOperandReg_ok_iff, if_neg hlt, Except.ok.injEq,
      Option.some.injEq]
    constructor
    · rintro ⟨a, ha, b, hb, o, ho, c, hc, rfl⟩
      exact ⟨rfl, ha, hb, parseOperandC_ok_iff.1 (except_bind_ok_iff.2 ⟨o, ho, hc⟩)⟩
    · rintro ⟨rfl, ha, hb, hc⟩
      obtain ⟨o, ho, hc⟩ := except_bind_ok_iff.1 (parseOperandC_ok_iff.2 hc)
      exact ⟨_, ha, _, hb, o, ho, _, hc, rfl⟩

lemma hasWord_iff {rawHalt : Bool} {toks : List (List UInt8)} {word : UInt32} :
    HasWord rawHalt toks word ↔
      ∃ tok ops ins, toks = tok :: ops ∧
        (opcodeFromName (rewriteHalt rawHalt tok) = some ins.op ∧ ReadsOperands ops ins) ∧
        word = packWord ins := by
  simp only [HasWord, assembleTokens_ok_iff]

lemma assembleLine_some_iff {rawHalt : Bool} {line : List UInt8} {ins : AsmInstr} :
    assembleLine rawHalt line = .ok (some ins) ↔
      ∃ tok ops, lineTokens line = tok :: ops ∧
        opcodeFromName (rewriteHalt rawHalt tok) = some ins.op ∧ ReadsOperands ops ins := by
  rw [assembleLine_eq]
  cases hline : lineTokens line with
  | nil => simp
  | cons tok ops =>
    have hmap : (assembleTokens rawHalt tok ops).map some = .ok (some ins) ↔
        assembleTokens rawHalt tok ops = .ok ins := by
      cases assembleTokens rawHalt tok ops <;> simp [Except.map]
    simp only [hmap, assembleTokens_ok_iff, List.cons.injEq]
    constructor
    · intro h
      exact ⟨tok, ops, ⟨rfl, rfl⟩, h⟩
    · rintro ⟨_, _, ⟨rfl, rfl⟩, h⟩
      exact h

lemma ReadsReg.range {tok : Option (List UInt8)} {v : Int32} (h : ReadsReg tok v) :
    checkRegRange v := by
  cases tok with
  | none =>
    obtain rfl : v = 0 := h
    decide
  | some tok => exact h.2

lemma ReadsC.inRange {opent : OpEntry} {tok : Option (List UInt8)} {o : Operand}
    (h : ReadsC opent tok o) : o.InRange := by
  cases tok with
  | none =>
    obtain rfl : o = .reg 0 := h
    decide
  | some tok =>
    cases o with
    | reg v => exact h.2
    | imm v => exact h.2.2.2

/-- The instruction of an accepted line fits into the instruction format. -/
lemma assembleLine_inRange {rawHalt : Bool} {line : List UInt8} {ins : AsmInstr}
    (h : assembleLine rawHalt line = .ok (some ins)) : ins.InRange := by
  obtain ⟨tok, ops, -, hop, hread⟩ := assembleLine_some_iff.1 h
  exact ⟨opcodeFromName_lt hop, hread.areg.range, hread.breg.range, hread.cop.inRange⟩

/-! ### What it accepts beyond the grammar -/

/-- The text is not a literal in the range, although `strtol` finds a number at its start: there
is white space or, where none is allowed, a sign in front, or there are characters left, or the
number is out of range before it is converted to `int`. -/
def looseNumber (sign : Bool) (low high : ℤ) (s : List UInt8) : Bool :=
  (s.head?.any fun c => isSpace c || (!sign && (c == 43 || c == 45))) ||
    (strtol s).any fun r => r.rest != [] || decide (r.value < low) || decide (high < r.value)

/-- The number of an operand is not of the grammar. -/
def looseOperand : List UInt8 → Bool
  | [] => false
  | c :: s => if c = 35 then looseNumber true (-128) 127 s else looseNumber false 0 255 s

/-- The line is read as an instruction although it is not of the grammar: there is a NUL in it, or
a fourth operand, or an operand that is read too generously. -/
def Sloppy (rawHalt : Bool) (line : List UInt8) : Prop :=
  ∃ tok ops ins, lineTokens line = tok :: ops ∧
    opcodeFromName (rewriteHalt rawHalt tok) = some ins.op ∧ ReadsOperands ops ins ∧
    (0 ∈ codePart (line.dropWhile isSpace) ∨ 3 < ops.length ∨
      ∃ t ∈ ops.take 3, looseOperand t = true)

section Literals

variable {s : List UInt8} {v : Int32} {low high : ℤ}

/-- A number that `strtol` reads is converted to `int` unchanged if it is in a range of `int`. -/
lemma toInt_ofInt_value {z : ℤ} (hlow : -2 ^ 31 ≤ z) (hhigh : z < 2 ^ 31) :
    (Int32.ofInt (Strtol.ofInt z []).value).toInt = z := by
  have hvalue : (Strtol.ofInt z []).value = z := by
    simp only [Strtol.ofInt]
    omega
  rw [hvalue, Int32.toInt_ofInt_of_le hlow hhigh]

/-- The signed literals in a range are the numbers that are parsed without being read too
generously. -/
lemma signedLiteral_iff (hlow : -2 ^ 31 ≤ low) (hhigh : high < 2 ^ 31) :
    (∃ z, SignedLiteral s z ∧ low ≤ z ∧ z ≤ high ∧ v.toInt = z) ↔
      parseNumber s = some v ∧ looseNumber true low high s = false := by
  constructor
  · rintro ⟨z, hz, hl, hh, hv⟩
    have herange : (Strtol.ofInt z []).erange = false := by
      simp only [Strtol.ofInt, Bool.or_eq_false_iff, decide_eq_false_iff_not]
      omega
    have hint := toInt_ofInt_value (z := z) (by omega) (by omega)
    have hvalue : (Strtol.ofInt z []).value = z := by
      simp only [Strtol.ofInt]
      omega
    constructor
    · simp only [parseNumber, strtol_literal hz, herange]
      exact congrArg some (Int32.toInt_inj.1 (hint.trans hv.symm))
    · have hspace := hz.head_not_space
      simp only [looseNumber, strtol_literal hz, Option.any_some, hvalue]
      cases hs : s.head? with
      | none =>
        simp [Strtol.ofInt]
        omega
      | some c =>
        have := hspace c hs
        simp [Strtol.ofInt, this]
        omega
  · rintro ⟨hparse, hloose⟩
    simp only [parseNumber] at hparse
    cases hr : strtol s with
    | none => simp [hr] at hparse
    | some r =>
      simp only [looseNumber, hr, Option.any_some, Bool.or_eq_false_iff, bne_eq_false_iff_eq,
        decide_eq_false_iff_not, not_lt] at hloose
      obtain ⟨hhead, ⟨hrest, hl⟩, hh⟩ := hloose
      have hspace : ∀ c ∈ s.head?, isSpace c = false := by
        intro c hc
        rw [Option.mem_def] at hc
        simpa [hc] using hhead
      obtain ⟨z, hz, rfl⟩ := literal_of_strtol hr hrest hspace
      -- the range excludes the numbers that `strtol` clamps
      have hvalue : (Strtol.ofInt z []).value = z := by
        simp only [Strtol.ofInt] at hl hh ⊢
        omega
      rw [hvalue] at hl hh
      have herange : (Strtol.ofInt z []).erange = false := by
        simp only [Strtol.ofInt, Bool.or_eq_false_iff, decide_eq_false_iff_not]
        omega
      simp only [hr, herange, Bool.false_eq_true, if_false, Option.some.injEq] at hparse
      rw [← hparse]
      exact ⟨z, hz, hl, hh, toInt_ofInt_value (by omega) (by omega)⟩

lemma looseNumber_false_iff :
    looseNumber false low high s = false ↔
      looseNumber true low high s = false ∧ ∀ c ∈ s.head?, c ≠ 43 ∧ c ≠ 45 := by
  cases hs : s.head? with
  | none => simp [looseNumber, hs]
  | some c =>
    simp only [looseNumber, hs, Option.any_some, Bool.not_false, Bool.true_and, Bool.not_true,
      Bool.false_and, Bool.or_false, Bool.or_eq_false_iff, beq_eq_false_iff_ne, Option.mem_def,
      Option.some.injEq, forall_eq']
    tauto

/-- The unsigned literals are the signed ones that do not start with a sign. -/
lemma intLiteral_iff (hhigh : high < 2 ^ 31) :
    (∃ n : ℕ, IntLiteral s n ∧ (n : ℤ) ≤ high ∧ v.toInt = n) ↔
      parseNumber s = some v ∧ looseNumber false 0 high s = false := by
  rw [looseNumber_false_iff, ← and_assoc, ← signedLiteral_iff (by norm_num) hhigh]
  constructor
  · rintro ⟨n, hn, hh, hv⟩
    refine ⟨⟨n, .unsigned hn, Int.natCast_nonneg n, hh, hv⟩, ?_⟩
    obtain ⟨c, t, rfl, hc⟩ := hn.head_digit
    rintro d ⟨⟩
    constructor <;> rintro rfl <;> exact absurd hc (by decide)
  · rintro ⟨⟨z, hz, hl, hh, hv⟩, hsign⟩
    cases hz with
    | unsigned hn => exact ⟨_, hn, hh, hv⟩
    | plus _ => exact absurd rfl (hsign 43 rfl).1
    | minus _ => exact absurd rfl (hsign 45 rfl).2

end Literals

section Tokens

variable {tok : List UInt8} {v : Int32}

lemma toLower_eq_r {c : UInt8} : toLower c = 114 ↔ c = 114 ∨ c = 82 := by
  have hc := c.toNat_lt
  simp only [toLower, Bool.and_eq_true, decide_eq_true_eq]
  split_ifs with hupper
  all_goals
    simp only [← UInt8.toNat_inj, UInt8.le_iff_toNat_le, UInt8.toNat_add, UInt8.reduceToNat]
      at hupper ⊢
    omega

lemma checkRegRange_of_toInt {n : ℕ} (hn : (n : ℤ) ≤ 255) (hv : v.toInt = n) :
    checkRegRange v := by
  rw [checkRegRange_iff]
  omega

/-- A register of the grammar is one that is parsed without being read too generously. -/
lemma regToken_iff :
    RegToken tok v ↔ (parseReg tok = some v ∧ checkRegRange v) ∧ looseOperand tok = false := by
  cases tok with
  | nil => simp [RegToken, parseReg]
  | cons c s =>
    have hlit := @intLiteral_iff s v 255 (by norm_num)
    -- `r` or `R`, then a number in the syntax of C
    by_cases hc : c = 114 ∨ c = 82
    · have hlower : (toLower c != 114) = false := by
        rw [bne_eq_false_iff_eq, toLower_eq_r]
        exact hc
      have h35 : c ≠ 35 := by
        rintro rfl
        revert hc
        decide
      simp only [parseReg, hlower, Bool.false_eq_true, if_false, looseOperand, h35]
      constructor
      · rintro ⟨_, _, n, ⟨⟩, -, hn, hle, hv⟩
        have hle' : (n : ℤ) ≤ 255 := by exact_mod_cast hle
        obtain ⟨hparse, hloose⟩ := hlit.1 ⟨n, hn, hle', hv⟩
        exact ⟨⟨hparse, checkRegRange_of_toInt hle' hv⟩, hloose⟩
      · rintro ⟨⟨hparse, -⟩, hloose⟩
        obtain ⟨n, hn, hle, hv⟩ := hlit.2 ⟨hparse, hloose⟩
        exact ⟨c, s, n, rfl, hc, hn, by exact_mod_cast hle, hv⟩
    · have hlower : (toLower c != 114) = true := by
        rw [bne_iff_ne, Ne, toLower_eq_r]
        exact hc
      simp only [parseReg, hlower, if_true, reduceCtorEq, false_and, iff_false]
      rintro ⟨_, _, n, ⟨⟩, hc', -⟩
      exact hc hc'

/-- The same for immediates. -/
lemma immToken_iff :
    ImmToken tok v ↔
      (parseImmediate tok = some v ∧ checkImm8Range v) ∧ looseOperand tok = false := by
  cases tok with
  | nil => simp [ImmToken, parseImmediate]
  | cons c s =>
    have hlit := @signedLiteral_iff s v (-128) 127 (by norm_num) (by norm_num)
    by_cases hc : c = 35
    · subst hc
      simp only [parseImmediate, bne_self_eq_false, Bool.false_eq_true, if_false, looseOperand,
        if_true, checkImm8Range_iff]
      constructor
      · rintro ⟨_, z, ⟨⟩, hz, hl, hh, hv⟩
        obtain ⟨hparse, hloose⟩ := hlit.1 ⟨z, hz, hl, hh, hv⟩
        exact ⟨⟨hparse, by omega, by omega⟩, hloose⟩
      · rintro ⟨⟨hparse, -⟩, hloose⟩
        obtain ⟨z, hz, hl, hh, hv⟩ := hlit.2 ⟨hparse, hloose⟩
        exact ⟨s, z, rfl, hz, hl, hh, hv⟩
    · have hne : (c != 35) = true := by rwa [bne_iff_ne]
      simp only [parseImmediate, hne, if_true, reduceCtorEq, false_and, iff_false]
      rintro ⟨_, _, ⟨⟩, -⟩
      exact hc rfl

/-- Operands that are not read too generously are of the grammar. -/
lemma regOperand_iff {t : Option (List UInt8)} :
    RegOperand t v ↔ ReadsReg t v ∧ ∀ tok ∈ t, looseOperand tok = false := by
  cases t with
  | none => simp [RegOperand, ReadsReg]
  | some tok => simpa [RegOperand, ReadsReg] using regToken_iff

lemma cOperand_iff {opent : OpEntry} {t : Option (List UInt8)} {o : Operand} :
    COperand opent t o ↔ ReadsC opent t o ∧ ∀ tok ∈ t, looseOperand tok = false := by
  cases t with
  | none => simp [COperand, ReadsC]
  | some tok =>
    cases o with
    | reg v => simpa [COperand, ReadsC] using regToken_iff
    | imm v =>
      have hreg : parseImmediate tok = some v → parseReg tok = none := by
        intro h
        rcases tok with _ | ⟨c, s⟩
        · rfl
        · obtain ⟨hc, -⟩ := Option.ite_none_left_eq_some.1 h
          rw [bne_iff_ne, not_not] at hc
          subst hc
          rfl
      simp only [COperand, ReadsC, immToken_iff, Option.mem_def, Option.some.injEq, forall_eq']
      tauto

end Tokens

section Lines

variable {rawHalt : Bool} {line : List UInt8} {ins : AsmInstr}

/-- The characters of a mnemonic are, up to case, those of names in the table. -/
lemma exists_mem_name {tok : List UInt8} {op : ℕ}
    (h : opcodeFromName (rewriteHalt rawHalt tok) = some op) {c : UInt8} (hc : c ∈ tok) :
    ∃ e ∈ opTable, ∃ d ∈ bytes e.name, toLower d = toLower c := by
  rw [rewriteHalt] at h
  split_ifs at h with hhalt
  · rw [Bool.and_eq_true] at hhalt
    have heq : strcaseEq (bytes "halt") tok := by
      rw [strcaseEq, beq_iff_eq, eq_comm, ← beq_iff_eq]
      exact hhalt.2
    exact ⟨⟨"halt", .none⟩, by decide +kernel, exists_mem_of_strcaseEq heq hc⟩
  · obtain ⟨hlt, heq, -⟩ := List.findIdx?_eq_some_iff_getElem.1 h
    exact ⟨_, List.getElem_mem hlt, exists_mem_of_strcaseEq heq hc⟩

/-- There is no NUL in a mnemonic. -/
lemma mnemonic_not_mem_zero {tok : List UInt8} {op : ℕ}
    (h : opcodeFromName (rewriteHalt rawHalt tok) = some op) : 0 ∉ tok := by
  intro h0
  obtain ⟨e, he, d, hd, hlower⟩ := exists_mem_name h h0
  have htable : ∀ e ∈ opTable, ∀ d ∈ bytes e.name, toLower d ≠ toLower 0 := by decide +kernel
  exact htable e he d hd hlower

/-- There is no white space in a mnemonic. -/
lemma mnemonic_not_isSpace {tok : List UInt8} {op : ℕ}
    (h : opcodeFromName (rewriteHalt rawHalt tok) = some op) : ∀ c ∈ tok, isSpace c = false := by
  intro c hc
  obtain ⟨e, he, d, hd, hlower⟩ := exists_mem_name h hc
  have htable : ∀ e ∈ opTable, ∀ d ∈ bytes e.name, isSpace d = false := by decide +kernel
  rw [← isSpace_toLower, ← hlower, isSpace_toLower]
  exact htable e he d hd

lemma RegToken.not_mem_zero {tok : List UInt8} {v : Int32} (h : RegToken tok v) : 0 ∉ tok := by
  obtain ⟨c, s, n, rfl, hc, hn, -⟩ := h
  rw [List.mem_cons, not_or]
  refine ⟨?_, hn.not_mem_zero⟩
  rintro rfl
  exact absurd hc (by decide)

lemma ImmToken.not_mem_zero {tok : List UInt8} {v : Int32} (h : ImmToken tok v) : 0 ∉ tok := by
  obtain ⟨s, z, rfl, hz, -⟩ := h
  rw [List.mem_cons, not_or]
  exact ⟨by decide, hz.not_mem_zero⟩

lemma RegOperand.not_mem_zero {t : Option (List UInt8)} {v : Int32} (h : RegOperand t v) :
    ∀ tok ∈ t, 0 ∉ tok := by
  rintro tok rfl
  exact RegToken.not_mem_zero h

lemma COperand.not_mem_zero {opent : OpEntry} {t : Option (List UInt8)} {o : Operand}
    (h : COperand opent t o) : ∀ tok ∈ t, 0 ∉ tok := by
  rintro tok rfl
  cases o with
  | reg v => exact RegToken.not_mem_zero h
  | imm v => exact ImmToken.not_mem_zero h.2

/-- The operands are the first three tokens behind the mnemonic. -/
lemma forall_mem_take_three {ops : List (List UInt8)} {P : List UInt8 → Prop} :
    (∀ t ∈ ops.take 3, P t) ↔
      (∀ t ∈ ops[0]?, P t) ∧ (∀ t ∈ ops[1]?, P t) ∧ ∀ t ∈ ops[2]?, P t := by
  rcases ops with _ | ⟨a, _ | ⟨b, _ | ⟨c, ops⟩⟩⟩ <;> simp

/-- There is no NUL in the instruction text of a line of the grammar. -/
lemma Denotes.not_mem_zero (h : Denotes rawHalt line ins) :
    0 ∉ codePart (line.dropWhile isSpace) := by
  obtain ⟨tok, ops, htoks, hlen, hop, ha, hb, hc⟩ := h
  intro h0
  obtain ⟨u, hu, h0u⟩ := exists_mem_tokens h0 (show isDelim 0 = false by decide)
  rw [← sourceTokens, htoks, ← List.take_of_length_le hlen, List.mem_cons] at hu
  rcases hu with rfl | hu
  · exact mnemonic_not_mem_zero hop h0u
  · exact forall_mem_take_three.2 ⟨ha.not_mem_zero, hb.not_mem_zero, hc.not_mem_zero⟩ u hu h0u

/-- The lines of the grammar are those that are read as an instruction and are not sloppy. -/
lemma denotes_iff :
    Denotes rawHalt line ins ↔
      ∃ tok ops, lineTokens line = tok :: ops ∧
        (opcodeFromName (rewriteHalt rawHalt tok) = some ins.op ∧ ReadsOperands ops ins) ∧
        0 ∉ codePart (line.dropWhile isSpace) ∧ ops.length ≤ 3 ∧
        ∀ t ∈ ops.take 3, looseOperand t = false := by
  have htokens : 0 ∉ codePart (line.dropWhile isSpace) → lineTokens line = sourceTokens line := by
    intro h0
    rw [lineTokens, cstr_of_not_mem h0, sourceTokens]
  constructor
  · intro h
    have h0 := h.not_mem_zero
    obtain ⟨tok, ops, htoks, hlen, hop, ha, hb, hc⟩ := h
    rw [regOperand_iff] at ha hb
    rw [cOperand_iff] at hc
    exact ⟨tok, ops, (htokens h0).trans htoks, ⟨hop, ha.1, hb.1, hc.1⟩, h0, hlen,
      forall_mem_take_three.2 ⟨ha.2, hb.2, hc.2⟩⟩
  · rintro ⟨tok, ops, htoks, ⟨hop, ha, hb, hc⟩, h0, hlen, hloose⟩
    obtain ⟨hla, hlb, hlc⟩ := forall_mem_take_three.1 hloose
    exact ⟨tok, ops, (htokens h0).symm.trans htoks, hlen, hop, regOperand_iff.2 ⟨ha, hla⟩,
      regOperand_iff.2 ⟨hb, hlb⟩, cOperand_iff.2 ⟨hc, hlc⟩⟩

/-- A sloppy line is assembled, but not of the grammar. -/
lemma not_acceptsExactly_of_sloppy (hnl : 10 ∉ line) (hlen : line.length < maxLine)
    (h : Sloppy rawHalt line) : ¬AcceptsExactly rawHalt line := by
  obtain ⟨tok, ops, ins, htoks, hop, hread, hwhy⟩ := h
  intro haccepts
  have hword : HasWord rawHalt (lineTokens line) (packWord ins) :=
    hasWord_iff.2 ⟨tok, ops, ins, htoks, ⟨hop, hread⟩, rfl⟩
  obtain ⟨ins', hden, -⟩ := haccepts.1 _ ((assemble_line_iff hnl hlen).2 hword)
  obtain ⟨tok', ops', htoks', -, h0, hthree, hloose⟩ := denotes_iff.1 hden
  obtain ⟨rfl, rfl⟩ := List.cons.inj (htoks.symm.trans htoks')
  rcases hwhy with hwhy | hwhy | ⟨t, ht, hwhy⟩
  · exact h0 hwhy
  · omega
  · rw [hloose t ht] at hwhy
    cases hwhy

/-- The assembler accepts the grammar of the manual, except for the lines that it reads too
generously. -/
theorem accepts_grammar_iff (hnl : 10 ∉ line) (hlen : line.length < maxLine) :
    AcceptsExactly rawHalt line ↔ ¬Sloppy rawHalt line := by
  constructor
  · intro haccepts hsloppy
    exact not_acceptsExactly_of_sloppy hnl hlen hsloppy haccepts
  · intro hsloppy
    constructor
    · intro word hout
      obtain ⟨tok, ops, ins, htoks, ⟨hop, hread⟩, rfl⟩ :=
        hasWord_iff.1 ((assemble_line_iff hnl hlen).1 hout)
      refine ⟨ins, denotes_iff.2 ⟨tok, ops, htoks, ⟨hop, hread⟩, ?_⟩, rfl, ?_⟩
      · by_contra hwhy
        refine hsloppy ⟨tok, ops, ins, htoks, hop, hread, ?_⟩
        simp only [not_and_or, not_not, not_le, not_forall, Bool.not_eq_false] at hwhy
        simpa only [exists_prop] using hwhy
      · exact decodesTo_packWord ⟨opcodeFromName_lt hop, hread.areg.range, hread.breg.range,
          hread.cop.inRange⟩
    · intro ins hden
      obtain ⟨tok, ops, htoks, hread, -⟩ := denotes_iff.1 hden
      exact (assemble_line_iff hnl hlen).2 (hasWord_iff.2 ⟨tok, ops, ins, htoks, hread, rfl⟩)

end Lines

/-- An ordinary line. -/
theorem accepts_grammar_iff_sub :
    AcceptsExactly false (bytes "SUB R1, R0x2, #-5 ; x") ↔
      ¬Sloppy false (bytes "SUB R1, R0x2, #-5 ; x") :=
  accepts_grammar_iff (by decide) (by decide)

/-- A surplus operand, characters behind a number, and a number that is in range only as an `int`
are all accepted. -/
theorem accepts_more_than_grammar :
    ¬AcceptsExactly false (bytes "add R1 R2 R3 R4") ∧ ¬AcceptsExactly false (bytes "add R1x") ∧
      ¬AcceptsExactly false (bytes "add R4294967297") := by
  refine ⟨not_acceptsExactly_of_sloppy (by decide) (by decide)
      ⟨_, _, ⟨0, 1, 2, .reg 3⟩, rfl, by decide, ⟨⟨by decide, by decide⟩, ⟨by decide, by decide⟩,
        by decide, by decide⟩, by decide⟩,
    not_acceptsExactly_of_sloppy (by decide) (by decide)
      ⟨_, _, ⟨0, 1, 0, .reg 0⟩, rfl, by decide, ⟨⟨by decide, by decide⟩, rfl, rfl⟩, by decide⟩,
    not_acceptsExactly_of_sloppy (by decide) (by decide)
      ⟨_, _, ⟨0, 1, 0, .reg 0⟩, rfl, by decide, ⟨⟨by decide, by decide⟩, rfl, rfl⟩, by decide⟩⟩

end Vm32
