/-
# The disassembly in the execution log

`debug.c` prints an instruction with its own table of names and its own field helpers.  The
assembler reads such a line back: the name is padded, but blanks do not matter to it, the numbers
are printed in decimal, and the word in brackets at the end is a fourth operand, at which it does
not look.
-/
import Vm32.Asm.Grammar

namespace Vm32

open CText

/-- `opcode_names`. -/
def opcodeNames : List String :=
  ["ADD", "SUB", "MUL", "DIV", "MOD", "EXPT", "ABS", "SQRT", "LN", "LOG",
    "EXP", "SIN", "COS", "TAN", "ASIN", "ACOS", "ATAN",
    "AND", "OR", "XOR", "NOT",
    "EQ", "NE", "GT", "GE", "LT", "LE",
    "TIME", "DATE", "TOD", "DT", "ADD_TIME", "SUB_TIME",
    "YEAR", "MONTH", "DAY", "HOUR", "MINUTE", "SECOND",
    "LEN", "CONCAT", "LEFT", "RIGHT", "MID", "INSERT", "DELETE", "REPLACE",
    "TON", "TOF", "TP",
    "CTU", "CTD", "CTUD",
    "LIMIT", "SEL", "MUX",
    "RISING_EDGE", "FALLING_EDGE", "EDGE_BOTH", "RS_LATCH", "SR_LATCH", "DEMUX",
    "JMP", "JMP_IF", "JMP_IF_NOT", "EXIT", "HALT", "NOP"]

/-- `opcode_name`. -/
def opcodeName (opcode : UInt8) : String := opcodeNames.getD opcode.toNat "UNKNOWN"

/-- `instr_opcode`. -/
def instrOpcode (instr : UInt32) : UInt8 := ((instr >>> 25) &&& 0x7F).toUInt8

/-- `instr_ra`. -/
def instrRa (instr : UInt32) : UInt8 := ((instr >>> 17) &&& 0xFF).toUInt8

/-- `instr_rb`. -/
def instrRb (instr : UInt32) : UInt8 := ((instr >>> 9) &&& 0xFF).toUInt8

/-- `instr_has_fimm`. -/
def instrHasFimm (instr : UInt32) : Bool := (instr >>> 8) &&& 1 != 0

/-- `instr_imm8_signed`. -/
def instrImm8Signed (instr : UInt32) : Int8 := (instr &&& 0xFF).toUInt8.toInt8

/-- `instr_c_as_reg_index`. -/
def instrCAsRegIndex (instr : UInt32) : UInt8 := (instr &&& 0xFF).toUInt8

/-- The operand C as it is printed. -/
def cText (instr : UInt32) : List UInt8 :=
  if instrHasFimm instr then bytes "#" ++ decimalInt (instrImm8Signed instr).toInt
  else bytes "R" ++ decimal (instrCAsRegIndex instr).toNat

/-- `fprintf_inst`. -/
def fprintfInst (instr : UInt32) : List UInt8 :=
  padRight 10 (bytes (opcodeName (instrOpcode instr))) ++ bytes " R" ++
    decimal (instrRa instr).toNat ++ bytes ", R" ++ decimal (instrRb instr).toNat ++ bytes ", " ++
    cText instr ++ (bytes "  [0x" ++ upperHex 8 instr.toNat ++ bytes "]")

/-! ### The tokens of the line -/

/-- The character does not end the instruction text or a token. -/
def IsPlain (c : UInt8) : Prop := c ≠ 0 ∧ c ≠ 10 ∧ c ≠ 59 ∧ isDelim c = false

instance : DecidablePred IsPlain := fun c =>
  inferInstanceAs (Decidable (c ≠ 0 ∧ c ≠ 10 ∧ c ≠ 59 ∧ isDelim c = false))

lemma isPlain_of_digit {c : UInt8} (hc : digitVal c < 10) : IsPlain c := by
  refine ⟨?_, ?_, ?_, ?_⟩
  · rintro rfl
    exact absurd hc (by decide)
  · rintro rfl
    exact absurd hc (by decide)
  · rintro rfl
    exact absurd hc (by decide)
  · cases h : isDelim c with
    | false => rfl
    | true =>
      simp only [isDelim, Bool.or_eq_true, beq_iff_eq] at h
      rcases h with (rfl | rfl) | rfl <;> exact absurd hc (by decide)

lemma isPlain_of_mem_decimal {n : ℕ} : ∀ c ∈ decimal n, IsPlain c :=
  fun _ hc => isPlain_of_digit (digitVal_of_mem_decimal hc)

lemma isPlain_of_mem_decimalInt {z : ℤ} : ∀ c ∈ decimalInt z, IsPlain c := by
  rw [decimalInt]
  split_ifs
  · exact List.forall_mem_cons.2 ⟨by decide, isPlain_of_mem_decimal⟩
  · exact isPlain_of_mem_decimal

lemma isPlain_of_mem_upperHex {n x : ℕ} : ∀ c ∈ upperHex n x, IsPlain c := by
  intro c hc
  obtain ⟨i, -, rfl⟩ := List.mem_map.1 hc
  have hdigit : ∀ d < 16, IsPlain (upperHexDigit d) := by decide
  exact hdigit _ (Nat.mod_lt _ (by norm_num))

/-- The register with this number. -/
def regText (n : ℕ) : List UInt8 := 82 :: decimal n

lemma isPlain_of_mem_regText {n : ℕ} : ∀ c ∈ regText n, IsPlain c :=
  List.forall_mem_cons.2 ⟨by decide, isPlain_of_mem_decimal⟩

lemma regText_ne_nil (n : ℕ) : regText n ≠ [] := List.cons_ne_nil _ _

lemma cText_eq (instr : UInt32) :
    cText instr =
      if instrHasFimm instr then 35 :: decimalInt (instrImm8Signed instr).toInt
      else regText (instrCAsRegIndex instr).toNat := rfl

lemma isPlain_of_mem_cText {instr : UInt32} : ∀ c ∈ cText instr, IsPlain c := by
  rw [cText_eq]
  split_ifs
  · exact List.forall_mem_cons.2 ⟨by decide, isPlain_of_mem_decimalInt⟩
  · exact isPlain_of_mem_regText

lemma cText_ne_nil (instr : UInt32) : cText instr ≠ [] := by
  rw [cText_eq]
  split_ifs
  · exact List.cons_ne_nil _ _
  · exact List.cons_ne_nil _ _

/-- The word in brackets. -/
def bracketText (instr : UInt32) : List UInt8 := bytes "[0x" ++ upperHex 8 instr.toNat ++ bytes "]"

lemma isPlain_of_mem_bracketText {instr : UInt32} : ∀ c ∈ bracketText instr, IsPlain c := by
  intro c hc
  simp only [bracketText, List.mem_append] at hc
  rcases hc with (hc | hc) | hc
  · exact (by decide : ∀ c ∈ bytes "[0x", IsPlain c) c hc
  · exact isPlain_of_mem_upperHex c hc
  · exact (by decide : ∀ c ∈ bytes "]", IsPlain c) c hc

/-- What stands behind the name: the padding and the blank of the format. -/
def nameGap (name : List UInt8) : List UInt8 := List.replicate (10 - name.length) 32 ++ [32]

lemma mem_nameGap {name : List UInt8} : ∀ c ∈ nameGap name, c = 32 := by
  intro c hc
  rcases List.mem_append.1 hc with hc | hc
  · exact (List.mem_replicate.1 hc).2
  · exact List.mem_singleton.1 hc

lemma nameGap_ne_nil (name : List UInt8) : nameGap name ≠ [] := by simp [nameGap]

/-- The printed line as its tokens and what separates them. -/
lemma fprintfInst_eq (instr : UInt32) :
    fprintfInst instr =
      bytes (opcodeName (instrOpcode instr)) ++ (nameGap (bytes (opcodeName (instrOpcode instr))) ++
        (regText (instrRa instr).toNat ++ ([44, 32] ++ (regText (instrRb instr).toNat ++
          ([44, 32] ++ (cText instr ++ ([32, 32] ++ bracketText instr))))))) := by
  have hR : bytes " R" = [32, 82] := by decide
  have hcR : bytes ", R" = [44, 32, 82] := by decide
  have hc : bytes ", " = [44, 32] := by decide
  have hb : bytes "  [0x" = [32, 32] ++ bytes "[0x" := by decide
  simp only [fprintfInst, padRight, nameGap, regText, bracketText, hR, hcR, hc, hb,
    List.append_assoc, List.cons_append, List.nil_append]

section Names

/-- The two tables of names agree up to case, and the names are plain. -/
lemma opcodeNames_getElem : ∀ i < 68,
    opcodeFromName (bytes (opcodeNames.getD i "UNKNOWN")) = some i ∧
      (∀ c ∈ bytes (opcodeNames.getD i "UNKNOWN"), IsPlain c) ∧
      ∀ c ∈ (bytes (opcodeNames.getD i "UNKNOWN")).head?, isSpace c = false := by
  decide +kernel

variable {instr : UInt32} (hop : (instrOpcode instr).toNat < 68)
include hop

lemma opcodeFromName_opcodeName :
    opcodeFromName (bytes (opcodeName (instrOpcode instr))) = some (instrOpcode instr).toNat :=
  (opcodeNames_getElem _ hop).1

lemma isPlain_of_mem_opcodeName : ∀ c ∈ bytes (opcodeName (instrOpcode instr)), IsPlain c :=
  (opcodeNames_getElem _ hop).2.1

lemma opcodeName_ne_nil : bytes (opcodeName (instrOpcode instr)) ≠ [] := by
  intro hnil
  have hname := opcodeFromName_opcodeName hop
  rw [hnil] at hname
  exact absurd hname (by rw [show opcodeFromName [] = none by decide +kernel]; simp)

/-- Every character of the line is plain or a delimiter. -/
lemma mem_fprintfInst : ∀ c ∈ fprintfInst instr, c ≠ 0 ∧ c ≠ 10 ∧ c ≠ 59 := by
  have hplain : ∀ c, IsPlain c → c ≠ 0 ∧ c ≠ 10 ∧ c ≠ 59 := fun c hc => ⟨hc.1, hc.2.1, hc.2.2.1⟩
  rw [fprintfInst_eq]
  simp only [List.forall_mem_append]
  refine ⟨fun c hc => hplain c (isPlain_of_mem_opcodeName hop c hc), fun c hc => ?_,
    fun c hc => hplain c (isPlain_of_mem_regText c hc), by decide,
    fun c hc => hplain c (isPlain_of_mem_regText c hc), by decide,
    fun c hc => hplain c (isPlain_of_mem_cText c hc), by decide,
    fun c hc => hplain c (isPlain_of_mem_bracketText c hc)⟩
  rw [mem_nameGap c hc]
  decide

/-- The assembler finds five tokens in the line. -/
lemma lineTokens_fprintfInst :
    lineTokens (fprintfInst instr) =
      [bytes (opcodeName (instrOpcode instr)), regText (instrRa instr).toNat,
        regText (instrRb instr).toNat, cText instr, bracketText instr] := by
  have hmem := mem_fprintfInst hop
  have hdrop : (fprintfInst instr).dropWhile isSpace = fprintfInst instr := by
    obtain ⟨c, t, hname⟩ := List.exists_cons_of_ne_nil (opcodeName_ne_nil hop)
    have hc : isSpace c = false := by
      refine (opcodeNames_getElem _ hop).2.2 c ?_
      rw [← opcodeName, hname]
      rfl
    rw [fprintfInst_eq, hname, List.cons_append, List.dropWhile_cons_of_neg (by simp [hc])]
  have hcode : codePart (fprintfInst instr) = fprintfInst instr := by
    have h10 : (fprintfInst instr).takeWhile (· != 10) = fprintfInst instr :=
      List.takeWhile_eq_self_iff.2 fun c hc => bne_iff_ne.2 (hmem c hc).2.1
    have h59 : (fprintfInst instr).takeWhile (· != 59) = fprintfInst instr :=
      List.takeWhile_eq_self_iff.2 fun c hc => bne_iff_ne.2 (hmem c hc).2.2
    rw [codePart, h10, h59]
  rw [lineTokens, hdrop, hcode, cstr_of_not_mem fun h0 => (hmem 0 h0).1 rfl, fprintfInst_eq]
  have hgap : ∀ c ∈ nameGap (bytes (opcodeName (instrOpcode instr))), isDelim c = true := by
    intro c hc
    rw [mem_nameGap c hc]
    decide
  -- the five texts hold no delimiter, and delimiters stand between them
  rw [tokens_word_append (fun c hc => (isPlain_of_mem_opcodeName hop c hc).2.2.2)
      (opcodeName_ne_nil hop) hgap (nameGap_ne_nil _),
    tokens_word_append (fun c hc => (isPlain_of_mem_regText c hc).2.2.2) (regText_ne_nil _)
      (by decide) (by decide),
    tokens_word_append (fun c hc => (isPlain_of_mem_regText c hc).2.2.2) (regText_ne_nil _)
      (by decide) (by decide),
    tokens_word_append (fun c hc => (isPlain_of_mem_cText c hc).2.2.2) (cText_ne_nil _)
      (by decide) (by decide),
    tokens_of_no_delim (fun c hc => (isPlain_of_mem_bracketText c hc).2.2.2)
      (by simp [bracketText, bytes])]

end Names

/-! ### Reading the operands back -/

lemma readsReg_regText (b : UInt8) : ReadsReg (some (regText b.toNat)) b.toUInt32.toInt32 := by
  have hb := b.toNat_lt
  have htoken := regToken_iff.1
    ⟨82, _, b.toNat, rfl, Or.inr rfl, decimal_literal _, by omega, toInt_byte b⟩
  exact htoken.1

lemma instrHasFimm_eq (w : UInt32) : instrHasFimm w = fimm w := by
  rw [Bool.eq_iff_iff, fimm_iff, instrHasFimm, bne_iff_ne, Ne, ← UInt32.toNat_inj]
  simp only [UInt32.toNat_and, UInt32.toNat_shiftRight, UInt32.reduceToNat,
    Nat.shiftRight_eq_div_pow, Nat.and_one_is_mod, Nat.reduceMod, Nat.reducePow]
  omega

/-- The signed byte that is printed is the immediate of the interpreter. -/
lemma toInt_sextimm8 (w : UInt32) : (sextimm8 w).toInt32.toInt = (instrImm8Signed w).toInt := by
  have hbyte : ((w &&& 0xFF).toUInt8).toNat = w.toNat % 256 := toNat_rc w
  have hint8 : (instrImm8Signed w).toInt =
      if 2 * ((w &&& 0xFF).toUInt8).toNat < 2 ^ 8 then (((w &&& 0xFF).toUInt8).toNat : ℤ)
      else ((w &&& 0xFF).toUInt8).toNat - 2 ^ 8 :=
    BitVec.toInt_eq_toNat_cond ((w &&& 0xFF).toUInt8).toBitVec
  have hint := int32_toInt (sextimm8 w).toInt32
  rw [UInt32.toUInt32_toInt32, toNat_sextimm8] at hint
  rw [hint8, hint, hbyte]
  split_ifs <;> push_cast <;> omega

lemma readsC_cText {w : UInt32}
    (himm : fimm w = true → (opEntry (opc w).toNat).cflags = .allowImm) :
    ReadsC (opEntry (opc w).toNat) (some (cText w)) (unpackWord w).cop := by
  rw [cText_eq, instrHasFimm_eq]
  by_cases hf : fimm w = true
  · have hcop : (unpackWord w).cop = .imm (sextimm8 w).toInt32 := if_pos hf
    have hlow := (instrImm8Signed w).le_toInt
    have hhigh := (instrImm8Signed w).toInt_lt
    have htok : COperand (opEntry (opc w).toNat)
        (some (35 :: decimalInt (instrImm8Signed w).toInt)) (.imm (sextimm8 w).toInt32) :=
      ⟨himm hf, _, _, rfl, decimalInt_literal _, by omega, by omega,
        toInt_sextimm8 w⟩
    rw [if_pos hf, hcop]
    exact (cOperand_iff.1 htok).1
  · have hcop : (unpackWord w).cop = .reg (rc w).toUInt32.toInt32 := if_neg hf
    rw [if_neg hf, hcop]
    exact readsReg_regText (rc w)

/-! ### The length of the line -/

lemma length_regText_le (b : UInt8) : (regText b.toNat).length ≤ 4 := by
  have := length_decimal_le (n := b.toNat) (k := 3) (by norm_num) (by have := b.toNat_lt; omega)
  rw [regText, List.length_cons]
  omega

lemma length_cText_le (w : UInt32) : (cText w).length ≤ 5 := by
  rw [cText_eq]
  split_ifs
  · have hlow := (instrImm8Signed w).le_toInt
    have hhigh := (instrImm8Signed w).toInt_lt
    have habs : (instrImm8Signed w).toInt.natAbs < 10 ^ 3 := by
      omega
    have := length_decimal_le (by norm_num) habs
    rw [decimalInt]
    split_ifs <;> simp only [List.length_cons] <;> omega
  · have := length_regText_le (instrCAsRegIndex w)
    omega

lemma length_fprintfInst_lt {w : UInt32} (hop : (opc w).toNat < 68) :
    (fprintfInst w).length < maxLine := by
  have hnames : ∀ i < 68, (bytes (opcodeNames.getD i "UNKNOWN")).length ≤ 12 := by decide +kernel
  have hname := hnames _ hop
  have ha := length_regText_le (instrRa w)
  have hb := length_regText_le (instrRb w)
  have hc := length_cText_le w
  have hgap : (nameGap (bytes (opcodeName (instrOpcode w)))).length ≤ 11 := by
    simp only [nameGap, List.length_append, List.length_replicate, List.length_singleton]
    omega
  have hbracket : (bracketText w).length = 12 := by
    simp only [bracketText, List.length_append, upperHex, List.length_map, List.length_reverse,
      List.length_range]
    rfl
  have hname' : (bytes (opcodeName (instrOpcode w))).length ≤ 12 := hname
  rw [fprintfInst_eq]
  simp only [List.length_append, List.length_cons, List.length_nil, maxLine]
  omega

/-- The assembler reads the log back: the line that is printed for a word of the instruction
format is assembled to the word. -/
theorem assemble_fprintfInst (w : UInt32) (hop : (opc w).toNat < 68)
    (himm : fimm w = true → (opEntry (opc w).toNat).cflags = .allowImm) :
    assemble true (fprintfInst w ++ [10]) = (wordBytes w, none) := by
  have hmem := @mem_fprintfInst w hop
  refine (assemble_line_iff (fun h10 => (hmem 10 h10).2.1 rfl) (length_fprintfInst_lt hop)).2 ?_
  rw [lineTokens_fprintfInst hop, hasWord_iff]
  exact ⟨_, _, unpackWord w, rfl,
    ⟨opcodeFromName_opcodeName hop, readsReg_regText (ra w), readsReg_regText (rb w),
      readsC_cText himm⟩, (packWord_unpackWord w).symm⟩

/-- `SUB R1, R2, #-5`. -/
theorem assemble_fprintfInst_sub :
    assemble true (fprintfInst 0x020205FB ++ [10]) = (wordBytes 0x020205FB, none) :=
  assemble_fprintfInst 0x020205FB (by decide) (by decide)

end Vm32
