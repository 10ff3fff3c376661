/-
# The assembler

`tools/converter.c`.  The assembler fills its buffer with `fgets`, treats each filling as a line,
and stops at the first error.  What it writes to the output file up to this point stays there, so
a run has an output in either case.
-/
import Vm32.Asm.Encoding
import Vm32.Lib.CText

namespace Vm32

open CText

/-- `CFlags`, the policy for the operand C. -/
inductive CFlags
  | none
  | allowImm
  | cMustReg
deriving DecidableEq, Repr

/-- `OpEntry`. -/
structure OpEntry where
  name : String
  cflags : CFlags
deriving DecidableEq, Repr

/-- `op_table`, up to the entry that ends it. -/
def opTable : List OpEntry :=
  [⟨"add", .allowImm⟩, ⟨"sub", .allowImm⟩, ⟨"mul", .allowImm⟩, ⟨"div", .allowImm⟩,
    ⟨"mod", .allowImm⟩, ⟨"expt", .allowImm⟩, ⟨"abs", .none⟩, ⟨"sqrt", .none⟩, ⟨"ln", .none⟩,
    ⟨"log", .none⟩, ⟨"exp", .none⟩, ⟨"sin", .none⟩, ⟨"cos", .none⟩, ⟨"tan", .none⟩,
    ⟨"asin", .none⟩, ⟨"acos", .none⟩, ⟨"atan", .none⟩,
    ⟨"and", .allowImm⟩, ⟨"or", .allowImm⟩, ⟨"xor", .allowImm⟩, ⟨"not", .none⟩,
    ⟨"eq", .allowImm⟩, ⟨"ne", .allowImm⟩, ⟨"gt", .allowImm⟩, ⟨"ge", .allowImm⟩,
    ⟨"lt", .allowImm⟩, ⟨"le", .allowImm⟩,
    ⟨"time", .none⟩, ⟨"date", .none⟩, ⟨"tod", .none⟩, ⟨"dt", .none⟩, ⟨"add_time", .allowImm⟩,
    ⟨"sub_time", .allowImm⟩,
    ⟨"year", .none⟩, ⟨"month", .none⟩, ⟨"day", .none⟩, ⟨"hour", .none⟩, ⟨"minute", .none⟩,
    ⟨"second", .none⟩,
    ⟨"len", .none⟩, ⟨"concat", .cMustReg⟩, ⟨"left", .allowImm⟩, ⟨"right", .allowImm⟩,
    ⟨"mid", .allowImm⟩, ⟨"insert", .allowImm⟩, ⟨"delete", .allowImm⟩, ⟨"replace", .allowImm⟩,
    ⟨"ton", .allowImm⟩, ⟨"tof", .allowImm⟩, ⟨"tp", .allowImm⟩,
    ⟨"ctu", .allowImm⟩, ⟨"ctd", .allowImm⟩, ⟨"ctud", .cMustReg⟩,
    ⟨"limit", .allowImm⟩, ⟨"sel", .cMustReg⟩, ⟨"mux", .allowImm⟩,
    ⟨"rising_edge", .allowImm⟩, ⟨"falling_edge", .allowImm⟩, ⟨"edge_both", .allowImm⟩,
    ⟨"rs_latch", .allowImm⟩, ⟨"sr_latch", .allowImm⟩, ⟨"demux", .allowImm⟩,
    ⟨"jmp", .allowImm⟩, ⟨"jmp_if", .allowImm⟩, ⟨"jmp_if_not", .allowImm⟩,
    ⟨"exit", .allowImm⟩, ⟨"halt", .none⟩, ⟨"nop", .none⟩]

/-- `opcode_from_name`. -/
def opcodeFromName (name : List UInt8) : Option ℕ :=
  opTable.findIdx? fun e => strcaseEq (bytes e.name) name

/-! ### Operands -/

/-- The part that `parse_reg` and `parse_immediate` have in common: the number behind the first
character, converted to `int`. -/
def parseNumber (s : List UInt8) : Option Int32 :=
  match strtol s with
  | none => none
  | some r => if r.erange then none else some (Int32.ofInt r.value)

/-- `parse_reg`. -/
def parseReg : List UInt8 → Option Int32
  | [] => none
  | c :: s => if toLower c != 114 then none else parseNumber s

/-- `parse_immediate`. -/
def parseImmediate : List UInt8 → Option Int32
  | [] => none
  | c :: s => if c != 35 then none else parseNumber s

/-- The errors for which the assembler stops. -/
inductive AsmError
  | unknownOpcode (tok : List UInt8)
  | badA (tok : List UInt8)
  | rangeA (value : Int32)
  | badB (tok : List UInt8)
  | rangeB (value : Int32)
  | rangeCReg (value : Int32)
  | immNotAllowed (name : String)
  | rangeImm (value : Int32)
  | badC (tok : List UInt8)
  | cMustBeReg (name : String)
  | opcodeRange
deriving DecidableEq, Repr

/-- What is printed behind the line number. -/
def AsmError.message : AsmError → List UInt8
  | .unknownOpcode tok => bytes "unknown opcode '" ++ tok ++ bytes "'\n"
  | .badA tok => bytes "bad operand A '" ++ tok ++ bytes "' — expected R<n>\n"
  | .rangeA v => bytes "A out of range (0..255): " ++ decimalInt v.toInt ++ bytes "\n"
  | .badB tok => bytes "bad operand B '" ++ tok ++ bytes "' — expected R<n>\n"
  | .rangeB v => bytes "B out of range (0..255): " ++ decimalInt v.toInt ++ bytes "\n"
  | .rangeCReg v => bytes "C register out of range (0..255): " ++ decimalInt v.toInt ++ bytes "\n"
  | .immNotAllowed name =>
    bytes "Opcode '" ++ bytes name ++
      bytes "' does not allow immediate in C; use a register.\n"
  | .rangeImm v =>
    bytes "Immediate out of range for C operand (-128..127): " ++ decimalInt v.toInt ++ bytes "\n"
  | .badC tok => bytes "bad operand C '" ++ tok ++ bytes "' — expected R<n> or #<imm>\n"
  | .cMustBeReg name =>
    bytes "Opcode '" ++ bytes name ++ bytes "' requires C to be a register (not immediate).\n"
  | .opcodeRange => bytes "opcode code out of range\n"

/-- The parsing of the operands A and B, which default to register 0. -/
def parseOperandReg (bad : List UInt8 → AsmError) (range : Int32 → AsmError) :
    Option (List UInt8) → Except AsmError Int32
  | none => .ok 0
  | some tok =>
    match parseReg tok with
    | none => .error (bad tok)
    | some r => if checkRegRange r then .ok r else .error (range r)

/-- The parsing of the operand C. -/
def parseOperandC (opent : OpEntry) : Option (List UInt8) → Except AsmError Operand
  | none => .ok (.reg 0)
  | some tok =>
    match parseReg tok with
    | some r => if checkRegRange r then .ok (.reg r) else .error (.rangeCReg r)
    | none =>
      match parseImmediate tok with
      | some v =>
        if opent.cflags ≠ .allowImm then .error (.immNotAllowed opent.name)
        else if checkImm8Range v then .ok (.imm v)
        else .error (.rangeImm v)
      | none => .error (.badC tok)

/-- The check of `CFLAG_C_MUST_REG`. -/
def checkMustReg (opent : OpEntry) : Operand → Except AsmError Operand
  | .reg v => .ok (.reg v)
  | .imm v => if opent.cflags = .cMustReg then .error (.cMustBeReg opent.name) else .ok (.imm v)

/-! ### Lines -/

/-- The delimiters `" \t,"`. -/
def isDelim (c : UInt8) : Bool := c == 32 || c == 9 || c == 44

/-- The mnemonic that is assembled: unless `--raw-halt` is given, `HALT` becomes `EXIT`. -/
def rewriteHalt (rawHalt : Bool) (tok : List UInt8) : List UInt8 :=
  if !rawHalt && strcaseEq tok (bytes "halt") then bytes "exit" else tok

/-- The part of a line behind the splitting into tokens, for the mnemonic and the operands. -/
def assembleTokens (rawHalt : Bool) (tok : List UInt8) (operands : List (List UInt8)) :
    Except AsmError AsmInstr :=
  let tok := rewriteHalt rawHalt tok
  match opcodeFromName tok with
  | none => .error (.unknownOpcode tok)
  | some op =>
    let opent := opTable.getD op ⟨"", .none⟩
    do
      let areg ← parseOperandReg .badA .rangeA operands[0]?
      let breg ← parseOperandReg .badB .rangeB operands[1]?
      let cop ← parseOperandC opent operands[2]?
      let cop ← checkMustReg opent cop
      if 0x7F < op then .error .opcodeRange else .ok ⟨op, areg, breg, cop⟩

/-- The instruction text of a line: what stands in front of the newline and in front of the first
semicolon. -/
def codePart (p : List UInt8) : List UInt8 := (p.takeWhile (· != 10)).takeWhile (· != 59)

/-- The body of the loop for one filling of the buffer; the result is `none` for a line without an
instruction. -/
def assembleLine (rawHalt : Bool) (line : List UInt8) : Except AsmError (Option AsmInstr) :=
  let p := (cstr line).dropWhile isSpace
  if p.head? = none ∨ p.head? = some 10 ∨ p.head? = some 59 then .ok none
  else
    match tokens isDelim (codePart p) with
    | [] => .ok none
    | tok :: operands => (assembleTokens rawHalt tok operands).map some

/-- The tokens that the assembler finds in a filling of the buffer. -/
def lineTokens (line : List UInt8) : List (List UInt8) :=
  tokens isDelim (cstr (codePart (line.dropWhile isSpace)))

lemma codePart_cstr (p : List UInt8) : codePart (cstr p) = cstr (codePart p) := by
  simp only [codePart, cstr, List.takeWhile_takeWhile, Bool.decide_and, Bool.decide_eq_true,
    Bool.and_assoc, Bool.and_comm]

/-- The test for an empty line or a comment only anticipates that there are no tokens. -/
lemma assembleLine_eq (rawHalt : Bool) (line : List UInt8) :
    assembleLine rawHalt line =
      match lineTokens line with
      | [] => .ok none
      | tok :: operands => (assembleTokens rawHalt tok operands).map some := by
  simp only [assembleLine, lineTokens, ← codePart_cstr, ← cstr_dropWhile_isSpace]
  generalize (cstr line).dropWhile isSpace = p
  split_ifs with hp
  · have hnil : codePart p = [] := by
      rcases p with _ | ⟨c, p⟩
      · rfl
      · simp only [List.head?_cons, reduceCtorEq, Option.some.injEq, false_or] at hp
        rcases hp with rfl | rfl <;> simp [codePart]
    rw [hnil, tokens_nil]
  · rfl

/-- The loop, from the line number `lineno` on: the bytes that are written, and the error with its
line number if the loop is left by one. -/
def assembleLoop (rawHalt : Bool) :
    ℕ → List (List UInt8) → List UInt8 × Option (ℕ × AsmError)
  | _, [] => ([], none)
  | lineno, line :: rest =>
    match assembleLine rawHalt line with
    | .error e => ([], some (lineno + 1, e))
    | .ok none => assembleLoop rawHalt (lineno + 1) rest
    | .ok (some ins) =>
      let result := assembleLoop rawHalt (lineno + 1) rest
      (wordBytes (packWord ins) ++ result.1, result.2)

/-- `MAX_LINE`. -/
def maxLine : ℕ := 512

/-- `main`, for a source text. -/
def assemble (rawHalt : Bool) (text : List UInt8) : List UInt8 × Option (ℕ × AsmError) :=
  assembleLoop rawHalt 0 (fgets maxLine text)

end Vm32
