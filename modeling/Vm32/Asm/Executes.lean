/-
# Assembled instructions and the interpreter

The assembler and the interpreter have separate tables, one of names and one of handlers, and the
interpreter gives two meanings to a word: zero also marks the end of a module.  An emitted word is
executed as it was written unless it is zero, which is what `ADD R0, R0, R0` is assembled to, or
the decode cache still holds another word for its address.
-/
import Vm32.Asm.Grammar
import Vm32.Vm.RunProgram

namespace Vm32

open CText LabelledRun

/-- The handlers by the names of their instructions. -/
def mnemonicHandlers : List (String × OpEx) :=
  [("add", opAdd), ("sub", opSub), ("mul", opMul), ("div", opDiv), ("mod", opMod),
    ("expt", opExpt), ("abs", opAbs), ("sqrt", opSqrt), ("ln", opLn), ("log", opLog),
    ("exp", opExp), ("sin", opSin), ("cos", opCos), ("tan", opTan), ("asin", opAsin),
    ("acos", opAcos), ("atan", opAtan),
    ("and", opAnd), ("or", opOr), ("xor", opXor), ("not", opNot),
    ("eq", opEq), ("ne", opNe), ("gt", opGt), ("ge", opGe), ("lt", opLt), ("le", opLe),
    ("time", opTime), ("date", opDate), ("tod", opTod), ("dt", opDt),
    ("add_time", opAddTime), ("sub_time", opSubTime),
    ("year", opYear), ("month", opMonth), ("day", opDay), ("hour", opHour),
    ("minute", opMinute), ("second", opSecond),
    ("len", opLen), ("concat", opConcat), ("left", opLeft), ("right", opRight), ("mid", opMid),
    ("insert", opInsert), ("delete", opDelete), ("replace", opReplace),
    ("ton", opTon), ("tof", opTof), ("tp", opTp),
    ("ctu", opCtu), ("ctd", opCtd), ("ctud", opCtud),
    ("limit", opLimit), ("sel", opSel), ("mux", opMux),
    ("rising_edge", opRisingEdge), ("falling_edge", opFallingEdge), ("edge_both", opEdgeBoth),
    ("rs_latch", opRsLatch), ("sr_latch", opSrLatch), ("demux", opDemux),
    ("jmp", opJmp), ("jmp_if", opJmpIf), ("jmp_if_not", opJmpIfNot),
    ("exit", opExit), ("halt", opHalt), ("nop", opNop)]

/-- The handler of a mnemonic. -/
def handlerOf (name : List UInt8) : Option OpEx :=
  (mnemonicHandlers.find? fun p => strcaseEq (bytes p.1) name).map Prod.snd

/-- The two tables are in the same order. -/
lemma handlerOf_of_opcodeFromName {name : List UInt8} {op : ℕ}
    (h : opcodeFromName name = some op) : handlerOf name = defaultOpEx[op]? := by
  have hnames : opTable.map OpEntry.name = mnemonicHandlers.map Prod.fst := by rfl
  have hops : defaultOpEx = mnemonicHandlers.map Prod.snd := by rfl
  have hfind : mnemonicHandlers.findIdx? (fun p => strcaseEq (bytes p.1) name) = some op := by
    have hmap : (opTable.map OpEntry.name).findIdx? (fun s => strcaseEq (bytes s) name) =
        some op := by
      rw [List.findIdx?_map]
      exact h
    rw [hnames, List.findIdx?_map] at hmap
    exact hmap
  obtain ⟨hlt, heq, hbefore⟩ := List.findIdx?_eq_some_iff_getElem.1 hfind
  have hsome : mnemonicHandlers.find? (fun p => strcaseEq (bytes p.1) name) =
      some mnemonicHandlers[op] :=
    List.find?_eq_some_iff_getElem.2 ⟨heq, op, hlt, rfl, fun j hj => by simpa using hbefore j hj⟩
  rw [handlerOf, hsome, hops, List.getElem?_map, List.getElem?_eq_getElem hlt]

/-! ### Control reaches an emitted word -/

/-- The run is at an instruction inside the running module, and this is the word there. -/
def ReachesWord (c : Config) (word : UInt32) : Prop :=
  ∃ idx mod count startMs, c.ctl = .instr idx mod count startMs ∧
    keepsRunning c.vm count = true ∧ ¬(moduleEnd mod ≤ c.vm.pc ∨ c.vm.pc < mod.addr) ∧
    c.vm.pc.toNat + 4 ≤ vmMemBytes ∧ vmMr32 c.vm c.vm.pc = word

/-- The next step invokes the handler of the mnemonic on a word with the operands as written. -/
def ExecutesAsWritten (c : Config) (e : Env) (name : List UInt8) (ins : AsmInstr) : Prop :=
  ∃ op raw k, handlerOf name = some op ∧ DecodesTo raw ins ∧
    outcome vmDecodeInstruction c e = some (.executed c.vm.pc (vmMr32 c.vm c.vm.pc) raw) ∧
    (step vmDecodeInstruction c e).vm = callHandler op e.host (c.vm.withCache k) raw

/-- There is a decode cache, and what it holds for the address, if anything, is this word. -/
def CacheHolds (vm : VmState) (addr word : UInt32) : Prop :=
  vm.decodedCache.isSome ∧ ∀ d ∈ vm.cached addr, d.rawInstr = word

/-- What an accepted line is assembled to. -/
lemma handlerOf_of_assembleLine {rawHalt : Bool} {line tok : List UInt8} {ops : List (List UInt8)}
    {ins : AsmInstr} (htoks : lineTokens line = tok :: ops)
    (hins : assembleLine rawHalt line = .ok (some ins)) :
    handlerOf (rewriteHalt rawHalt tok) = opEx (opc (packWord ins)) ∧
      (opEx (opc (packWord ins))).isSome := by
  have hrange := assembleLine_inRange hins
  obtain ⟨tok', ops', htoks', hop, -⟩ := assembleLine_some_iff.1 hins
  obtain ⟨rfl, rfl⟩ := List.cons.inj (htoks.symm.trans htoks')
  have hopc : (opc (packWord ins)).toNat = ins.op := (decodesTo_packWord hrange).opc
  rw [handlerOf_of_opcodeFromName hop, opEx, hopc]
  exact ⟨rfl, by simpa [length_defaultOpEx] using hrange.op⟩

lemma executesAsWritten_iff {c : Config} {e : Env} {name : List UInt8} {ins : AsmInstr}
    (hname : handlerOf name = opEx (opc (packWord ins))) (hop : (opEx (opc (packWord ins))).isSome)
    (hins : ins.InRange) (hreach : ReachesWord c (packWord ins)) :
    ExecutesAsWritten c e name ins ↔
      packWord ins ≠ 0 ∧ CacheHolds c.vm c.vm.pc (packWord ins) := by
  obtain ⟨idx, mod, count, startMs, hctl, hkeep, hin, hmem, hword⟩ := hreach
  have hout : outcome vmDecodeInstruction c e =
      some (runInstruction vmDecodeInstruction e.host c.vm mod (moduleEnd mod)).2 := by
    simp only [outcome, hctl, hkeep, if_true]
  have hstep : (step vmDecodeInstruction c e).vm =
      (runInstruction vmDecodeInstruction e.host c.vm mod (moduleEnd mod)).1 := by
    simp only [step, hctl, hkeep, if_true]
  obtain ⟨op, hopEx⟩ := Option.isSome_iff_exists.1 hop
  simp only [ExecutesAsWritten, hout, hstep, hname, hopEx]
  by_cases hzero : packWord ins = 0
  · -- the word is taken for the end of the module
    rw [runInstruction_zero hin (hword.trans hzero)]
    simp [hzero]
  have hne : vmMr32 c.vm c.vm.pc ≠ 0 := by rwa [hword]
  -- what follows if the decoder returns a record
  have hdispatch : ∀ (d : DecodedInstr) (k : Option DecodeCache),
      vmDecodeInstruction c.vm c.vm.pc = (some d, c.vm.withCache k) →
      ((∃ op' raw k', some op = some op' ∧ DecodesTo raw ins ∧
          some (runInstruction vmDecodeInstruction e.host c.vm mod (moduleEnd mod)).2 =
            some (.executed c.vm.pc (vmMr32 c.vm c.vm.pc) raw) ∧
          (runInstruction vmDecodeInstruction e.host c.vm mod (moduleEnd mod)).1 =
            callHandler op' e.host (c.vm.withCache k') raw) ↔
        d.rawInstr = packWord ins) := by
    intro d k hdec
    have hrun : runInstruction vmDecodeInstruction e.host c.vm mod (moduleEnd mod) =
        (callHandler op e.host (c.vm.withCache k) d.rawInstr,
          .executed c.vm.pc (packWord ins) d.rawInstr) := by
      rw [runInstruction_some hin hne hdec, hword, dispatch_of_handler hopEx]
      rfl
    constructor
    · rintro ⟨_, raw, _, -, hraw, hexec, -⟩
      rw [hrun, hword] at hexec
      cases hexec
      exact eq_packWord_of_decodesTo hraw
    · intro hraw
      refine ⟨op, d.rawInstr, k, rfl, ?_, by rw [hrun, hword], by rw [hrun]⟩
      rw [hraw]
      exact decodesTo_packWord hins
  cases hc : c.vm.decodedCache with
  | none =>
    have hdec : vmDecodeInstruction c.vm c.vm.pc = (none, c.vm) := by
      rw [vmDecodeInstruction, hc]
    rw [runInstruction_none hin hne hdec]
    simp [CacheHolds, hc]
  | some cache =>
    have hcached : c.vm.cached c.vm.pc = cache.lookup c.vm.pc := by rw [VmState.cached, hc]; rfl
    cases hlook : cache.lookup c.vm.pc with
    | some d =>
      have hhit : c.vm.cached c.vm.pc = some d := hcached.trans hlook
      rw [hdispatch d _ (vmDecodeInstruction_of_hit hhit)]
      simp [CacheHolds, hc, hhit, hzero]
    | none =>
      -- the word in memory is decoded
      obtain ⟨cache', hdec, -⟩ := vmDecodeInstruction_of_miss hc hlook
      have hafresh : (decodeAfresh c.vm c.vm.pc).1 = some (decodeWord (packWord ins)) := by
        rw [decodeAfresh, if_neg (by omega), hword]
      rw [hafresh] at hdec
      rw [hdispatch _ _ hdec]
      simp [CacheHolds, hc, hcached, hlook, hzero, decodeWord]

/-- In every run, whenever control reaches the word that was emitted for a line, the handler of
the mnemonic is invoked with the operands as written, unless the line is `ADD R0, R0, R0` or the
decode cache is missing or holds another word. -/
theorem emitted_word_executes_iff {rawHalt : Bool} {line tok : List UInt8}
    {ops : List (List UInt8)} {ins : AsmInstr} (htoks : lineTokens line = tok :: ops)
    (hins : assembleLine rawHalt line = .ok (some ins)) {h : Host} {vm : VmState} {es : List Env}
    {e : Env} (hreach : ReachesWord (runProgram h vm es) (packWord ins)) :
    ExecutesAsWritten (runProgram h vm es) e (rewriteHalt rawHalt tok) ins ↔
      ins ≠ ⟨0, 0, 0, .reg 0⟩ ∧
        CacheHolds (runProgram h vm es).vm (runProgram h vm es).vm.pc (packWord ins) := by
  obtain ⟨hname, hop⟩ := handlerOf_of_assembleLine htoks hins
  have hrange := assembleLine_inRange hins
  rw [executesAsWritten_iff hname hop hrange hreach, Ne, packWord_eq_zero_iff hrange]

/-- A machine into which a program of one word was loaded. -/
def oneWord (w : UInt32) : VmState :=
  (loadPrograms (vmTablesInit vmCreate) [⟨[97], .readable (wordBytes w) (by simp [wordBytes])⟩]).1

/-- The steps up to the first instruction. -/
def toFirstInstr : List Env := List.replicate 4 idleEnv

lemma reachesWord_oneWord_sub :
    ReachesWord (runProgram idleHost (oneWord 0x020205FB) toFirstInstr)
      (packWord ⟨1, 1, 2, .imm (-5)⟩) :=
  ⟨0, ⟨[97], 0x3000, 4⟩, 0, 0, by decide +kernel, by decide +kernel, by decide +kernel,
    by decide +kernel, by decide +kernel⟩

/-- `SUB R1, R2, #-5`. -/
theorem emitted_word_executes_iff_sub :
    ExecutesAsWritten (runProgram idleHost (oneWord 0x020205FB) toFirstInstr) idleEnv
        (rewriteHalt false (bytes "SUB")) ⟨1, 1, 2, .imm (-5)⟩ ↔
      (⟨1, 1, 2, .imm (-5)⟩ : AsmInstr) ≠ ⟨0, 0, 0, .reg 0⟩ ∧
        CacheHolds (runProgram idleHost (oneWord 0x020205FB) toFirstInstr).vm
          (runProgram idleHost (oneWord 0x020205FB) toFirstInstr).vm.pc
          (packWord ⟨1, 1, 2, .imm (-5)⟩) :=
  @emitted_word_executes_iff false (bytes "SUB R1, R2, #-5") (bytes "SUB")
    [bytes "R1", bytes "R2", bytes "#-5"] ⟨1, 1, 2, .imm (-5)⟩ (by decide +kernel)
    (by decide +kernel) idleHost (oneWord 0x020205FB) toFirstInstr idleEnv reachesWord_oneWord_sub

/-- `ADD R0, R0, R0` is accepted, and the interpreter takes its word for the end of the module. -/
theorem add_zero_never_executed :
    lineTokens (bytes "ADD R0, R0, R0") = [bytes "ADD", bytes "R0", bytes "R0", bytes "R0"] ∧
      assembleLine false (bytes "ADD R0, R0, R0") = .ok (some ⟨0, 0, 0, .reg 0⟩) ∧
      ReachesWord (runProgram idleHost (oneWord 0) toFirstInstr) (packWord ⟨0, 0, 0, .reg 0⟩) ∧
      outcome vmDecodeInstruction (runProgram idleHost (oneWord 0) toFirstInstr) idleEnv =
        some .endOfModule ∧
      ¬ExecutesAsWritten (runProgram idleHost (oneWord 0) toFirstInstr) idleEnv
        (rewriteHalt false (bytes "ADD")) ⟨0, 0, 0, .reg 0⟩ := by
  have hout : outcome vmDecodeInstruction (runProgram idleHost (oneWord 0) toFirstInstr) idleEnv =
      some .endOfModule := by decide +kernel
  refine ⟨by decide +kernel, by decide +kernel,
    ⟨0, ⟨[97], 0x3000, 4⟩, 0, 0, by decide +kernel, by decide +kernel, by decide +kernel,
      by decide +kernel, by decide +kernel⟩, hout, ?_⟩
  rintro ⟨_, _, _, -, -, hexec, -⟩
  rw [hout] at hexec
  cases hexec

end Vm32
