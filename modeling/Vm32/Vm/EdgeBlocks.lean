/-
# Edge detectors and counters over whole runs

Three counters and three edge detectors, with 16 instances each, remember the inputs of their last
executions.  In every run of the machine each instance goes on with what its own executions left
there, whatever else was executed in between: a detector tells the transition of its own input,
and a counter counts its own edges up to the ends of its range.
-/
import Vm32.Vm.Counters

namespace Vm32

open LabelledRun

/-! ### The six blocks -/

/-- The counters and the edge detectors. -/
inductive EdgeBlock
  | ctu | ctd | ctud | risingEdge | fallingEdge | edgeBoth
deriving DecidableEq, Repr

/-- What an instance remembers: its value, if it is a counter, and the inputs of its last
execution; only `CTUD` has two of them. -/
structure EdgeMemory where
  value : UInt32
  input : Bool
  down : Bool
deriving DecidableEq, Repr

namespace EdgeBlock

/-- The opcode of a block. -/
def opcode : EdgeBlock → UInt8
  | ctu => 50
  | ctd => 51
  | ctud => 52
  | risingEdge => 56
  | fallingEdge => 57
  | edgeBoth => 58

/-- The handler of a block. -/
def op : EdgeBlock → OpEx
  | ctu => opCtu
  | ctd => opCtd
  | ctud => opCtud
  | risingEdge => opRisingEdge
  | fallingEdge => opFallingEdge
  | edgeBoth => opEdgeBoth

/-- The blocks. -/
def all : List EdgeBlock := [ctu, ctd, ctud, risingEdge, fallingEdge, edgeBoth]

/-- The number of the instance that the instruction `i` selects: the counters find it in register
A, the detectors take an immediate or else register A. -/
def id : EdgeBlock → VmState → UInt32 → UInt32
  | ctu, vm, i | ctd, vm, i | ctud, vm, i => vm.reg (ra i)
  | risingEdge, vm, i | fallingEdge, vm, i | edgeBoth, vm, i => edgeId vm i

/-- What the instance `n` remembers. -/
def memory : EdgeBlock → VmState → ℕ → EdgeMemory
  | ctu, vm, n => ⟨(vm.ctuCounters n).value, vm.ctuPrevInput n, false⟩
  | ctd, vm, n => ⟨(vm.ctdCounters n).value, vm.ctdPrevInput n, false⟩
  | ctud, vm, n => ⟨(vm.ctudCounters n).value, vm.ctudPrevUp n, vm.ctudPrevDown n⟩
  | risingEdge, vm, n => ⟨0, vm.edgePrevRising n, false⟩
  | fallingEdge, vm, n => ⟨0, vm.edgePrevFalling n, false⟩
  | edgeBoth, vm, n => ⟨0, vm.edgePrevBoth n, false⟩

end EdgeBlock

/-- An execution of a block: the number of register A, that of the instance, and the inputs. -/
structure Execution where
  block : EdgeBlock
  a : UInt8
  id : UInt32
  input : Bool
  down : Bool
deriving DecidableEq, Repr

/-- The execution of a block by a step, if it calls the handler of one. -/
def execution (c : Config) (e : Env) : Option Execution :=
  match outcome vmDecodeInstruction c e with
  | some (.executed _ instr raw) =>
    (EdgeBlock.all.find? fun b => b.opcode = opc instr).map fun b =>
      ⟨b, ra raw, b.id c.vm raw, c.vm.reg (rb raw) != 0, c.vm.reg (rc raw) != 0⟩
  | _ => none

/-- The executions of one instance. -/
def executionsOf (b : EdgeBlock) (n : ℕ) (xs : List Execution) : List Execution :=
  xs.filter fun x => x.block = b ∧ x.id.toNat = n

/-! ### What an execution does -/

namespace EdgeBlock

/-- The memory of an instance after an execution of it. -/
def next (b : EdgeBlock) (m : EdgeMemory) (input down : Bool) : EdgeMemory :=
  match b with
  | ctu => ⟨if input && !m.input then CounterKind.ctu.count m.value else m.value, input, false⟩
  | ctd => ⟨if input && !m.input then CounterKind.ctd.count m.value else m.value, input, false⟩
  | ctud =>
    let value := if input && !m.input then CounterKind.ctu.count m.value else m.value
    ⟨if down && !m.down then CounterKind.ctd.count value else value, input, down⟩
  | _ => ⟨0, input, false⟩

/-- The block is an edge detector. -/
def isDetector : EdgeBlock → Bool
  | risingEdge | fallingEdge | edgeBoth => true
  | _ => false

/-- The transition that a detector tells. -/
def transition : EdgeBlock → Bool → Bool → Bool
  | fallingEdge, before, now => !now && before
  | edgeBoth, before, now => now != before
  | _, before, now => now && !before

section Handlers

variable {b b' : EdgeBlock} {vm : VmState} {i : UInt32} {n : ℕ}

lemma opEx_opcode (b : EdgeBlock) : opEx b.opcode = some b.op := by
  cases b <;> rfl

lemma memory_setAVal (b : EdgeBlock) (vm : VmState) (i v : UInt32) :
    b.memory (setAVal vm i v) = b.memory vm := by
  cases b <;> rfl

/-- An instance that does not exist is not changed. -/
lemma memory_op_of_le (hid : maxTimers ≤ (b.id vm i).toNat) (h : Host) :
    b.memory (b.op h vm i) = b.memory vm := by
  have hout := (idOutOfRange_iff _).2 hid
  cases b <;>
    simp only [id] at hout <;>
    simp only [op, opCtu, opCtd, opCtud, opRisingEdge, opFallingEdge, opEdgeBoth, hout, if_true,
      memory_setAVal]

/-- The handler of a block changes the instance that it selects, and no other. -/
lemma memory_op_of_lt (hid : (b.id vm i).toNat < maxTimers) (h : Host) :
    b.memory (b.op h vm i) = Function.update (b.memory vm) (b.id vm i).toNat
      (b.next (b.memory vm (b.id vm i).toNat) (vm.reg (rb i) != 0) (vm.reg (rc i) != 0)) := by
  have hin : idOutOfRange (b.id vm i).toInt32 = false := by
    rw [← Bool.not_eq_true, idOutOfRange_iff]
    omega
  funext n
  rcases eq_or_ne n (b.id vm i).toNat with rfl | hne
  · rw [Function.update_self]
    cases b <;>
      simp only [id] at hin <;>
      simp only [op, opCtu, opCtd, opCtud, opRisingEdge, opFallingEdge, opEdgeBoth, hin,
        Bool.false_eq_true, if_false, memory_setAVal] <;>
      simp only [memory, id, next, Function.update_self, CounterKind.count,
        CounterKind.ite_and_decide] <;>
      rfl
  · rw [Function.update_of_ne hne]
    cases b <;>
      simp only [id] at hin hne <;>
      simp only [op, opCtu, opCtd, opCtud, opRisingEdge, opFallingEdge, opEdgeBoth, hin,
        Bool.false_eq_true, if_false, memory_setAVal] <;>
      simp only [memory, Function.update_of_ne hne]

/-- The handler of a block changes no instance of another block. -/
lemma memory_op_of_ne (hne : b' ≠ b) (h : Host) : b'.memory (b.op h vm i) = b'.memory vm := by
  cases b <;>
    simp only [op, opCtu, opCtd, opCtud, opRisingEdge, opFallingEdge, opEdgeBoth] <;>
    split_ifs <;>
    simp only [memory_setAVal] <;>
    cases b' <;> first | rfl | exact absurd rfl hne

lemma outside_memory (b : EdgeBlock) : Outside b.memory := by
  cases b <;>
  exact ⟨fun _ _ => rfl, fun _ _ => rfl, fun _ _ _ _ => rfl, fun _ _ _ => rfl,
    fun _ _ _ _ _ => rfl⟩

lemma offLoop_memory (b : EdgeBlock) : OffLoop b.memory := by
  cases b <;>
  exact ⟨fun _ _ _ => rfl, fun _ _ _ _ _ _ => rfl, fun _ _ _ _ => rfl, fun _ _ _ _ _ _ => rfl,
    fun _ _ _ => rfl⟩

/-- A detector leaves in register A whether its input made the transition. -/
lemma reg_op (hdetects : b.isDetector = true) (h : Host) :
    (b.op h vm i).reg (ra i) =
      if (b.id vm i).toNat < maxTimers ∧
        b.transition (b.memory vm (b.id vm i).toNat).input (vm.reg (rb i) != 0) = true
      then 1 else 0 := by
  by_cases hid : maxTimers ≤ (b.id vm i).toNat
  · have hout := (idOutOfRange_iff _).2 hid
    rw [if_neg fun h => not_lt.2 hid h.1]
    cases b
    case risingEdge | fallingEdge | edgeBoth =>
      simp only [id] at hout
      simp only [op, opRisingEdge, opFallingEdge, opEdgeBoth, hout, if_true, setAVal,
        Function.update_self]
    all_goals cases hdetects
  · have hin : idOutOfRange (b.id vm i).toInt32 = false := by
      rw [← Bool.not_eq_true, idOutOfRange_iff]
      exact hid
    have hlt : (b.id vm i).toNat < maxTimers := not_le.1 hid
    cases b
    case risingEdge | fallingEdge | edgeBoth =>
      simp only [id] at hin hlt ⊢
      simp only [op, opRisingEdge, opFallingEdge, opEdgeBoth, hin, Bool.false_eq_true, if_false,
        setAVal, Function.update_self, bv, transition, memory, hlt, true_and]
      rfl
    all_goals cases hdetects

end Handlers

end EdgeBlock

/-! ### Steps -/

section Steps

variable {b : EdgeBlock} {c : Config} {e : Env} {x : Execution} {n : ℕ}

/-- An execution is a call of the handler of its block. -/
lemma execution_eq_some (hx : execution c e = some x) :
    ∃ pc instr raw, outcome vmDecodeInstruction c e = some (.executed pc instr raw) ∧
      opEx (opc instr) = some x.block.op ∧
      x = ⟨x.block, ra raw, x.block.id c.vm raw, c.vm.reg (rb raw) != 0,
        c.vm.reg (rc raw) != 0⟩ := by
  rw [execution] at hx
  cases hout : outcome vmDecodeInstruction c e with
  | none => simp [hout] at hx
  | some o =>
    cases o with
    | executed pc instr raw =>
      simp only [hout] at hx
      obtain ⟨b, hfind, rfl⟩ := Option.map_eq_some_iff.1 hx
      have hopcode : b.opcode = opc instr := by simpa using List.find?_some hfind
      exact ⟨pc, instr, raw, rfl, hopcode ▸ b.opEx_opcode, rfl⟩
    | _ => simp [hout] at hx

/-- A step that executes no block changes no instance. -/
lemma memory_step_of_none (hx : execution c e = none) (b : EdgeBlock) :
    b.memory (step vmDecodeInstruction c e).vm = b.memory c.vm := by
  refine b.offLoop_memory.step fun pc instr raw op hout hop vm => ?_
  simp only [execution, hout, Option.map_eq_none_iff, List.find?_eq_none, decide_eq_true_eq] at hx
  refine b.outside_memory.keeps hop (fun hmem => ?_) e.host vm raw
  have hne : ∀ b : EdgeBlock, b.opcode.toNat ≠ (opc instr).toNat := by
    intro b heq
    exact hx b (by cases b <;> simp [EdgeBlock.all]) (UInt8.toNat_inj.1 heq)
  simp only [Outside.excepted, List.mem_cons, List.not_mem_nil, or_false] at hmem
  rcases hmem with h | h | h | h | h | h
  · exact hne .ctu h.symm
  · exact hne .ctd h.symm
  · exact hne .ctud h.symm
  · exact hne .risingEdge h.symm
  · exact hne .fallingEdge h.symm
  · exact hne .edgeBoth h.symm

/-- A step that executes a block changes the instance that it selects, and no other. -/
lemma memory_step_of_some (hx : execution c e = some x) (hn : n < maxTimers) :
    b.memory (step vmDecodeInstruction c e).vm n =
      if x.block = b ∧ x.id.toNat = n then b.next (b.memory c.vm n) x.input x.down
      else b.memory c.vm n := by
  obtain ⟨pc, instr, raw, hout, hop, hx⟩ := execution_eq_some hx
  have hstep : b.memory (step vmDecodeInstruction c e).vm =
      b.memory (x.block.op e.host c.vm raw) := b.offLoop_memory.call.step_executed hout hop
  rw [hstep]
  by_cases hb : x.block = b
  · subst hb
    have hid : x.id = x.block.id c.vm raw := congrArg Execution.id hx
    have hinput : x.input = (c.vm.reg (rb raw) != 0) := congrArg Execution.input hx
    have hdown : x.down = (c.vm.reg (rc raw) != 0) := congrArg Execution.down hx
    rw [hid, hinput, hdown]
    rcases Nat.lt_or_ge (x.block.id c.vm raw).toNat maxTimers with hlt | hge
    · rw [EdgeBlock.memory_op_of_lt hlt]
      rcases eq_or_ne n (x.block.id c.vm raw).toNat with rfl | hne
      · rw [Function.update_self, if_pos ⟨rfl, rfl⟩]
      · rw [Function.update_of_ne hne, if_neg fun h => hne h.2.symm]
    · rw [EdgeBlock.memory_op_of_le hge, if_neg]
      rintro ⟨-, rfl⟩
      exact not_lt.2 hge hn
  · rw [EdgeBlock.memory_op_of_ne (Ne.symm hb), if_neg fun h => hb h.1]

/-- What a detector leaves in register A. -/
lemma reg_step (hx : execution c e = some x) (hdetects : x.block.isDetector = true) :
    (step vmDecodeInstruction c e).vm.reg x.a =
      if x.id.toNat < maxTimers ∧
        x.block.transition (x.block.memory c.vm x.id.toNat).input x.input = true
      then 1 else 0 := by
  obtain ⟨pc, instr, raw, hout, hop, hx⟩ := execution_eq_some hx
  have hoff : OffCall VmState.reg := fun _ _ _ _ _ _ => rfl
  rw [hoff.step_executed hout hop, hx]
  exact x.block.reg_op hdetects e.host

end Steps

/-! ### Runs -/

/-- The value that a `CTUD` has after some executions, with the inputs of each. -/
def upDown : ℕ → Bool → Bool → List (Bool × Bool) → ℕ
  | v, _, _, [] => v
  | v, prevUp, prevDown, (up, down) :: inputs =>
    let v := if up && !prevUp then min (v + 1) 0xFFFFFFFF else v
    let v := if down && !prevDown then v - 1 else v
    upDown v up down inputs

/-- In a run with the past executions `x.2` a step that executes a detector leaves in register A
whether its own input made the transition since the execution of the same instance before, or
since what the instance remembers in `vm`. -/
def TellsTransition (vm : VmState) (x : Config × List Execution) (e : Env) : Prop :=
  ∀ y ∈ execution x.1 e, y.block.isDetector = true →
    (step vmDecodeInstruction x.1 e).vm.reg y.a =
      if y.id.toNat < maxTimers ∧
        y.block.transition (((executionsOf y.block y.id.toNat x.2).map Execution.input).getLastD
          (y.block.memory vm y.id.toNat).input) y.input = true
      then 1 else 0

/-- From `vm` to `vm'` the counters with the number `n` have counted the edges of their own inputs
in the executions `xs`. -/
structure CountsEdges (vm : VmState) (n : ℕ) (xs : List Execution) (vm' : VmState) : Prop where
  ctu : (vm'.ctuCounters n).value.toNat = min 0xFFFFFFFF ((vm.ctuCounters n).value.toNat +
    risingEdges (vm.ctuPrevInput n) ((executionsOf .ctu n xs).map Execution.input))
  ctd : (vm'.ctdCounters n).value.toNat = (vm.ctdCounters n).value.toNat -
    risingEdges (vm.ctdPrevInput n) ((executionsOf .ctd n xs).map Execution.input)
  ctud : (vm'.ctudCounters n).value.toNat = upDown (vm.ctudCounters n).value.toNat
    (vm.ctudPrevUp n) (vm.ctudPrevDown n)
    ((executionsOf .ctud n xs).map fun x => (x.input, x.down))

section Runs

variable {b : EdgeBlock} {n : ℕ}

/-- An instance remembers what its own executions leave there. -/
lemma memory_run (b : EdgeBlock) (hn : n < maxTimers) (c : Config) (es : List Env) :
    b.memory (run (step vmDecodeInstruction) c es).vm n =
      (executionsOf b n (trace (step vmDecodeInstruction) execution c es)).foldl
        (fun m x => b.next m x.input x.down) (b.memory c.vm n) := by
  induction es generalizing c with
  | nil => rfl
  | cons e es ih =>
    rw [run_cons, ih, trace_cons, executionsOf, executionsOf, List.filter_append, List.foldl_append]
    congr 1
    cases hx : execution c e with
    | none =>
      rw [memory_step_of_none hx]
      rfl
    | some x =>
      rw [memory_step_of_some hx hn, Option.toList_some]
      by_cases hown : x.block = b ∧ x.id.toNat = n
      · rw [if_pos hown, List.filter_cons_of_pos (by simpa using hown)]
        rfl
      · rw [if_neg hown, List.filter_cons_of_neg (by simpa using hown)]
        rfl

variable {m : EdgeMemory}

lemma input_foldl (b : EdgeBlock) (m : EdgeMemory) (xs : List Execution) :
    (xs.foldl (fun m x => b.next m x.input x.down) m).input =
      (xs.map Execution.input).getLastD m.input := by
  induction xs generalizing m with
  | nil => rfl
  | cons x xs ih =>
    have hinput : (b.next m x.input x.down).input = x.input := by cases b <;> rfl
    rw [List.foldl_cons, ih, hinput, List.map_cons, List.getLastD_cons]

/-- A counter with one input counts its rising edges. -/
lemma value_foldl {kind : CounterKind} {v₀ k : ℕ}
    (hnext : ∀ (m : EdgeMemory) input down, b.next m input down =
      ⟨if input && !m.input then kind.count m.value else m.value, input, false⟩)
    (hm : m.value.toNat = kind.valueAfter v₀ k) (xs : List Execution) :
    (xs.foldl (fun m x => b.next m x.input x.down) m).value.toNat =
      kind.valueAfter v₀ (k + risingEdges m.input (xs.map Execution.input)) := by
  induction xs generalizing m k with
  | nil => exact hm
  | cons x xs ih =>
    rw [List.foldl_cons, List.map_cons, risingEdges, ← Nat.add_assoc]
    have hstep : (b.next m x.input x.down).value.toNat =
        kind.valueAfter v₀ (k + (x.input && !m.input).toNat) := by
      rw [hnext]
      cases x.input && !m.input with
      | false => exact hm
      | true => exact CounterKind.toNat_count hm
    have hinput : (b.next m x.input x.down).input = x.input := by rw [hnext]
    rw [ih hstep, hinput]

lemma valueAfter_zero (kind : CounterKind) (v : UInt32) :
    v.toNat = kind.valueAfter v.toNat 0 := by
  cases kind with
  | ctu => exact (Nat.min_eq_left (Nat.le_of_lt_succ v.toNat_lt)).symm
  | ctd => rfl

/-- A `CTUD` counts its edges up and down. -/
lemma value_foldl_ctud (m : EdgeMemory) (xs : List Execution) :
    (xs.foldl (fun m x => EdgeBlock.ctud.next m x.input x.down) m).value.toNat =
      upDown m.value.toNat m.input m.down (xs.map fun x => (x.input, x.down)) := by
  induction xs generalizing m with
  | nil => rfl
  | cons x xs ih =>
    -- the edge up counts before the edge down
    have hup : (if x.input && !m.input then CounterKind.ctu.count m.value else m.value).toNat =
        if x.input && !m.input then min (m.value.toNat + 1) 0xFFFFFFFF else m.value.toNat := by
      split_ifs
      · exact CounterKind.toNat_count (valueAfter_zero .ctu m.value)
      · rfl
    have hstep : (EdgeBlock.ctud.next m x.input x.down).value.toNat =
        let v := if x.input && !m.input then min (m.value.toNat + 1) 0xFFFFFFFF else m.value.toNat
        if x.down && !m.down then v - 1 else v := by
      simp only [EdgeBlock.next, ← hup]
      split_ifs
      all_goals first
        | exact CounterKind.toNat_count (valueAfter_zero .ctd _)
        | rfl
    rw [List.foldl_cons, ih, hstep]
    rfl

/-- In every run each detector tells the transitions of its own input, and each counter has counted
the edges of its own inputs. -/
theorem edge_blocks_run (c : Config) (es : List Env) :
    Along (recording (step vmDecodeInstruction) execution) (TellsTransition c.vm) (c, []) es ∧
      ∀ n < maxTimers, CountsEdges c.vm n (trace (step vmDecodeInstruction) execution c es)
        (run (step vmDecodeInstruction) c es).vm := by
  refine ⟨along_iff.2 fun pre e post _ => ?_, fun n hn => ⟨?_, ?_, ?_⟩⟩
  · rw [run_recording]
    intro y hy hdetects
    rw [reg_step hy hdetects]
    refine if_congr (and_congr_right fun hid => ?_) rfl rfl
    rw [memory_run _ hid, input_foldl, List.nil_append]
  · have hvalue := value_foldl (b := .ctu) (m := EdgeBlock.ctu.memory c.vm n) (fun _ _ _ => rfl)
      (valueAfter_zero .ctu _)
      (executionsOf .ctu n (trace (step vmDecodeInstruction) execution c es))
    rw [← memory_run .ctu hn, Nat.zero_add] at hvalue
    exact hvalue.trans (Nat.min_comm _ _)
  · have hvalue := value_foldl (b := .ctd) (m := EdgeBlock.ctd.memory c.vm n) (fun _ _ _ => rfl)
      (valueAfter_zero .ctd _)
      (executionsOf .ctd n (trace (step vmDecodeInstruction) execution c es))
    rw [← memory_run .ctd hn, Nat.zero_add] at hvalue
    exact hvalue
  · have hvalue := value_foldl_ctud (EdgeBlock.ctud.memory c.vm n)
      (executionsOf .ctud n (trace (step vmDecodeInstruction) execution c es))
    rw [← memory_run .ctud hn] at hvalue
    exact hvalue

/-- A `CTU` whose input changes with each execution has counted two edges after three of them. -/
theorem edge_blocks_run_counting :
    let c := start idleHost (CounterKind.counting 0)
    let es := List.replicate 27 idleEnv
    CountsEdges c.vm 0 (trace (step vmDecodeInstruction) execution c es)
        (run (step vmDecodeInstruction) c es).vm ∧
      ((run (step vmDecodeInstruction) c es).vm.ctuCounters 0).value = 2 :=
  ⟨(edge_blocks_run _ _).2 0 (by decide), by decide +kernel⟩

end Runs

end Vm32
