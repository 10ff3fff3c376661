/-
# Latches over whole runs

`RS` and `SR` are the two latches of the norm: the one prefers the reset, the other the set.  Each
has 16 instances; an instruction selects one by its immediate or else by the number of register
A.  In a run an instance holds what the last of its own executions with one of the inputs on has
decided, whatever else was executed since.
-/
import Vm32.Vm.Bookkeeping
import Vm32.Vm.Handlers
import Vm32.Vm.Lifecycle

namespace Vm32

open LabelledRun

/-- The two latches. -/
inductive Latch
  | rs | sr
deriving DecidableEq, Repr

namespace Latch

/-- The opcode of a latch. -/
def opcode : Latch → UInt8
  | rs => 59
  | sr => 60

/-- The handler of a latch. -/
def op : Latch → OpEx
  | rs => opRsLatch
  | sr => opSrLatch

/-- The instances of a latch. -/
def instances : Latch → VmState → ℕ → Bool
  | rs, vm => vm.rsLatches
  | sr, vm => vm.srLatches

end Latch

/-- An execution of a latch: the number of register A, that of the instance, and the inputs. -/
structure LatchExecution where
  latch : Latch
  a : UInt8
  id : UInt32
  s : Bool
  r : Bool
deriving DecidableEq, Repr

/-- The latch that an opcode executes. -/
def Latch.ofOpcode (opcode : UInt8) : Option Latch :=
  if opcode = 59 then some .rs else if opcode = 60 then some .sr else none

/-- The execution of a latch by a step, if it calls the handler of one. -/
def latchExecution (c : Config) (e : Env) : Option LatchExecution :=
  match outcome vmDecodeInstruction c e with
  | some (.executed _ instr raw) =>
    (Latch.ofOpcode (opc instr)).map fun l =>
      ⟨l, ra raw, latchId raw, c.vm.reg (rb raw) != 0, c.vm.reg (rc raw) != 0⟩
  | _ => none

namespace LatchExecution

/-- One of the inputs is on. -/
def decides (x : LatchExecution) : Bool := x.s || x.r

/-- What the execution decides: a set that is not outvoted by a reset, or any set. -/
def decision (x : LatchExecution) : Bool :=
  match x.latch with
  | .rs => !x.r
  | .sr => x.s

/-- The execution is one of the instance. -/
def Of (l : Latch) (n : ℕ) (x : LatchExecution) : Prop := x.latch = l ∧ x.id.toNat = n

instance (l : Latch) (n : ℕ) : DecidablePred (Of l n) := fun x =>
  inferInstanceAs (Decidable (x.latch = l ∧ x.id.toNat = n))

end LatchExecution

/-- What an instance holds after some executions, if it held `q` before them: the decision of the
last execution of the instance with one of its inputs on. -/
def heldAfter (l : Latch) (n : ℕ) (q : Bool) (xs : List LatchExecution) : Bool :=
  (((xs.filter (LatchExecution.Of l n)).filter LatchExecution.decides).map
    LatchExecution.decision).getLastD q

/-! ### One step -/

section Steps

variable {l l' : Latch} {vm : VmState} {i : UInt32} {n : ℕ} {q : Bool} {xs : List LatchExecution}
  {x : LatchExecution} {c : Config} {e : Env}

lemma Latch.internal_instances (l : Latch) : Internal l.instances := by
  cases l <;> exact ⟨fun _ _ => rfl, fun _ _ => rfl, fun _ _ _ _ _ => rfl⟩

lemma offLoop_latches (l : Latch) : OffLoop l.instances := by
  cases l <;>
  exact ⟨fun _ _ _ => rfl, fun _ _ _ _ _ _ => rfl, fun _ _ _ _ => rfl, fun _ _ _ _ _ _ => rfl,
    fun _ _ _ => rfl⟩

lemma heldAfter_concat : heldAfter l n q (xs ++ [x]) =
    if x.Of l n ∧ x.decides = true then x.decision else heldAfter l n q xs := by
  by_cases hof : x.Of l n
  · by_cases hdecides : x.decides = true <;>
      simp [heldAfter, List.filter_append, hof, hdecides]
  · simp [heldAfter, List.filter_append, hof]

lemma Latch.opEx_opcode (l : Latch) : opEx l.opcode = some l.op := by
  cases l <;> rfl

/-- An instance that does not exist is not changed. -/
lemma Latch.instances_op_of_le (hid : maxTimers ≤ (latchId i).toNat) (h : Host) :
    l'.instances (l.op h vm i) = l'.instances vm := by
  have hout := (idOutOfRange_iff _).2 hid
  cases l <;> simp only [Latch.op, opRsLatch, opSrLatch, hout, if_true] <;>
    exact (Latch.internal_instances l').setAVal vm i 0

/-- The handler of a latch changes the instance that it selects, and no other. -/
lemma Latch.instances_op_of_lt (hid : (latchId i).toNat < maxTimers) (h : Host) :
    l.instances (l.op h vm i) = Function.update (l.instances vm) (latchId i).toNat
      (if (vm.reg (rb i) != 0 || vm.reg (rc i) != 0) = true
        then LatchExecution.decision ⟨l, ra i, latchId i, vm.reg (rb i) != 0, vm.reg (rc i) != 0⟩
        else l.instances vm (latchId i).toNat) := by
  have hin : idOutOfRange (latchId i).toInt32 = false := by
    rw [← Bool.not_eq_true, idOutOfRange_iff]
    exact not_le.2 hid
  cases l <;>
    simp only [Latch.op, opRsLatch, opSrLatch, hin, Bool.false_eq_true, if_false,
      (Latch.internal_instances _).setAVal] <;>
    cases hs : vm.reg (rb i) != 0 <;> cases hr : vm.reg (rc i) != 0 <;>
    simp [Latch.instances, LatchExecution.decision]

/-- The handler of a latch changes no instance of the other one. -/
lemma Latch.instances_op_of_ne (hne : l' ≠ l) (h : Host) :
    l'.instances (l.op h vm i) = l'.instances vm := by
  cases l <;> cases l' <;> first
    | exact absurd rfl hne
    | simp only [Latch.op, opRsLatch, opSrLatch]
      split_ifs <;> rfl

/-- The output in register A is what the instance holds. -/
lemma Latch.reg_op (h : Host) :
    (l.op h vm i).reg (ra i) =
      if (latchId i).toNat < maxTimers ∧ l.instances (l.op h vm i) (latchId i).toNat = true
      then 1 else 0 := by
  by_cases hid : maxTimers ≤ (latchId i).toNat
  · have hout := (idOutOfRange_iff _).2 hid
    rw [if_neg fun h => not_lt.2 hid h.1]
    cases l <;> simp only [Latch.op, opRsLatch, opSrLatch, hout, if_true] <;>
      exact Function.update_self _ _ _
  · have hin : idOutOfRange (latchId i).toInt32 = false := by
      rw [← Bool.not_eq_true, idOutOfRange_iff]
      exact hid
    have hlt : (latchId i).toNat < maxTimers := not_le.1 hid
    cases l <;>
      simp only [Latch.op, opRsLatch, opSrLatch, hin, Bool.false_eq_true, if_false, hlt, true_and,
        (Latch.internal_instances _).setAVal] <;>
      simp only [Latch.instances, Function.update_self, setAVal]

/-- An execution is a call of the handler of its latch. -/
lemma latchExecution_eq_some (hx : latchExecution c e = some x) :
    ∃ pc instr raw, outcome vmDecodeInstruction c e = some (.executed pc instr raw) ∧
      opEx (opc instr) = some x.latch.op ∧
      x = ⟨x.latch, ra raw, latchId raw, c.vm.reg (rb raw) != 0, c.vm.reg (rc raw) != 0⟩ := by
  rw [latchExecution] at hx
  cases hout : outcome vmDecodeInstruction c e with
  | none => simp [hout] at hx
  | some o =>
    cases o with
    | executed pc instr raw =>
      simp only [hout] at hx
      obtain ⟨l, hl, rfl⟩ := Option.map_eq_some_iff.1 hx
      refine ⟨pc, instr, raw, rfl, ?_, rfl⟩
      have hopcode : opc instr = l.opcode := by
        simp only [Latch.ofOpcode] at hl
        split_ifs at hl with hrs hsr
        · rw [hrs, ← Option.some.inj hl]
          rfl
        · rw [hsr, ← Option.some.inj hl]
          rfl
      rw [hopcode]
      exact Latch.opEx_opcode l
    | _ => simp [hout] at hx

/-- An instruction that is no execution of a latch does not belong to the latches. -/
lemma instanceGroup_ne_latches {pc instr raw : UInt32} (hx : latchExecution c e = none)
    (hout : outcome vmDecodeInstruction c e = some (.executed pc instr raw)) :
    instanceGroup (opc instr).toNat ≠ .latches := by
  intro hlatches
  simp only [latchExecution, hout, Option.map_eq_none_iff] at hx
  have hcode : opc instr = UInt8.ofNat (opc instr).toNat := UInt8.ofNat_toNat.symm
  have hmem : (opc instr).toNat ∈ [59, 60] := by
    by_contra hnot
    simp only [instanceGroup, hnot, if_false] at hlatches
    split_ifs at hlatches
  simp only [List.mem_cons, List.not_mem_nil, or_false] at hmem
  rcases hmem with h | h <;> · rw [hcode, h] at hx; cases hx

/-- A step that executes no latch keeps all instances. -/
lemma Latch.instances_step_of_none (hx : latchExecution c e = none) :
    l.instances (step vmDecodeInstruction c e).vm = l.instances c.vm := by
  refine (offLoop_latches l).step ?_
  intro pc instr raw op hout hop vm
  refine (Latch.internal_instances l).keeps hop ?_ e.host vm raw
  cases hcase : instanceGroup (opc instr).toNat with
  | latches => exact absurd hcase (instanceGroup_ne_latches hx hout)
  | nothing => trivial
  | _ =>
    show ∀ _, _
    intro vm
    cases l <;> intros <;> rfl

/-- A step changes an instance as its execution decides. -/
lemma Latch.instances_step (hn : n < maxTimers) (c : Config) (e : Env) :
    l.instances (step vmDecodeInstruction c e).vm n =
      heldAfter l n (l.instances c.vm n) (latchExecution c e).toList := by
  cases hx : latchExecution c e with
  | none =>
    rw [Latch.instances_step_of_none hx]
    rfl
  | some x =>
    obtain ⟨pc, instr, raw, hout, hop, hx⟩ := latchExecution_eq_some hx
    have hnil : heldAfter l n (l.instances c.vm n) [] = l.instances c.vm n := rfl
    rw [(offLoop_latches l).call.step_executed hout hop, Option.toList_some,
      ← List.nil_append [x], heldAfter_concat, hnil]
    have hid : x.id = latchId raw := congrArg LatchExecution.id hx
    by_cases hl : l = x.latch
    · subst hl
      rcases Nat.lt_or_ge (latchId raw).toNat maxTimers with hlt | hge
      · rw [Latch.instances_op_of_lt hlt]
        rcases eq_or_ne n (latchId raw).toNat with rfl | hne
        · rw [Function.update_self]
          rw [hx]
          simp [LatchExecution.Of, LatchExecution.decides]
        · have hother : ¬x.Of x.latch n := fun hof => hne (hof.2.symm.trans (by rw [hid]))
          rw [Function.update_of_ne hne, if_neg fun h => hother h.1]
      · rw [Latch.instances_op_of_le hge, if_neg]
        rintro ⟨⟨-, hof⟩, -⟩
        rw [hid] at hof
        omega
    · rw [Latch.instances_op_of_ne hl, if_neg fun h => hl h.1.1.symm]

end Steps

/-! ### Runs -/

section Runs

variable {l : Latch} {n : ℕ}

lemma heldAfter_append (q : Bool) (xs ys : List LatchExecution) :
    heldAfter l n q (xs ++ ys) = heldAfter l n (heldAfter l n q xs) ys := by
  induction ys using List.reverseRecOn with
  | nil => simp [heldAfter]
  | append_singleton ys y ih => rw [← List.append_assoc, heldAfter_concat, heldAfter_concat, ih]

lemma Latch.instances_run (hn : n < maxTimers) (c : Config) (es : List Env) :
    l.instances (run (step vmDecodeInstruction) c es).vm n =
      heldAfter l n (l.instances c.vm n)
        (trace (step vmDecodeInstruction) latchExecution c es) := by
  induction es generalizing c with
  | nil => rfl
  | cons e es ih => rw [run_cons, ih, Latch.instances_step hn, trace_cons, heldAfter_append]

/-- In every run each instance holds what the last of its own executions with an input on has
decided, and each execution leaves in register A what its instance then holds. -/
theorem latches_run (h : Host) (vm : VmState) (es : List Env) :
    (∀ l : Latch, ∀ n < maxTimers, l.instances (runProgram h vm es).vm n =
      heldAfter l n (l.instances vm n)
        (trace (step vmDecodeInstruction) latchExecution (start h vm) es)) ∧
      ∀ e, ∀ x ∈ latchExecution (runProgram h vm es) e,
        (step vmDecodeInstruction (runProgram h vm es) e).vm.reg x.a =
          if x.id.toNat < maxTimers ∧ heldAfter x.latch x.id.toNat (x.latch.instances vm x.id.toNat)
            (trace (step vmDecodeInstruction) latchExecution (start h vm) es ++ [x]) = true
          then 1 else 0 := by
  have hstart : ∀ l : Latch, l.instances (start h vm).vm = l.instances vm := by
    intro l
    cases l <;> rfl
  constructor
  · intro l n hn
    rw [runProgram, Latch.instances_run hn, hstart]
  · intro e x hx
    obtain ⟨pc, instr, raw, hout, hop, heq⟩ := latchExecution_eq_some hx
    have ha : x.a = ra raw := congrArg LatchExecution.a heq
    have hid : x.id = latchId raw := congrArg LatchExecution.id heq
    have hoff : OffCall VmState.reg := fun _ _ _ _ _ _ => rfl
    rw [hoff.step_executed hout hop, ha, Latch.reg_op, ← hid]
    refine if_congr (and_congr_right ?_) rfl rfl
    intro hlt
    have hstep := Latch.instances_step (l := x.latch) hlt (runProgram h vm es) e
    rw [(offLoop_latches x.latch).call.step_executed hout hop, hx, Option.toList_some, runProgram,
      Latch.instances_run hlt, hstart, ← heldAfter_append] at hstep
    rw [runProgram, hstep]

/-- A machine with the program `RS R1, R2, R3` and `SR R4, R2, R3`, and both inputs on: the number
of register A is the number of the instance. -/
def twoLatches : VmState :=
  let vm := vmTablesInit vmCreate
  { vm with
    reg := Function.update (Function.update vm.reg 2 1) 3 1
    modules := [⟨[97], 0x3000, 8⟩]
    mem := overlay vm.mem 0x3000 (uint32Bytes 0x76020403 ++ uint32Bytes 0x78080403) }

/-- The one latch is reset, the other one set. -/
theorem latches_run_twoLatches :
    let xs := trace (step vmDecodeInstruction) latchExecution (start idleHost twoLatches)
      (List.replicate 6 idleEnv)
    xs = [⟨.rs, 1, 1, true, true⟩, ⟨.sr, 4, 4, true, true⟩] ∧
      (runProgram idleHost twoLatches (List.replicate 6 idleEnv)).vm.rsLatches 1 = false ∧
      (runProgram idleHost twoLatches (List.replicate 6 idleEnv)).vm.srLatches 4 =
        heldAfter .sr 4 false xs ∧ heldAfter .sr 4 false xs = true := by
  intro xs
  have hxs : xs = [⟨.rs, 1, 1, true, true⟩, ⟨.sr, 4, 4, true, true⟩] := by decide +kernel
  refine ⟨hxs, by decide +kernel, ?_, by rw [hxs]; decide⟩
  exact (latches_run idleHost twoLatches (List.replicate 6 idleEnv)).1 .sr 4 (by decide)

end Runs

end Vm32
