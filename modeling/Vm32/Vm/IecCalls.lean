/-
# Uses of the function blocks

The instructions of a program and the end-of-cycle update use the timers by `ton_set` and its
siblings and by `update_all_timers`, and the other blocks by their handlers.  A run of such calls
is seen by one timer as the list of its evaluations: an update of all timers repeats, at another
time, the last call of the timer.
-/
import Vm32.Lib.Runs
import Vm32.Vm.Funcs

namespace Vm32

open LabelledRun

/-! ### Calls of the runtime -/

namespace TimerKind

/-- The timers of a kind. -/
def timers : TimerKind → VmState → ℕ → IECTimer
  | ton, vm => vm.tonTimers
  | tof, vm => vm.tofTimers
  | tp, vm => vm.tpTimers
  | tonr, vm => vm.tonrTimers
  | tofr, vm => vm.tofrTimers

/-- The function that calls a timer of the kind. -/
def set : TimerKind → VmState → UInt8 → Bool → UInt32 → VmState
  | ton => tonSet
  | tof => tofSet
  | tp => tpSet
  | tonr => tonrSet
  | tofr => tofrSet

/-- The function that reads the output of a timer of the kind. -/
def q : TimerKind → VmState → UInt8 → Bool
  | ton => tonQ
  | tof => tofQ
  | tp => tpQ
  | tonr => tonrQ
  | tofr => tofrQ

end TimerKind

/-- The counters, edge detectors and latches. -/
inductive Block
  | ctu | ctd | ctud | risingEdge | fallingEdge | edgeBoth | rsLatch | srLatch
deriving DecidableEq, Repr

/-- The handler of a counter, an edge detector or a latch. -/
def Block.op : Block → OpEx
  | ctu => opCtu
  | ctd => opCtd
  | ctud => opCtud
  | risingEdge => opRisingEdge
  | fallingEdge => opFallingEdge
  | edgeBoth => opEdgeBoth
  | rsLatch => opRsLatch
  | srLatch => opSrLatch

/-- A use of the function blocks, with what other instructions do for it. -/
inductive IecCall
  /-- Virtual time goes on. -/
  | time (timeMs : UInt64)
  /-- An operand is written to a register. -/
  | reg (r : UInt8) (v : UInt32)
  | set (k : TimerKind) (id : UInt8) (input : Bool) (pt : UInt32)
  | q (k : TimerKind) (id : UInt8)
  | updateAll
  | block (b : Block) (h : Host) (i : UInt32)

/-- What a call returns, or leaves in register A. -/
inductive IecOutput
  | q (output : Bool)
  | regA (v : UInt32)
deriving DecidableEq, Repr

namespace IecCall

/-- The state after a call. -/
def apply (vm : VmState) : IecCall → VmState
  | time timeMs => { vm with timeMs := timeMs }
  | reg r v => { vm with reg := Function.update vm.reg r v }
  | set k id input pt => k.set vm id input pt
  | q _ _ => vm
  | updateAll => updateAllTimers vm
  | block b h i => b.op h vm i

/-- The output of a call. -/
def output (vm : VmState) : IecCall → Option IecOutput
  | q k id => some (.q (k.q vm id))
  | block b h i => some (.regA ((b.op h vm i).reg (ra i)))
  | _ => none

end IecCall

/-- The outputs of a sequence of calls. -/
def iecOutputs (vm : VmState) (calls : List IecCall) : List IecOutput :=
  trace IecCall.apply IecCall.output vm calls

section Calls

variable {k : TimerKind}

lemma timers_set (k k' : TimerKind) (vm : VmState) (id : UInt8) (input : Bool) (pt : UInt32) :
    k'.timers (k.set vm id input pt) =
      if k' = k then setTimer (k.update vm.timeMs) (k.timers vm) id input pt
      else k'.timers vm := by
  cases k <;> cases k' <;> rfl

lemma timers_updateAllTimers (k : TimerKind) (vm : VmState) :
    k.timers (updateAllTimers vm) = updateEach (k.update vm.timeMs) (k.timers vm) := by
  cases k <;> rfl

lemma q_eq (k : TimerKind) (vm : VmState) (id : UInt8) :
    k.q vm id = timerQ (k.timers vm) id := by
  cases k <;> rfl

lemma timers_op (b : Block) (h : Host) (vm : VmState) (i : UInt32) :
    k.timers (b.op h vm i) = k.timers vm := by
  cases b <;>
    simp only [Block.op, opCtu, opCtd, opCtud, opRisingEdge, opFallingEdge, opEdgeBoth, opRsLatch,
      opSrLatch] <;>
    split_ifs <;> cases k <;> rfl

lemma timeMs_set (k : TimerKind) (vm : VmState) (id : UInt8) (input : Bool) (pt : UInt32) :
    (k.set vm id input pt).timeMs = vm.timeMs := by
  cases k <;> rfl

lemma timeMs_op (b : Block) (h : Host) (vm : VmState) (i : UInt32) :
    (b.op h vm i).timeMs = vm.timeMs := by
  cases b <;>
    simp only [Block.op, opCtu, opCtd, opCtud, opRisingEdge, opFallingEdge, opEdgeBoth, opRsLatch,
      opSrLatch] <;>
    split_ifs <;> rfl

end Calls

/-! ### The evaluations of a timer -/

/-- A call of a timer, at a time. -/
structure TimerCall where
  timeMs : UInt64
  input : Bool
  pt : UInt32
deriving DecidableEq

/-- A timer after some calls. -/
def TimerKind.calls (k : TimerKind) (t : IECTimer) (cs : List TimerCall) : IECTimer :=
  cs.foldl (fun t c => k.update c.timeMs (t.set c.input c.pt)) t

/-- What the calls have told about a timer: the time, and the input and the preset of its last
call. -/
structure TimerView where
  timeMs : UInt64
  last : Option (Bool × UInt32)

namespace TimerView

/-- The view after a call. -/
def next (k : TimerKind) (id : UInt8) (w : TimerView) : IecCall → TimerView
  | .time timeMs => { w with timeMs := timeMs }
  | .set k' id' input pt => if k' = k ∧ id' = id then { w with last := some (input, pt) } else w
  | _ => w

/-- The evaluation of the timer by a call. -/
def evaluation (k : TimerKind) (id : UInt8) (w : TimerView) : IecCall → Option TimerCall
  | .set k' id' input pt => if k' = k ∧ id' = id then some ⟨w.timeMs, input, pt⟩ else none
  | .updateAll => w.last.map fun last => ⟨w.timeMs, last.1, last.2⟩
  | _ => none

end TimerView

/-- The evaluations of a timer that is cleared at `timeMs`, oldest first. -/
def evaluations (k : TimerKind) (id : UInt8) (timeMs : UInt64) (calls : List IecCall) :
    List TimerCall :=
  trace (TimerView.next k id) (TimerView.evaluation k id) ⟨timeMs, none⟩ calls

section Evaluations

variable {k : TimerKind} {id : UInt8} {vm : VmState} {w : TimerView}

/-- The view of a timer in a state. -/
structure TimerView.Of (k : TimerKind) (id : UInt8) (vm : VmState) (w : TimerView) : Prop where
  time : w.timeMs = vm.timeMs
  unset : w.last = none → k.timers vm id.toNat = .cleared
  set : ∀ input pt, w.last = some (input, pt) →
    (k.timers vm id.toNat).set input pt = k.timers vm id.toNat

/-- The update of a timer keeps what its last call set. -/
lemma set_update (k : TimerKind) (timeMs : UInt64) (t : IECTimer) (input : Bool) (pt : UInt32) :
    (k.update timeMs (t.set input pt)).set input pt = k.update timeMs (t.set input pt) := by
  cases k <;>
    simp only [TimerKind.update, updateTon, updateTof, updateTp, updateTonr, updateTofr] <;>
    split_ifs <;> rfl

lemma update_cleared (k : TimerKind) (timeMs : UInt64) :
    k.update timeMs .cleared = .cleared := by
  cases k <;> rfl

/-- What does not change the timer keeps the view. -/
lemma TimerView.Of.congr {vm' : VmState} {w' : TimerView} (h : w.Of k id vm)
    (htime : w'.timeMs = vm'.timeMs) (hlast : w'.last = w.last)
    (hsame : k.timers vm' id.toNat = k.timers vm id.toNat) : w'.Of k id vm' := by
  refine ⟨htime, ?_, ?_⟩
  · rw [hlast, hsame]
    exact h.unset
  · rw [hlast, hsame]
    exact h.set

/-- A timer that was evaluated with the input and the preset that the view remembers. -/
lemma TimerView.Of.of_evaluated {timeMs : UInt64} {t : IECTimer} {input : Bool} {pt : UInt32}
    (htime : w.timeMs = vm.timeMs) (hlast : w.last = some (input, pt))
    (hself : k.timers vm id.toNat = k.update timeMs (t.set input pt)) : w.Of k id vm := by
  refine ⟨htime, fun hnone => ?_, fun input' pt' hlast' => ?_⟩
  · rw [hlast] at hnone
    cases hnone
  · rw [hlast] at hlast'
    obtain ⟨rfl, rfl⟩ := Prod.mk.inj (Option.some.inj hlast')
    rw [hself]
    exact set_update k timeMs t input pt

/-- A call of the timer. -/
lemma timers_set_self (hid : id.toNat < maxTimers) (input : Bool) (pt : UInt32) :
    k.timers (k.set vm id input pt) id.toNat =
      k.update vm.timeMs ((k.timers vm id.toNat).set input pt) := by
  have hok : idOk id = true := decide_eq_true hid
  rw [timers_set, if_pos rfl, setTimer, if_pos hok, Function.update_self]

/-- A call of another timer. -/
lemma timers_set_of_ne {k' : TimerKind} {id' : UInt8} (hne : ¬(k' = k ∧ id' = id)) (input : Bool)
    (pt : UInt32) : k.timers (k'.set vm id' input pt) id.toNat = k.timers vm id.toNat := by
  rw [timers_set]
  split_ifs with hk
  · have hid : id.toNat ≠ id'.toNat := fun heq => hne ⟨hk.symm, (UInt8.toNat_inj.1 heq).symm⟩
    rw [setTimer]
    split_ifs
    · rw [Function.update_of_ne hid, hk]
    · rw [hk]
  · rfl

/-- One call: the timer is evaluated as the view tells. -/
lemma TimerView.Of.next (h : w.Of k id vm) (hid : id.toNat < maxTimers) (call : IecCall) :
    k.timers (call.apply vm) id.toNat =
        k.calls (k.timers vm id.toNat) (w.evaluation k id call).toList ∧
      (w.next k id call).Of k id (call.apply vm) := by
  cases call with
  | time timeMs =>
    have htimers : k.timers { vm with timeMs := timeMs } = k.timers vm := by cases k <;> rfl
    have hsame := congrFun htimers id.toNat
    exact ⟨hsame, h.congr rfl rfl hsame⟩
  | reg r v =>
    have htimers : k.timers { vm with reg := Function.update vm.reg r v } = k.timers vm := by
      cases k <;> rfl
    have hsame := congrFun htimers id.toNat
    exact ⟨hsame, h.congr h.time rfl hsame⟩
  | q k' id' => exact ⟨rfl, h⟩
  | block b host i =>
    have hsame := congrFun (timers_op (k := k) b host vm i) id.toNat
    exact ⟨hsame, h.congr (h.time.trans (timeMs_op b host vm i).symm) rfl hsame⟩
  | set k' id' input pt =>
    have htime := timeMs_set k' vm id' input pt
    by_cases hown : k' = k ∧ id' = id
    · obtain ⟨rfl, rfl⟩ := hown
      have hself : k'.timers (k'.set vm id' input pt) id'.toNat = _ :=
        timers_set_self hid input pt
      simp only [IecCall.apply, evaluation, TimerView.next, and_self, if_true, h.time,
        Option.toList_some]
      exact ⟨hself, .of_evaluated htime.symm rfl hself⟩
    · have hsame : k.timers (k'.set vm id' input pt) id.toNat = k.timers vm id.toNat :=
        timers_set_of_ne hown input pt
      simp only [IecCall.apply, evaluation, TimerView.next, hown, if_false, Option.toList_none]
      exact ⟨hsame, h.congr (h.time.trans htime.symm) rfl hsame⟩
  | updateAll =>
    have hself : k.timers (updateAllTimers vm) id.toNat =
        k.update vm.timeMs (k.timers vm id.toNat) := by
      rw [timers_updateAllTimers, updateEach, if_pos hid]
    have hview : w.next k id .updateAll = w := rfl
    rw [IecCall.apply, hview, evaluation]
    cases hlast : w.last with
    | none =>
      -- a timer that was never called stays cleared
      have hsame : k.timers (updateAllTimers vm) id.toNat = k.timers vm id.toNat := by
        rw [hself, h.unset hlast, update_cleared]
      exact ⟨hsame, h.congr h.time rfl hsame⟩
    | some last =>
      rw [← h.set last.1 last.2 hlast] at hself
      rw [hself, Option.map_some, Option.toList_some, h.time]
      exact ⟨rfl, .of_evaluated h.time hlast hself⟩

/-- A timer that is cleared at first is evaluated as the view tells. -/
lemma timers_run (hid : id.toNat < maxTimers) (hcleared : k.timers vm id.toNat = .cleared)
    (calls : List IecCall) :
    k.timers (run IecCall.apply vm calls) id.toNat =
      k.calls .cleared (evaluations k id vm.timeMs calls) := by
  have hall : ∀ (vm : VmState) (w : TimerView), w.Of k id vm →
      k.timers (run IecCall.apply vm calls) id.toNat = k.calls (k.timers vm id.toNat)
        (trace (TimerView.next k id) (TimerView.evaluation k id) w calls) := by
    induction calls with
    | nil => exact fun vm w h => rfl
    | cons call calls ih =>
      intro vm w h
      obtain ⟨hself, hnext⟩ := h.next hid call
      rw [run_cons, ih _ _ hnext, hself, trace_cons, TimerKind.calls, TimerKind.calls,
        TimerKind.calls, List.foldl_append]
  rw [← hcleared]
  exact hall vm ⟨vm.timeMs, none⟩ ⟨rfl, fun _ => hcleared, nofun⟩

lemma q_run (hid : id.toNat < maxTimers) (hcleared : k.timers vm id.toNat = .cleared)
    (calls : List IecCall) :
    k.q (run IecCall.apply vm calls) id =
      (k.calls .cleared (evaluations k id vm.timeMs calls)).output := by
  have hok : idOk id = true := decide_eq_true hid
  rw [q_eq, timerQ, if_pos hok, timers_run hid hcleared calls]

/-- Every preset in force was set by a call. -/
lemma evaluations_pt {P : UInt32 → Prop} {calls : List IecCall}
    (hset : ∀ input pt, IecCall.set k id input pt ∈ calls → P pt) (timeMs : UInt64) :
    ∀ e ∈ evaluations k id timeMs calls, P e.pt := by
  have hall : ∀ w : TimerView, (∀ last ∈ w.last, P last.2) →
      ∀ e ∈ trace (TimerView.next k id) (TimerView.evaluation k id) w calls, P e.pt := by
    induction calls with
    | nil => exact fun w _ e he => nomatch he
    | cons call calls ih =>
      intro w hw e he
      have hnext : ∀ last ∈ (w.next k id call).last, P last.2 := by
        cases call with
        | set k' id' input pt =>
          simp only [TimerView.next]
          split_ifs with hown
          · obtain ⟨rfl, rfl⟩ := hown
            rintro last hlast
            obtain rfl := Option.some.inj hlast
            exact hset input pt List.mem_cons_self
          · exact hw
        | _ => exact hw
      rw [trace_cons, List.mem_append, Option.mem_toList] at he
      rcases he with he | he
      · cases call with
        | set k' id' input pt =>
          simp only [TimerView.evaluation] at he
          split_ifs at he with hown
          obtain ⟨rfl, rfl⟩ := hown
          obtain rfl := Option.some.inj he
          exact hset input pt List.mem_cons_self
        | updateAll =>
          obtain ⟨last, hlast, rfl⟩ := Option.map_eq_some_iff.1 he
          exact hw last hlast
        | _ => cases he
      · -- the later calls start from what this one left
        exact ih (fun input pt hmem => hset input pt (List.mem_cons_of_mem _ hmem)) _ hnext e he
  exact hall ⟨timeMs, none⟩ nofun

end Evaluations

end Vm32
