/-
# Counters

`CTU` and `CTD` take the number of their instance from register A and put their output there, so
the output of a scan is the number of the instance of the next scan.  A counter therefore goes on
with its own instance only as long as its output happens to be the number of that instance.
-/
import Vm32.Vm.Bookkeeping
import Vm32.Vm.Handlers
import Vm32.Vm.Lifecycle
import Vm32.Vm.Loader

namespace Vm32

open LabelledRun

/-! ### The two counters with a preset -/

/-- The counters with a preset. -/
inductive CounterKind
  | ctu | ctd
deriving DecidableEq, Repr

namespace CounterKind

/-- The opcode of a counter. -/
def opcode : CounterKind → UInt8
  | ctu => 50
  | ctd => 51

/-- The handler of a counter. -/
def op : CounterKind → OpEx
  | ctu => opCtu
  | ctd => opCtd

/-- The instances of a counter, and their inputs at the scan before. -/
def instances : CounterKind → VmState → (ℕ → CTCounter) × (ℕ → Bool)
  | ctu, vm => (vm.ctuCounters, vm.ctuPrevInput)
  | ctd, vm => (vm.ctdCounters, vm.ctdPrevInput)

/-- The value of an instance. -/
def value (kind : CounterKind) (vm : VmState) (id : UInt32) : UInt32 :=
  ((kind.instances vm).1 id.toNat).value

/-- The input of an instance at the scan before. -/
def prevInput (kind : CounterKind) (vm : VmState) (id : UInt32) : Bool :=
  (kind.instances vm).2 id.toNat

/-- What a rising edge makes of the value. -/
def count : CounterKind → UInt32 → UInt32
  | ctu, v => if v < 0xFFFFFFFF then v + 1 else v
  | ctd, v => if 0 < v then v - 1 else v

/-- The value has reached the preset. -/
def reached : CounterKind → UInt32 → UInt32 → Bool
  | ctu, v, preset => preset ≤ v
  | ctd, v, preset => v ≤ preset

section Handlers

lemma ite_and_decide {α : Type*} {p : Prop} [Decidable p] (b : Bool) (x y : α) :
    (if b && decide p then x else y) = if b then (if p then x else y) else y := by
  cases b <;> simp

variable {kind : CounterKind} {vm : VmState} {i : UInt32}

lemma opEx_opcode (kind : CounterKind) : opEx kind.opcode = some kind.op := by
  cases kind <;> rfl

/-- A counter counts a rising edge of its input, and sets register A if the preset is reached. -/
lemma op_spec (hid : (vm.reg (ra i)).toNat < maxTimers) (h : Host) :
    let id := vm.reg (ra i)
    let input := vm.reg (rb i) != 0
    let after := kind.op h vm i
    kind.value after id =
        (if input && !kind.prevInput vm id then kind.count (kind.value vm id)
          else kind.value vm id) ∧
      kind.prevInput after id = input ∧
      after.reg (ra i) = if kind.reached (kind.value after id) (cvOrImm vm i) then 1 else 0 := by
  have hin : idOutOfRange (vm.reg (ra i)).toInt32 = false := by
    rw [← Bool.not_eq_true, idOutOfRange_iff]
    omega
  cases kind with
  | ctu =>
    simp only [op, opCtu, hin, Bool.false_eq_true, if_false, value, prevInput, instances, setAVal,
      Function.update_self, count, reached, decide_eq_true_eq]
    exact ⟨ite_and_decide _ _ _, trivial, trivial⟩
  | ctd =>
    simp only [op, opCtd, hin, Bool.false_eq_true, if_false, value, prevInput, instances, setAVal,
      Function.update_self, count, reached, decide_eq_true_eq]
    exact ⟨ite_and_decide _ _ _, trivial, trivial⟩

lemma aside_instances (kind : CounterKind) : Aside kind.instances := by
  cases kind <;>
  exact ⟨fun _ _ => rfl, fun _ _ => rfl, fun _ _ _ _ => rfl, fun _ _ _ _ => rfl,
    fun _ _ _ _ => rfl, fun _ _ _ => rfl, fun _ _ _ _ _ => rfl⟩

/-- Only the handler of a counter changes its instances. -/
lemma keeps_instances {opcode : UInt8} {op : OpEx} (hop : opEx opcode = some op)
    (hne : opcode ≠ kind.opcode) : Keeps kind.instances op := by
  intro h vm i
  by_cases hctu : opcode = 50
  · subst hctu
    obtain rfl : opCtu = op := Option.some.inj hop
    cases kind with
    | ctu => exact absurd rfl hne
    | ctd =>
      rw [opCtu]
      split_ifs <;> rfl
  by_cases hctd : opcode = 51
  · subst hctd
    obtain rfl : opCtd = op := Option.some.inj hop
    cases kind with
    | ctu =>
      rw [opCtd]
      split_ifs <;> rfl
    | ctd => exact absurd rfl hne
  exact (aside_instances kind).keeps hop hctu hctd h vm i

end Handlers

end CounterKind

/-! ### What a counter is for -/

/-- The number of rising edges of an input, after the value `prev`. -/
def risingEdges : Bool → List Bool → ℕ
  | _, [] => 0
  | prev, b :: bs => (b && !prev).toNat + risingEdges b bs

lemma risingEdges_append (prev b : Bool) (bs : List Bool) :
    risingEdges prev (bs ++ [b]) = risingEdges prev bs + (b && !bs.getLastD prev).toNat := by
  induction bs generalizing prev with
  | nil => simp [risingEdges]
  | cons b' bs ih =>
    rw [List.cons_append, risingEdges, ih, risingEdges, List.getLastD_cons, Nat.add_assoc]

section Specification

namespace CounterKind

/-- The value that `v₀` has become after `n` rising edges. -/
def valueAfter : CounterKind → ℕ → ℕ → ℕ
  | ctu, v₀, n => min (v₀ + n) 0xFFFFFFFF
  | ctd, v₀, n => v₀ - n

/-- The output is due after `n` rising edges: for `CTU` the edges have reached the preset, for
`CTD` the value has. -/
def DueAfter : CounterKind → ℕ → ℕ → ℕ → Prop
  | ctu, v₀, n, preset => preset ≤ v₀ + n
  | ctd, v₀, n, preset => v₀ - n ≤ preset

instance : ∀ (kind : CounterKind) (v₀ n preset : ℕ), Decidable (kind.DueAfter v₀ n preset)
  | ctu, v₀, n, preset => inferInstanceAs (Decidable (preset ≤ v₀ + n))
  | ctd, v₀, n, preset => inferInstanceAs (Decidable (v₀ - n ≤ preset))

variable {kind : CounterKind} {v₀ n : ℕ} {v : UInt32}

lemma toNat_count (hv : v.toNat = kind.valueAfter v₀ n) :
    (kind.count v).toNat = kind.valueAfter v₀ (n + 1) := by
  have hlt := v.toNat_lt
  cases kind with
  | ctu =>
    simp only [valueAfter, count, UInt32.lt_iff_toNat_lt, UInt32.reduceToNat] at hv ⊢
    split_ifs with hmax
    · simp only [UInt32.toNat_add, UInt32.reduceToNat]
      omega
    · omega
  | ctd =>
    simp only [valueAfter, count, UInt32.lt_iff_toNat_lt, UInt32.reduceToNat] at hv ⊢
    split_ifs with hpos
    · have hone : (1 : UInt32) ≤ v := UInt32.le_iff_toNat_le.2 hpos
      simp only [UInt32.toNat_sub_of_le _ _ hone, UInt32.reduceToNat]
      omega
    · omega

/-- The saturation of the value does not show in the output. -/
lemma reached_iff (hv : v.toNat = kind.valueAfter v₀ n) (preset : UInt32) :
    kind.reached v preset = true ↔ kind.DueAfter v₀ n preset.toNat := by
  have hlt := preset.toNat_lt
  cases kind with
  | ctu =>
    simp only [reached, decide_eq_true_eq, UInt32.le_iff_toNat_le, hv, valueAfter, DueAfter]
    omega
  | ctd => simp only [reached, decide_eq_true_eq, UInt32.le_iff_toNat_le, hv, valueAfter, DueAfter]

end CounterKind

end Specification

/-! ### Scans -/

/-- What a counter finds at a scan: the number of an instance in register A, the input in register
B, and the preset. -/
structure Scan where
  id : UInt32
  input : Bool
  preset : UInt32
deriving DecidableEq, Repr

namespace CounterKind

/-- The scan of the counter instruction `w` by a step, if the step calls its handler. -/
def scan (kind : CounterKind) (w : UInt32) (c : Config) (e : Env) : Option Scan :=
  match outcome vmDecodeInstruction c e with
  | some (.executed _ instr raw) =>
    if opc instr = kind.opcode ∧ raw = w then
      some ⟨c.vm.reg (ra w), c.vm.reg (rb w) != 0, cvOrImm c.vm w⟩
    else none
  | _ => none

/-- The counter has the preset `preset`, it is the only one of its kind, and no other step writes
its register A. -/
def OnlyCounter (kind : CounterKind) (w preset : UInt32) (c : Config) (e : Env) : Prop :=
  (∀ s ∈ kind.scan w c e, s.preset = preset) ∧
    (kind.scan w c e = none →
      (∀ o ∈ outcome vmDecodeInstruction c e, ∀ q ∈ o.handled, opc q.2 ≠ kind.opcode) ∧
        (step vmDecodeInstruction c e).vm.reg (ra w) = c.vm.reg (ra w))

instance (kind : CounterKind) (w preset : UInt32) (c : Config) (e : Env) :
    Decidable (kind.OnlyCounter w preset c e) :=
  inferInstanceAs (Decidable ((∀ s ∈ kind.scan w c e, s.preset = preset) ∧
    (kind.scan w c e = none →
      (∀ o ∈ outcome vmDecodeInstruction c e, ∀ q ∈ o.handled, opc q.2 ≠ kind.opcode) ∧
        (step vmDecodeInstruction c e).vm.reg (ra w) = c.vm.reg (ra w))))

/-- The rising edges in some scans for the instance `id`, as it is in `vm`. -/
def edges (kind : CounterKind) (vm : VmState) (id : UInt32) (scans : List Scan) : ℕ :=
  risingEdges (kind.prevInput vm id) (scans.map Scan.input)

/-- The output is due after some scans, for the instance `id` as it is in `vm`. -/
def Due (kind : CounterKind) (vm : VmState) (id preset : UInt32) (scans : List Scan) : Prop :=
  kind.DueAfter (kind.value vm id).toNat (kind.edges vm id scans) preset.toNat

instance (kind : CounterKind) (vm : VmState) (id preset : UInt32) (scans : List Scan) :
    Decidable (kind.Due vm id preset scans) :=
  inferInstanceAs (Decidable (DueAfter _ _ _ _))

/-- A step in a run with the past scans `x.2` drives the instance `id`: a scan is one of this
instance, whose value counts the rising edges since `vm`, and register A is 1 exactly if the
output is due. -/
structure DrivesOwn (kind : CounterKind) (w id preset : UInt32) (vm : VmState)
    (x : Config × List Scan) (e : Env) : Prop where
  own : ∀ s ∈ kind.scan w x.1 e, s.id = id
  value : (kind.value (step vmDecodeInstruction x.1 e).vm id).toNat =
    kind.valueAfter (kind.value vm id).toNat
      (kind.edges vm id (x.2 ++ (kind.scan w x.1 e).toList))
  output : x.2 ++ (kind.scan w x.1 e).toList ≠ [] →
    ((step vmDecodeInstruction x.1 e).vm.reg (ra w) = 1 ↔
      kind.Due vm id preset (x.2 ++ (kind.scan w x.1 e).toList))

/-- If a step is a scan and there were scans before, then the number of the instance is the output
that is due from them. -/
def DueIsId (kind : CounterKind) (w id preset : UInt32) (vm : VmState) (x : Config × List Scan)
    (e : Env) : Prop :=
  kind.scan w x.1 e ≠ none → x.2 ≠ [] → id = if kind.Due vm id preset x.2 then 1 else 0

end CounterKind

/-! ### Steps -/

namespace CounterKind

section Steps

variable {kind : CounterKind} {w id preset : UInt32} {c : Config} {e : Env}

lemma offLoop_instances (kind : CounterKind) : OffLoop kind.instances := by
  constructor
  · intro vm sig pending
    cases kind <;> rfl
  · intro vm mem modules size hash pending
    cases kind <;> rfl
  · intro vm stop count hash
    cases kind <;> rfl
  · intro vm pc running cache time accum
    cases kind <;> rfl
  · intro vm time hash
    cases kind <;> rfl

/-- A step that calls no handler of the counter. -/
lemma step_instances
    (hother : ∀ o ∈ outcome vmDecodeInstruction c e, ∀ q ∈ o.handled, opc q.2 ≠ kind.opcode) :
    kind.instances (step vmDecodeInstruction c e).vm = kind.instances c.vm := by
  refine (offLoop_instances kind).step fun pc instr raw op hout hop vm => ?_
  have hne : opc instr ≠ kind.opcode := hother _ hout (pc, instr) rfl
  exact keeps_instances hop hne e.host vm raw

/-- A step that is a scan. -/
lemma step_scan {s : Scan} (hs : s ∈ kind.scan w c e) :
    s = ⟨c.vm.reg (ra w), c.vm.reg (rb w) != 0, cvOrImm c.vm w⟩ ∧
      kind.instances (step vmDecodeInstruction c e).vm = kind.instances (kind.op e.host c.vm w) ∧
      (step vmDecodeInstruction c e).vm.reg = (kind.op e.host c.vm w).reg := by
  rw [Option.mem_def, scan] at hs
  cases hout : outcome vmDecodeInstruction c e with
  | none => simp [hout] at hs
  | some o =>
    cases o with
    | executed pc instr raw =>
      simp only [hout] at hs
      split_ifs at hs with hw
      obtain ⟨hopcode, rfl⟩ := hw
      have hop : opEx (opc instr) = some kind.op := hopcode ▸ opEx_opcode kind
      have hreg : OffCall VmState.reg := fun _ _ _ _ _ _ => rfl
      exact ⟨(Option.some.inj hs).symm, (offLoop_instances kind).call.step_executed hout hop,
        hreg.step_executed hout hop⟩
    | _ => simp [hout] at hs

end Steps

/-! ### Runs -/

section Runs

variable {kind : CounterKind} {w id preset : UInt32} {vm : VmState} {x : Config × List Scan}
  {e : Env}

/-- The past scans were all scans of the instance `id`. -/
structure OnTrack (kind : CounterKind) (w id preset : UInt32) (vm : VmState)
    (x : Config × List Scan) : Prop where
  reg : x.1.vm.reg (ra w) =
    if x.2 = [] then id else if kind.Due vm id preset x.2 then 1 else 0
  value : (kind.value x.1.vm id).toNat =
    kind.valueAfter (kind.value vm id).toNat (kind.edges vm id x.2)
  prevInput : kind.prevInput x.1.vm id =
    (x.2.map Scan.input).getLastD (kind.prevInput vm id)

/-- A scan of the instance goes on with what the past scans have left there. -/
lemma OnTrack.next (hx : kind.OnTrack w id preset vm x) (hid : id.toNat < maxTimers)
    (honly : kind.OnlyCounter w preset x.1 e) (hown : ∀ s ∈ kind.scan w x.1 e, s.id = id) :
    kind.OnTrack w id preset vm (recording (step vmDecodeInstruction) (kind.scan w) x e) := by
  cases hscan : kind.scan w x.1 e with
  | none =>
    -- the step evaluates another kind of block, or none
    obtain ⟨hother, hreg⟩ := honly.2 hscan
    have hinstances := step_instances hother
    have hnext : recording (step vmDecodeInstruction) (kind.scan w) x e =
        (step vmDecodeInstruction x.1 e, x.2) := by
      rw [recording, hscan, Option.toList_none, List.append_nil]
    rw [hnext]
    refine ⟨hreg.trans hx.reg, ?_, ?_⟩
    · rw [← hx.value, CounterKind.value, CounterKind.value, hinstances]
    · rw [← hx.prevInput, CounterKind.prevInput, CounterKind.prevInput, hinstances]
  | some s =>
    obtain ⟨hs, hinstances, hreg⟩ := step_scan hscan
    have hpreset := honly.1 s hscan
    have hA : x.1.vm.reg (ra w) = id := by
      rw [← hown s hscan, hs]
    have hnext : recording (step vmDecodeInstruction) (kind.scan w) x e =
        (step vmDecodeInstruction x.1 e, x.2 ++ [s]) := by
      rw [recording, hscan, Option.toList_some]
    have hfits : (x.1.vm.reg (ra w)).toNat < maxTimers := by
      rw [hA]
      exact hid
    obtain ⟨hvalue, hprev, hout⟩ := @op_spec kind x.1.vm w hfits e.host
    rw [hA] at hvalue hprev hout
    generalize kind.op e.host x.1.vm w = after at hinstances hreg hvalue hprev hout
    -- this evaluation adds an edge if the input rose since the last one
    have hedges : kind.edges vm id (x.2 ++ [s]) =
        kind.edges vm id x.2 + (s.input && !kind.prevInput x.1.vm id).toNat := by
      rw [edges, edges, hx.prevInput, List.map_append, List.map_singleton, risingEdges_append]
    have hcount : (kind.value after id).toNat =
        kind.valueAfter (kind.value vm id).toNat (kind.edges vm id (x.2 ++ [s])) := by
      rw [hvalue, hedges, hs]
      cases x.1.vm.reg (rb w) != 0 && !kind.prevInput x.1.vm id with
      | false => exact hx.value
      -- the counter stops at its limit, and so does `valueAfter`
      | true => exact toNat_count hx.value
    rw [hnext]
    refine ⟨?_, ?_, ?_⟩
    · rw [hreg, hout, if_neg (List.append_ne_nil_of_right_ne_nil _ (List.cons_ne_nil _ _))]
      refine if_congr ?_ rfl rfl
      rw [reached_iff hcount, Due, ← hpreset, hs]
    · rw [← hcount, CounterKind.value, CounterKind.value, hinstances]
    · rw [List.map_append, List.map_singleton, List.getLastD_concat, CounterKind.prevInput,
        hinstances, hs]
      exact hprev

/-- What a machine that is on track after a step shows. -/
lemma OnTrack.drivesOwn
    (hx : kind.OnTrack w id preset vm (recording (step vmDecodeInstruction) (kind.scan w) x e))
    (hown : ∀ s ∈ kind.scan w x.1 e, s.id = id) : kind.DrivesOwn w id preset vm x e := by
  refine ⟨hown, hx.value, fun hne => ?_⟩
  have hreg : (step vmDecodeInstruction x.1 e).vm.reg (ra w) =
      if kind.Due vm id preset (x.2 ++ (kind.scan w x.1 e).toList) then 1 else 0 :=
    hx.reg.trans (if_neg hne)
  rw [hreg]
  split_ifs with hdue
  · simp [hdue]
  · simp [hdue]

lemma scan_id {s : Scan} {c : Config} (hs : s ∈ kind.scan w c e) : s.id = c.vm.reg (ra w) := by
  rw [(step_scan hs).1]

/-- A counter that drives its own instance never scans another one. -/
lemma id_of_mem_trace {c : Config} {es : List Env}
    (hdrives : Along (recording (step vmDecodeInstruction) (kind.scan w))
      (kind.DrivesOwn w id preset vm) (c, []) es)
    {s : Scan} (hs : s ∈ trace (step vmDecodeInstruction) (kind.scan w) c es) : s.id = id := by
  obtain ⟨pre, e, post, hsplit, hscan⟩ := mem_trace.1 hs
  refine (along_iff.1 hdrives pre e post hsplit).own s ?_
  rw [run_recording]
  exact hscan

/-- In every run in which nothing else writes register A, a counter drives its own instance
exactly if, whenever it is scanned again, the output due from the past scans is the number of the
instance. -/
theorem drives_own_iff {c : Config} {es : List Env} (hid : id.toNat < maxTimers)
    (hA : c.vm.reg (ra w) = id)
    (honly : Along (step vmDecodeInstruction) (kind.OnlyCounter w preset) c es) :
    Along (recording (step vmDecodeInstruction) (kind.scan w))
        (kind.DrivesOwn w id preset c.vm) (c, []) es ↔
      Along (recording (step vmDecodeInstruction) (kind.scan w))
        (kind.DueIsId w id preset c.vm) (c, []) es := by
  have honly' : Along (recording (step vmDecodeInstruction) (kind.scan w))
      (fun x e => kind.OnlyCounter w preset x.1 e) (c, []) es := (along_recording []).2 honly
  -- before the first evaluation no edge is recorded
  have hstart : kind.OnTrack w id preset c.vm (c, []) := by
    refine ⟨hA, ?_, rfl⟩
    cases kind with
    | ctu => exact (Nat.min_eq_left (Nat.le_of_lt_succ (value ctu c.vm id).toNat_lt)).symm
    | ctd => rfl
  constructor
  · intro hdrives
    refine (honly'.and hdrives).strengthen hstart ?_ ?_
    · rintro x e hx ⟨honly, hdrives⟩
      exact hx.next hid honly hdrives.own
    · rintro x e hx ⟨-, hdrives⟩ hscan hpast
      obtain ⟨s, hs⟩ := Option.ne_none_iff_exists'.1 hscan
      have hown := hdrives.own s hs
      rw [scan_id hs, hx.reg, if_neg hpast] at hown
      exact hown.symm
  · intro hdue
    -- after the first evaluation the register holds the output of the one before
    have hown : ∀ x e, kind.OnTrack w id preset c.vm x → kind.DueIsId w id preset c.vm x e →
        ∀ s ∈ kind.scan w x.1 e, s.id = id := by
      intro x e hx hdue s hs
      rw [scan_id hs, hx.reg]
      split_ifs with hpast hout
      · rfl
      · rw [hdue (by rw [hs]; simp) hpast, if_pos hout]
      · rw [hdue (by rw [hs]; simp) hpast, if_neg hout]
    refine (honly'.and hdue).strengthen hstart ?_ ?_
    · rintro x e hx ⟨honly, hdue⟩
      exact hx.next hid honly (hown x e hx hdue)
    · rintro x e hx ⟨honly, hdue⟩
      exact (hx.next hid honly (hown x e hx hdue)).drivesOwn (hown x e hx hdue)

/-- A machine with the program `CTU R1, R2, #2` and `XOR R2, R2, #1`, whose input changes with each
scan. -/
def counting (id : UInt32) : VmState :=
  let vm := vmTablesInit vmCreate
  { vm with
    reg := Function.update (Function.update vm.reg 1 id) 2 1
    modules := [⟨[97], 0x3000, 8⟩]
    mem := overlay vm.mem 0x3000 (uint32Bytes 0x64020502 ++ uint32Bytes 0x26040501) }

/-- The instance 0, up to the scan that reaches the preset. -/
theorem drives_own_iff_counting :
    let c := start idleHost (counting 0)
    let es := List.replicate 27 idleEnv
    Along (recording (step vmDecodeInstruction) (ctu.scan 0x64020502))
        (ctu.DrivesOwn 0x64020502 0 2 c.vm) (c, []) es ↔
      Along (recording (step vmDecodeInstruction) (ctu.scan 0x64020502))
        (ctu.DueIsId 0x64020502 0 2 c.vm) (c, []) es :=
  drives_own_iff (by decide) rfl (by decide +kernel)

/-- The instance 2 is scanned once: the next scans are those of the instance 0, and at the second
rising edge of the input the preset 2 is not reached. -/
theorem counter_leaves_instance :
    let c := start idleHost (counting 2)
    let es := List.replicate 27 idleEnv
    c.vm.reg (ra 0x64020502) = 2 ∧
      Along (step vmDecodeInstruction) (ctu.OnlyCounter 0x64020502 2) c es ∧
      trace (step vmDecodeInstruction) (ctu.scan 0x64020502) c es =
        [⟨2, true, 2⟩, ⟨0, false, 2⟩, ⟨0, true, 2⟩] ∧
      (run (step vmDecodeInstruction) c es).vm.reg (ra 0x64020502) = 0 ∧
      ctu.Due c.vm 2 2 (trace (step vmDecodeInstruction) (ctu.scan 0x64020502) c es) ∧
      ¬Along (recording (step vmDecodeInstruction) (ctu.scan 0x64020502))
        (ctu.DrivesOwn 0x64020502 2 2 c.vm) (c, []) es := by
  intro c es
  have htrace : trace (step vmDecodeInstruction) (ctu.scan 0x64020502) c es =
      [⟨2, true, 2⟩, ⟨0, false, 2⟩, ⟨0, true, 2⟩] := by decide +kernel
  refine ⟨rfl, by decide +kernel, htrace, by decide +kernel, by decide +kernel, fun hdrives => ?_⟩
  have hid := id_of_mem_trace hdrives (s := ⟨0, false, 2⟩) (by simp [htrace])
  cases hid

end Runs

end CounterKind

end Vm32
