/-
# What the handlers share

Each handler writes registers, memory, or the instances of one function block, and the jumps,
`EXIT` and `HALT` write the control fields.  So what depends on nothing of this is left alone by
all handlers.  The counters and the edge detectors are excepted here, as their instances are of
interest below.
-/
import Vm32.Vm.Frame

namespace Vm32

variable {β : Type*} {f : VmState → β}

/-- The handler leaves the value alone. -/
def Keeps (f : VmState → β) (op : OpEx) : Prop := ∀ h vm i, f (op h vm i) = f vm

/-- The value depends on nothing that a handler other than those of the counters and the edge
detectors writes. -/
structure Outside (f : VmState → β) : Prop where
  reg : ∀ (vm : VmState) r, f { vm with reg := r } = f vm
  mem : ∀ (vm : VmState) m, f { vm with mem := m } = f vm
  timers : ∀ (vm : VmState) ton tof tp,
    f { vm with tonTimers := ton, tofTimers := tof, tpTimers := tp } = f vm
  latches : ∀ (vm : VmState) rs sr, f { vm with rsLatches := rs, srLatches := sr } = f vm
  control : ∀ (vm : VmState) pc running stopRequested exitCode,
    f { vm with
      pc := pc, running := running, stopRequested := stopRequested, exitCode := exitCode } = f vm

namespace Outside

section Access

variable (hf : Outside f) (vm : VmState)

include hf

lemma setAVal (i v : UInt32) : f (setAVal vm i v) = f vm := hf.reg vm _

lemma vmMw32 (a v : UInt32) : f (vmMw32 vm a v) = f vm := hf.mem vm _

lemma memmove (dest src n : ℕ) : f (memmove vm dest src n) = f vm := hf.mem vm _

lemma safeMemmove (dest src : UInt32) (n : ℕ) : f (safeMemmove vm dest src n) = f vm := hf.mem vm _

lemma setNullAt (a : ℕ) : f (setNullAt vm a) = f vm := by
  rw [Vm32.setNullAt]
  split_ifs
  · exact hf.mem vm _
  · rfl

lemma opTimer {set : VmState → UInt8 → Bool → UInt32 → VmState} {q : VmState → UInt8 → Bool}
    (hset : ∀ vm id b pt, f (set vm id b pt) = f vm) (i : UInt32) :
    f (opTimer set q vm i) = f vm := by
  simp only [Vm32.opTimer, apply_ite f, hf.setAVal, hset, ite_self]

lemma opTon (h : Host) (i : UInt32) : f (opTon h vm i) = f vm :=
  hf.opTimer vm (fun vm _ _ _ => hf.timers vm _ vm.tofTimers vm.tpTimers) i

lemma opTof (h : Host) (i : UInt32) : f (opTof h vm i) = f vm :=
  hf.opTimer vm (fun vm _ _ _ => hf.timers vm vm.tonTimers _ vm.tpTimers) i

lemma opTp (h : Host) (i : UInt32) : f (opTp h vm i) = f vm :=
  hf.opTimer vm (fun vm _ _ _ => hf.timers vm vm.tonTimers vm.tofTimers _) i

end Access

/-- The opcodes of the counters and the edge detectors. -/
def excepted : List ℕ := [50, 51, 52, 56, 57, 58]

/-- All handlers but those that are excepted. -/
lemma keeps_of_mem (hf : Outside f) : ∀ op ∈ defaultOpEx.take 50 ++
    ((defaultOpEx.drop 53).take 3 ++ defaultOpEx.drop 59), Keeps f op := by
  simp only [defaultOpEx, List.take_succ_cons, List.take_zero, List.drop_succ_cons, List.drop_zero,
    List.cons_append, List.nil_append, List.forall_mem_cons, List.not_mem_nil, false_imp_iff,
    implies_true, and_true]
  and_intros
  all_goals intro h vm i
  -- most handlers only write register A; the others do more, or do it behind a check
  all_goals first
    | simp only [opLen, opConcat, opLeft, opRight, opMid, opInsert, opDelete, opReplace, opSel,
        opMux, opRsLatch, opSrLatch, opDemux, opJmp, opJmpIf, opJmpIfNot, opExit, opHalt, opNop,
        hf.opTon, hf.opTof, hf.opTp, apply_ite f, hf.setAVal, hf.memmove, hf.safeMemmove,
        hf.setNullAt, hf.vmMw32, hf.latches, hf.control, ite_self]
    | exact hf.setAVal vm i _

theorem keeps (hf : Outside f) {opcode : UInt8} {op : OpEx} (hop : opEx opcode = some op)
    (hopcode : opcode.toNat ∉ excepted) : Keeps f op := by
  have hget : defaultOpEx[opcode.toNat]? = some op := hop
  simp only [excepted, List.mem_cons, List.not_mem_nil, or_false, not_or] at hopcode
  refine hf.keeps_of_mem op ?_
  rw [List.mem_append, List.mem_append]
  rcases Nat.lt_or_ge opcode.toNat 50 with hlt | hge
  · refine Or.inl (List.mem_of_getElem? (i := opcode.toNat) ?_)
    rw [List.getElem?_take_of_lt hlt, hget]
  rcases Nat.lt_or_ge opcode.toNat 56 with hlt | hge'
  · refine Or.inr (Or.inl (List.mem_of_getElem? (i := opcode.toNat - 53) ?_))
    rw [List.getElem?_take_of_lt (by omega), List.getElem?_drop, Nat.add_sub_cancel' (by omega),
      hget]
  · refine Or.inr (Or.inr (List.mem_of_getElem? (i := opcode.toNat - 59) ?_))
    rw [List.getElem?_drop, Nat.add_sub_cancel' (by omega), hget]

end Outside

/-- The value depends on nothing that a handler other than those of `CTU` and `CTD` writes. -/
structure Aside (f : VmState → β) : Prop where
  reg : ∀ (vm : VmState) r, f { vm with reg := r } = f vm
  mem : ∀ (vm : VmState) m, f { vm with mem := m } = f vm
  timers : ∀ (vm : VmState) ton tof tp,
    f { vm with tonTimers := ton, tofTimers := tof, tpTimers := tp } = f vm
  ctud : ∀ (vm : VmState) counters up down,
    f { vm with ctudCounters := counters, ctudPrevUp := up, ctudPrevDown := down } = f vm
  edges : ∀ (vm : VmState) rising falling both,
    f { vm with edgePrevRising := rising, edgePrevFalling := falling, edgePrevBoth := both } = f vm
  latches : ∀ (vm : VmState) rs sr, f { vm with rsLatches := rs, srLatches := sr } = f vm
  control : ∀ (vm : VmState) pc running stopRequested exitCode,
    f { vm with
      pc := pc, running := running, stopRequested := stopRequested, exitCode := exitCode } = f vm

namespace Aside

lemma outside (hf : Aside f) : Outside f :=
  ⟨hf.reg, hf.mem, hf.timers, hf.latches, hf.control⟩

/-- All handlers but those of `CTU` and `CTD`. -/
theorem keeps (hf : Aside f) {opcode : UInt8} {op : OpEx} (hop : opEx opcode = some op)
    (hctu : opcode ≠ 50) (hctd : opcode ≠ 51) : Keeps f op := by
  by_cases hout : opcode.toNat ∈ Outside.excepted
  · have hreg := hf.outside.setAVal
    have hone : ∀ n : ℕ, opcode.toNat = n → opcode = UInt8.ofNat n := by
      rintro n rfl
      exact UInt8.ofNat_toNat.symm
    simp only [Outside.excepted, List.mem_cons, List.not_mem_nil, or_false] at hout
    rcases hout with hcode | hcode | hcode | hcode | hcode | hcode
    · exact absurd (hone 50 hcode) hctu
    · exact absurd (hone 51 hcode) hctd
    all_goals
      obtain rfl := hone _ hcode
      obtain rfl := Option.some.inj hop
      intro h vm i
      simp only [opCtud, opRisingEdge, opFallingEdge, opEdgeBoth, apply_ite f, hreg, hf.ctud,
        hf.edges, ite_self]
  · exact hf.outside.keeps hop hout

end Aside

/-! ### Groups of handlers -/

/-- The instances that a handler may change, besides registers, memory and the control fields. -/
inductive InstanceGroup
  | nothing | timers | ctu | ctd | ctud | edges | latches
deriving DecidableEq, Repr

/-- The group of an opcode. -/
def instanceGroup (opcode : ℕ) : InstanceGroup :=
  if opcode ∈ [47, 48, 49] then .timers
  else if opcode = 50 then .ctu
  else if opcode = 51 then .ctd
  else if opcode = 52 then .ctud
  else if opcode ∈ [56, 57, 58] then .edges
  else if opcode ∈ [59, 60] then .latches
  else .nothing

/-- The value does not depend on the instances of the group. -/
def InstanceGroup.Apart (f : VmState → β) : InstanceGroup → Prop
  | nothing => True
  | timers => ∀ (vm : VmState) ton tof tp,
      f { vm with tonTimers := ton, tofTimers := tof, tpTimers := tp } = f vm
  | ctu => ∀ (vm : VmState) counters prev,
      f { vm with ctuCounters := counters, ctuPrevInput := prev } = f vm
  | ctd => ∀ (vm : VmState) counters prev,
      f { vm with ctdCounters := counters, ctdPrevInput := prev } = f vm
  | ctud => ∀ (vm : VmState) counters up down,
      f { vm with ctudCounters := counters, ctudPrevUp := up, ctudPrevDown := down } = f vm
  | edges => ∀ (vm : VmState) rising falling both,
      f { vm with
        edgePrevRising := rising, edgePrevFalling := falling, edgePrevBoth := both } = f vm
  | latches => ∀ (vm : VmState) rs sr, f { vm with rsLatches := rs, srLatches := sr } = f vm

/-- The value depends neither on the registers nor on memory nor on the control fields. -/
structure Internal (f : VmState → β) : Prop where
  reg : ∀ (vm : VmState) r, f { vm with reg := r } = f vm
  mem : ∀ (vm : VmState) m, f { vm with mem := m } = f vm
  control : ∀ (vm : VmState) pc running stopRequested exitCode,
    f { vm with
      pc := pc, running := running, stopRequested := stopRequested, exitCode := exitCode } = f vm

namespace Internal

section Access

variable (hf : Internal f) (vm : VmState)

include hf

lemma setAVal (i v : UInt32) : f (setAVal vm i v) = f vm := hf.reg vm _

lemma vmMw32 (a v : UInt32) : f (vmMw32 vm a v) = f vm := hf.mem vm _

lemma memmove (dest src n : ℕ) : f (memmove vm dest src n) = f vm := hf.mem vm _

lemma safeMemmove (dest src : UInt32) (n : ℕ) : f (safeMemmove vm dest src n) = f vm := hf.mem vm _

lemma setNullAt (a : ℕ) : f (setNullAt vm a) = f vm := by
  rw [Vm32.setNullAt]
  split_ifs
  · exact hf.mem vm _
  · rfl

end Access

/-- The handlers of `TON`, `TOF` and `TP`. -/
lemma keeps_timers (hf : Internal f) (hgroup : InstanceGroup.timers.Apart f) :
    Keeps f opTon ∧ Keeps f opTof ∧ Keeps f opTp := by
  have htimer : ∀ (set : VmState → UInt8 → Bool → UInt32 → VmState) (q : VmState → UInt8 → Bool),
      (∀ vm id b pt, f (set vm id b pt) = f vm) → ∀ vm i, f (opTimer set q vm i) = f vm := by
    intro set q hset vm i
    simp only [opTimer, apply_ite f, hf.setAVal, hset, ite_self]
  exact ⟨fun _ => htimer _ _ fun vm _ _ _ => hgroup vm _ vm.tofTimers vm.tpTimers,
    fun _ => htimer _ _ fun vm _ _ _ => hgroup vm vm.tonTimers _ vm.tpTimers,
    fun _ => htimer _ _ fun vm _ _ _ => hgroup vm vm.tonTimers vm.tofTimers _⟩

/-- The handlers that belong to no group. -/
lemma keeps_of_nothing (hf : Internal f) {n : ℕ} {op : OpEx} (hget : defaultOpEx[n]? = some op)
    (hgroup : instanceGroup n = .nothing) : Keeps f op := by
  have hlt : n < 68 := length_defaultOpEx ▸ (List.getElem?_eq_some_iff.1 hget).1
  intro h vm i
  interval_cases n
  all_goals first
    | exact absurd hgroup (by decide)
    | obtain rfl := Option.some.inj hget
  -- most handlers only write register A; the others do more, or do it behind a check
  all_goals first
    | simp only [opLen, opConcat, opLeft, opRight, opMid, opInsert, opDelete, opReplace, opSel,
        opMux, opDemux, opJmp, opJmpIf, opJmpIfNot, opExit, opHalt, opNop, apply_ite f,
        hf.setAVal, hf.memmove, hf.safeMemmove, hf.setNullAt, hf.vmMw32, hf.control, ite_self]
    | exact hf.setAVal vm i _

/-- A handler changes the instances of its own group only. -/
theorem keeps (hf : Internal f) {opcode : UInt8} {op : OpEx} (hop : opEx opcode = some op)
    (hgroup : (instanceGroup opcode.toNat).Apart f) : Keeps f op := by
  have hget : defaultOpEx[opcode.toNat]? = some op := hop
  generalize opcode.toNat = n at hget hgroup
  by_cases hn : instanceGroup n = .nothing
  · exact hf.keeps_of_nothing hget hn
  have hmem : n ∈ [47, 48, 49, 50, 51, 52, 56, 57, 58, 59, 60] := by
    by_contra hnot
    simp only [List.mem_cons, List.not_mem_nil, or_false, not_or] at hnot
    simp [instanceGroup, hnot] at hn
  simp only [List.mem_cons, List.not_mem_nil, or_false] at hmem
  have hreg := hf.setAVal
  rcases hmem with rfl | rfl | rfl | rfl | rfl | rfl | rfl | rfl | rfl | rfl | rfl
  all_goals obtain rfl := Option.some.inj hget
  · exact (hf.keeps_timers hgroup).1
  · exact (hf.keeps_timers hgroup).2.1
  · exact (hf.keeps_timers hgroup).2.2
  · have hctu : InstanceGroup.ctu.Apart f := hgroup
    intro h vm i
    simp only [opCtu, apply_ite f, hreg, hctu vm, ite_self]
  · have hctd : InstanceGroup.ctd.Apart f := hgroup
    intro h vm i
    simp only [opCtd, apply_ite f, hreg, hctd vm, ite_self]
  · have hctud : InstanceGroup.ctud.Apart f := hgroup
    intro h vm i
    simp only [opCtud, apply_ite f, hreg, hctud vm, ite_self]
  all_goals intro h vm i
  · have hedges : InstanceGroup.edges.Apart f := hgroup
    simp only [opRisingEdge, apply_ite f, hreg, hedges vm, ite_self]
  · have hedges : InstanceGroup.edges.Apart f := hgroup
    simp only [opFallingEdge, apply_ite f, hreg, hedges vm, ite_self]
  · have hedges : InstanceGroup.edges.Apart f := hgroup
    simp only [opEdgeBoth, apply_ite f, hreg, hedges vm, ite_self]
  · have hlatches : InstanceGroup.latches.Apart f := hgroup
    simp only [opRsLatch, apply_ite f, hreg, hlatches vm, ite_self]
  · have hlatches : InstanceGroup.latches.Apart f := hgroup
    simp only [opSrLatch, apply_ite f, hreg, hlatches vm, ite_self]

end Internal

end Vm32
