/-
# One instruction

`vm_decode_instruction` of `vm_tables.c` and `vm_run_instruction` of `vm_runtime.c`.  The step is
written for an arbitrary decoder; the runtime's decoder goes through the cache, and the decoder
without a cache decodes the word in memory afresh.
-/
import Vm32.Vm.Frame

namespace Vm32

/-! ### Decoding -/

/-- The record that `decode_instruction_cached` fills for a word. -/
def decodeWord (instr : UInt32) : DecodedInstr where
  rawInstr := instr
  opcode := opc instr
  ra := ra instr
  rb := rb instr
  rc := rc instr
  immediate := if fimm instr then imm8 instr else 0
  hasImmediate := fimm instr

/-- What a decoder makes of the address in PC: a decoded instruction or `NULL`, and the state
afterwards. -/
abbrev Decoder := VmState → UInt32 → Option DecodedInstr × VmState

/-- `vm_decode_instruction`. -/
def vmDecodeInstruction : Decoder := fun vm addr =>
  match vm.decodedCache with
  | none => (none, vm)
  | some cache =>
    match hmiss : cache.lookup addr with
    | some cached => (some cached, vm)
    | none =>
      if hend : vmMemBytes - 3 ≤ addr.toNat then (none, vm)
      else
        let dec := decodeWord (vmMr32 vm addr)
        (some dec,
          { vm with decodedCache := some (cache.insert addr dec hmiss (not_le.1 hend)) })

/-- Decoding without a cache. -/
def decodeAfresh : Decoder := fun vm addr =>
  if vmMemBytes - 3 ≤ addr.toNat then (none, vm) else (some (decodeWord (vmMr32 vm addr)), vm)

/-- What is cached for an address. -/
def VmState.cached (vm : VmState) (addr : UInt32) : Option DecodedInstr :=
  vm.decodedCache.bind (·.lookup addr)

/-! ### Time -/

/-- `vm_update_time_after_instruction`. -/
def vmUpdateTimeAfterInstruction (h : Host) (vm : VmState) : VmState :=
  if vm.config.enableTickTiming && vm.config.clockRateHz != 0 then
    { vm with timeMs := h.monotonic.tvSec.toUInt64 * 1000 +
        h.monotonic.tvNsec.toUInt64 / 1000000 }
  else if vm.config.clockRateHz != 0 then
    let instrNs := 1000000000 / vm.config.clockRateHz.toUInt64
    let accum := vm.instrNsAccum + instrNs
    let addMs := accum / 1000000
    if addMs != 0 then
      { vm with timeMs := vm.timeMs + addMs, instrNsAccum := accum - addMs * 1000000 }
    else { vm with instrNsAccum := accum }
  else vm

/-- Only the two fields that hold the time are updated. -/
lemma vmUpdateTimeAfterInstruction_keeps {β : Type*} {f : VmState → β}
    (hf : ∀ (vm : VmState) time accum,
      f { vm with timeMs := time, instrNsAccum := accum } = f vm)
    (h : Host) (vm : VmState) : f (vmUpdateTimeAfterInstruction h vm) = f vm := by
  simp only [vmUpdateTimeAfterInstruction]
  split_ifs
  · exact hf vm _ vm.instrNsAccum
  · exact hf vm _ _
  · exact hf vm vm.timeMs _
  · rfl

/-! ### `vm_run_instruction` -/

/-- How a call of `vm_run_instruction` ends. -/
inductive Outcome
  /-- PC is outside the module. -/
  | completed
  /-- The word at PC is zero. -/
  | endOfModule
  /-- The decoder returned `NULL` for the word `instr` at `pc`. -/
  | decodeFailed (pc instr : UInt32)
  /-- There is no handler for the word `instr` at `pc`. -/
  | invalidOpcode (pc instr : UInt32)
  /-- The handler selected by the word `instr` at `pc` was called on the word `raw`. -/
  | executed (pc instr raw : UInt32)
deriving DecidableEq, Repr

/-- A condition on the element of an option is decided at this element, also when the type is
finite. -/
instance (priority := high) decidableForallMemOption {α : Type*} {p : α → Prop} [DecidablePred p]
    (o : Option α) : Decidable (∀ a ∈ o, p a) := Option.decidableForallMem o

/-- The address and the word for which a call of `vm_run_instruction` consults the decoder with
success. -/
def Outcome.decoded : Outcome → Option (UInt32 × UInt32)
  | .invalidOpcode pc instr => some (pc, instr)
  | .executed pc instr _ => some (pc, instr)
  | _ => none

/-- The address and the word for which a handler is called. -/
def Outcome.handled : Outcome → Option (UInt32 × UInt32)
  | .executed pc instr _ => some (pc, instr)
  | _ => none

/-- What is handled was decoded. -/
lemma decoded_of_handled {o : Outcome} {q : UInt32 × UInt32} (hq : q ∈ o.handled) :
    q ∈ o.decoded := by
  cases o with
  | executed pc instr raw => exact hq
  | _ => cases hq

/-- The part of `vm_run_instruction` after the decoder returned `raw`. -/
def dispatch (h : Host) (vm : VmState) (instr raw : UInt32) : VmState × Outcome :=
  match opEx (opc instr) with
  | none => ({ vm with running := false }, .invalidOpcode vm.pc instr)
  | some op =>
    let after := op h vm raw
    let after := if after.pc == vm.pc then { after with pc := after.pc + 4 } else after
    (vmUpdateTimeAfterInstruction h after, .executed vm.pc instr raw)

/-- `vm_run_instruction`, for a given decoder. -/
def runInstruction (decode : Decoder) (h : Host) (vm : VmState) (mod : ModuleInfo)
    (moduleEnd : UInt32) : VmState × Outcome :=
  if moduleEnd ≤ vm.pc ∨ vm.pc < mod.addr then (vm, .completed)
  else
    let instr := vmMr32 vm vm.pc
    if instr == 0 then (vm, .endOfModule)
    else
      match decode vm vm.pc with
      | (none, vm) => ({ vm with running := false }, .decodeFailed vm.pc instr)
      | (some d, vm) => dispatch h vm instr d.rawInstr

/-- `vm_run_instruction`. -/
def vmRunInstruction : Host → VmState → ModuleInfo → UInt32 → VmState × Outcome :=
  runInstruction vmDecodeInstruction

section RunInstruction

variable {decode : Decoder} {h : Host} {vm vm' : VmState} {mod : ModuleInfo} {moduleEnd : UInt32}

lemma runInstruction_outside (hout : moduleEnd ≤ vm.pc ∨ vm.pc < mod.addr) :
    runInstruction decode h vm mod moduleEnd = (vm, .completed) := if_pos hout

lemma runInstruction_zero (hin : ¬(moduleEnd ≤ vm.pc ∨ vm.pc < mod.addr))
    (hzero : vmMr32 vm vm.pc = 0) :
    runInstruction decode h vm mod moduleEnd = (vm, .endOfModule) := by
  rw [runInstruction, if_neg hin, if_pos (beq_iff_eq.2 hzero)]

lemma runInstruction_none (hin : ¬(moduleEnd ≤ vm.pc ∨ vm.pc < mod.addr))
    (hzero : vmMr32 vm vm.pc ≠ 0) (hdec : decode vm vm.pc = (none, vm')) :
    runInstruction decode h vm mod moduleEnd =
      ({ vm' with running := false }, .decodeFailed vm'.pc (vmMr32 vm vm.pc)) := by
  rw [runInstruction, if_neg hin, if_neg (by simpa using hzero), hdec]

lemma runInstruction_some (hin : ¬(moduleEnd ≤ vm.pc ∨ vm.pc < mod.addr))
    (hzero : vmMr32 vm vm.pc ≠ 0) {d : DecodedInstr} (hdec : decode vm vm.pc = (some d, vm')) :
    runInstruction decode h vm mod moduleEnd =
      dispatch h vm' (vmMr32 vm vm.pc) d.rawInstr := by
  rw [runInstruction, if_neg hin, if_neg (by simpa using hzero), hdec]

/-- Everything a call of `vm_run_instruction` can do. -/
lemma runInstruction_cases (decode : Decoder) (h : Host) (vm : VmState) (mod : ModuleInfo)
    (moduleEnd : UInt32) :
    ((moduleEnd ≤ vm.pc ∨ vm.pc < mod.addr) ∧
        runInstruction decode h vm mod moduleEnd = (vm, .completed)) ∨
      ¬(moduleEnd ≤ vm.pc ∨ vm.pc < mod.addr) ∧
        (runInstruction decode h vm mod moduleEnd = (vm, .endOfModule) ∨
          (∃ vm', decode vm vm.pc = (none, vm') ∧
            runInstruction decode h vm mod moduleEnd =
              ({ vm' with running := false }, .decodeFailed vm'.pc (vmMr32 vm vm.pc))) ∨
          ∃ d vm', decode vm vm.pc = (some d, vm') ∧
            runInstruction decode h vm mod moduleEnd =
              dispatch h vm' (vmMr32 vm vm.pc) d.rawInstr) := by
  by_cases hin : moduleEnd ≤ vm.pc ∨ vm.pc < mod.addr
  · exact Or.inl ⟨hin, runInstruction_outside hin⟩
  refine Or.inr ⟨hin, ?_⟩
  by_cases hzero : vmMr32 vm vm.pc = 0
  · exact Or.inl (runInstruction_zero hin hzero)
  refine Or.inr ?_
  rcases hdec : decode vm vm.pc with ⟨_ | d, vm'⟩
  · exact Or.inl ⟨vm', rfl, runInstruction_none hin hzero hdec⟩
  · exact Or.inr ⟨d, vm', rfl, runInstruction_some hin hzero hdec⟩

end RunInstruction

/-- `vm_step_for_test`, for a range of addresses; `true` is a return of 0. -/
def vmStepForTest (h : Host) (vm : VmState) (startAddr endAddr : UInt32) : VmState × Bool :=
  if vm.pc < startAddr ∨ endAddr ≤ vm.pc then (vm, false)
  else
    let instr := vmMr32 vm vm.pc
    if instr == 0 then (vm, false)
    else
      match opEx (opc instr) with
      | none => ({ vm with running := false }, false)
      | some op =>
        let after := op h vm instr
        (if after.pc == vm.pc then { after with pc := after.pc + 4 } else after, true)

/-! ### The cache is a part of the state that nothing else reads -/

namespace VmState

/-- The state with another decode cache. -/
def withCache (vm : VmState) (c : Option DecodeCache) : VmState := { vm with decodedCache := c }

variable (vm : VmState) (c c' : Option DecodeCache)

@[simp] lemma withCache_withCache : (vm.withCache c).withCache c' = vm.withCache c' := rfl
@[simp] lemma withCache_pc : (vm.withCache c).pc = vm.pc := rfl
@[simp] lemma withCache_mem : (vm.withCache c).mem = vm.mem := rfl
@[simp] lemma withCache_running : (vm.withCache c).running = vm.running := rfl
@[simp] lemma withCache_modules : (vm.withCache c).modules = vm.modules := rfl
@[simp] lemma withCache_decodedCache : (vm.withCache c).decodedCache = c := rfl
@[simp] lemma withCache_self : vm.withCache vm.decodedCache = vm := rfl
@[simp] lemma vmMr32_withCache (a : UInt32) : vmMr32 (vm.withCache c) a = vmMr32 vm a := rfl

lemma withCache_eq_withFrame :
    vm.withCache c = vm.withFrame { vm.frame with decodedCache := c } := rfl

lemma ite_withCache (p : Prop) [Decidable p] (a b : VmState) :
    (if p then a else b).withCache c = if p then a.withCache c else b.withCache c :=
  apply_ite (·.withCache c) p a b

end VmState

/-- A handler that leaves the frame alone leaves it as it was. -/
lemma FrameBlind.frame_eq {op : OpEx} (hop : FrameBlind op) (h : Host) (vm : VmState)
    (i : UInt32) : (op h vm i).frame = vm.frame := by
  have := hop h vm vm.frame i
  rw [vm.withFrame_frame] at this
  rw [this, VmState.frame_withFrame]

/-- No handler reads or writes the decode cache. -/
lemma opEx_withCache {opcode : UInt8} {op : OpEx} (hop : opEx opcode = some op) (h : Host)
    (vm : VmState) (c : Option DecodeCache) (i : UInt32) :
    op h (vm.withCache c) i = (op h vm i).withCache c := by
  rcases opEx_cases hop with ⟨hblind, -⟩ | ⟨-, rfl⟩ | ⟨-, rfl⟩ | ⟨-, rfl⟩ | ⟨-, rfl⟩ | ⟨-, rfl⟩
  · rw [vm.withCache_eq_withFrame, hblind, VmState.withCache_eq_withFrame,
      hblind.frame_eq]
  · rfl
  · simp only [opJmpIf, VmState.ite_withCache]
    rfl
  · simp only [opJmpIfNot, VmState.ite_withCache]
    rfl
  · rfl
  · rfl

lemma vmUpdateTimeAfterInstruction_withCache (h : Host) (vm : VmState)
    (c : Option DecodeCache) :
    vmUpdateTimeAfterInstruction h (vm.withCache c) =
      (vmUpdateTimeAfterInstruction h vm).withCache c := by
  simp only [vmUpdateTimeAfterInstruction, VmState.ite_withCache]
  rfl

/-- What follows the decoding does not depend on the cache. -/
lemma dispatch_withCache (h : Host) (vm : VmState) (c : Option DecodeCache) (instr raw : UInt32) :
    dispatch h (vm.withCache c) instr raw =
      ((dispatch h vm instr raw).1.withCache c, (dispatch h vm instr raw).2) := by
  simp only [dispatch]
  cases hop : opEx (opc instr) with
  | none => rfl
  | some op =>
    simp only [opEx_withCache hop, VmState.withCache_pc]
    rw [← vmUpdateTimeAfterInstruction_withCache, VmState.ite_withCache]
    rfl

/-! ### The two decoders -/

/-- A hit returns the cached record. -/
lemma vmDecodeInstruction_of_hit {vm : VmState} {addr : UInt32} {d : DecodedInstr}
    (hhit : vm.cached addr = some d) : vmDecodeInstruction vm addr = (some d, vm) := by
  rw [VmState.cached] at hhit
  rw [vmDecodeInstruction]
  cases hc : vm.decodedCache with
  | none => simp [hc] at hhit
  | some cache =>
    have hlook : cache.lookup addr = some d := by simpa [hc] using hhit
    simp only
    split
    · next d' hd' => rw [hlook] at hd'; cases hd'; rfl
    · next hmiss => simp [hlook] at hmiss

/-- A miss decodes the word in memory and remembers it. -/
lemma vmDecodeInstruction_of_miss {vm : VmState} {cache : DecodeCache} {addr : UInt32}
    (hc : vm.decodedCache = some cache) (hmiss : cache.lookup addr = none) :
    ∃ cache' : DecodeCache,
      vmDecodeInstruction vm addr = ((decodeAfresh vm addr).1, vm.withCache (some cache')) ∧
      ∀ a, cache'.lookup a =
        if a = addr then (decodeAfresh vm addr).1 else cache.lookup a := by
  rw [vmDecodeInstruction, decodeAfresh, hc]
  simp only
  split
  · next d hd => simp [hmiss] at hd
  · split_ifs with hend
    · refine ⟨cache, by rw [← hc]; rfl, fun a => ?_⟩
      split_ifs with ha
      · rw [ha, hmiss]
      · rfl
    · exact ⟨_, rfl, fun a => DecodeCache.lookup_insert _ _ a⟩

/-- Inside memory, the stepper without a cache is `vm_step_for_test` followed by the update of
the time. -/
lemma runInstruction_decodeAfresh (h : Host) (vm : VmState) (mod : ModuleInfo)
    (moduleEnd : UInt32) (hpc : vm.pc.toNat < vmMemBytes - 3) :
    (runInstruction decodeAfresh h vm mod moduleEnd).1 =
      if (vmStepForTest h vm mod.addr moduleEnd).2 then
        vmUpdateTimeAfterInstruction h (vmStepForTest h vm mod.addr moduleEnd).1
      else (vmStepForTest h vm mod.addr moduleEnd).1 := by
  have hdec : decodeAfresh vm vm.pc = (some (decodeWord (vmMr32 vm vm.pc)), vm) :=
    if_neg (not_le.2 hpc)
  simp only [runInstruction, vmStepForTest, hdec, or_comm (a := vm.pc < mod.addr)]
  split_ifs with h1 h2 h3 <;> try simp_all
  · cases hop : opEx (opc (vmMr32 vm vm.pc)) <;> simp_all [dispatch, decodeWord]
  · cases hop : opEx (opc (vmMr32 vm vm.pc)) <;> simp_all [dispatch, decodeWord]

/-- Decoding changes the cache only. -/
lemma vmDecodeInstruction_snd (vm : VmState) (addr : UInt32) :
    ∃ k, (vmDecodeInstruction vm addr).2 = vm.withCache k := by
  rw [vmDecodeInstruction]
  split
  · exact ⟨_, vm.withCache_self.symm⟩
  · split
    · exact ⟨_, vm.withCache_self.symm⟩
    · split_ifs
      · exact ⟨_, vm.withCache_self.symm⟩
      · exact ⟨_, rfl⟩

/-- Everything a call of `vm_run_instruction` with the cache can do to the state. -/
lemma vmRunInstruction_cases (h : Host) (vm : VmState) (mod : ModuleInfo) (moduleEnd : UInt32) :
    runInstruction vmDecodeInstruction h vm mod moduleEnd = (vm, .completed) ∨
      runInstruction vmDecodeInstruction h vm mod moduleEnd = (vm, .endOfModule) ∨
      (∃ k, runInstruction vmDecodeInstruction h vm mod moduleEnd =
        ({ vm.withCache k with running := false }, .decodeFailed vm.pc (vmMr32 vm vm.pc))) ∨
      ∃ k raw, runInstruction vmDecodeInstruction h vm mod moduleEnd =
        dispatch h (vm.withCache k) (vmMr32 vm vm.pc) raw := by
  obtain ⟨k, hk⟩ := vmDecodeInstruction_snd vm vm.pc
  rcases runInstruction_cases vmDecodeInstruction h vm mod moduleEnd with
    ⟨-, heq⟩ | ⟨-, heq | ⟨vm', hdec, heq⟩ | ⟨d, vm', hdec, heq⟩⟩
  · exact Or.inl heq
  · exact Or.inr (Or.inl heq)
  · obtain rfl : vm' = vm.withCache k := by rw [← hk, hdec]
    exact Or.inr (Or.inr (Or.inl ⟨k, heq⟩))
  · obtain rfl : vm' = vm.withCache k := by rw [← hk, hdec]
    exact Or.inr (Or.inr (Or.inr ⟨k, d.rawInstr, heq⟩))

/-- An opcode is undefined exactly if there is no handler for it. -/
lemma dispatch_outcome (h : Host) (vm : VmState) (instr raw : UInt32) :
    (dispatch h vm instr raw).2 =
      if (opEx (opc instr)).isSome then .executed vm.pc instr raw
      else .invalidOpcode vm.pc instr := by
  rw [dispatch]
  cases opEx (opc instr) <;> rfl

/-! ### Calls of a handler -/

/-- A handler called on the word `raw`, with what follows the call. -/
def callHandler (op : OpEx) (h : Host) (vm : VmState) (raw : UInt32) : VmState :=
  let after := op h vm raw
  vmUpdateTimeAfterInstruction h
    (if after.pc == vm.pc then { after with pc := after.pc + 4 } else after)

/-- What follows the call of a handler moves PC and the time. -/
lemma callHandler_keeps {β : Type*} {f : VmState → β} (hpc : ∀ (vm : VmState) pc,
      f { vm with pc := pc } = f vm)
    (htime : ∀ (vm : VmState) time accum,
      f { vm with timeMs := time, instrNsAccum := accum } = f vm)
    (op : OpEx) (h : Host) (vm : VmState) (raw : UInt32) :
    f (callHandler op h vm raw) = f (op h vm raw) := by
  rw [callHandler, vmUpdateTimeAfterInstruction_keeps htime]
  split_ifs
  · exact hpc _ _
  · rfl

lemma dispatch_of_handler {instr : UInt32} {op : OpEx} (hop : opEx (opc instr) = some op)
    (h : Host) (vm : VmState) (raw : UInt32) :
    dispatch h vm instr raw = (callHandler op h vm raw, .executed vm.pc instr raw) := by
  rw [dispatch, hop]
  rfl

/-- The word at the address can be executed: it is in memory, not zero, and has a handler. -/
def Executable (vm : VmState) (addr : UInt32) : Prop :=
  addr.toNat < vmMemBytes - 3 ∧ vmMr32 vm addr ≠ 0 ∧ (opEx (opc (vmMr32 vm addr))).isSome

instance (vm : VmState) (addr : UInt32) : Decidable (Executable vm addr) :=
  inferInstanceAs (Decidable (_ ∧ _ ∧ _))

/-- Only words in memory are decoded. -/
lemma lt_of_vmDecodeInstruction {vm : VmState} {addr : UInt32}
    (hdec : (vmDecodeInstruction vm addr).1.isSome) : addr.toNat < vmMemBytes - 3 := by
  by_contra hend
  rw [vmDecodeInstruction] at hdec
  cases hc : vm.decodedCache with
  | none => simp [hc] at hdec
  | some cache =>
    simp only [hc] at hdec
    split at hdec
    · next d hd => exact hend (DecodeCache.lt_of_lookup hd)
    · simp [not_lt.1 hend] at hdec

/-- A call of `vm_run_instruction` that invokes a handler. -/
lemma runInstruction_handled {h : Host} {vm : VmState} {mod : ModuleInfo} {moduleEnd : UInt32}
    {q : UInt32 × UInt32}
    (hq : (runInstruction vmDecodeInstruction h vm mod moduleEnd).2.handled = some q) :
    ¬(moduleEnd ≤ vm.pc ∨ vm.pc < mod.addr) ∧ Executable vm vm.pc ∧
      q = (vm.pc, vmMr32 vm vm.pc) ∧
      ∃ k raw, runInstruction vmDecodeInstruction h vm mod moduleEnd =
        dispatch h (vm.withCache k) (vmMr32 vm vm.pc) raw := by
  obtain ⟨k, hk⟩ := vmDecodeInstruction_snd vm vm.pc
  by_cases hzero : ¬(moduleEnd ≤ vm.pc ∨ vm.pc < mod.addr) ∧ vmMr32 vm vm.pc = 0
  · rw [runInstruction_zero hzero.1 hzero.2] at hq
    cases hq
  rcases runInstruction_cases vmDecodeInstruction h vm mod moduleEnd with
    ⟨-, heq⟩ | ⟨hin, heq | ⟨vm', hdec, heq⟩ | ⟨d, vm', hdec, heq⟩⟩
  · rw [heq] at hq
    cases hq
  · rw [heq] at hq
    cases hq
  · rw [heq] at hq
    cases hq
  · obtain rfl : vm' = vm.withCache k := by rw [← hk, hdec]
    rw [heq, dispatch_outcome] at hq
    split_ifs at hq with hop
    · refine ⟨hin, ⟨lt_of_vmDecodeInstruction (by rw [hdec]; rfl), fun h0 => hzero ⟨hin, h0⟩, hop⟩,
        (Option.some.inj hq).symm, k, d.rawInstr, heq⟩
    · cases hq

/-- A call of `vm_run_instruction` that calls a handler on the word `raw`. -/
lemma runInstruction_executed {h : Host} {vm : VmState} {mod : ModuleInfo} {moduleEnd : UInt32}
    {pc instr raw : UInt32}
    (hexec : (runInstruction vmDecodeInstruction h vm mod moduleEnd).2 = .executed pc instr raw) :
    ∃ op k, opEx (opc instr) = some op ∧
      (runInstruction vmDecodeInstruction h vm mod moduleEnd).1 =
        callHandler op h (vm.withCache k) raw := by
  obtain ⟨-, ⟨-, -, hop⟩, hq, k, raw', heq⟩ :=
    runInstruction_handled (q := (pc, instr)) (by rw [hexec]; rfl)
  obtain ⟨op, hop⟩ := Option.isSome_iff_exists.1 hop
  obtain ⟨rfl, rfl⟩ := Prod.mk.inj hq
  rw [dispatch_of_handler hop] at heq
  rw [heq] at hexec
  obtain rfl : raw' = raw := by injection hexec
  exact ⟨op, k, hop, congrArg Prod.fst heq⟩

/-- A call that invokes no handler changes `running` and the cache only. -/
lemma runInstruction_of_not_handled {h : Host} {vm : VmState} {mod : ModuleInfo}
    {moduleEnd : UInt32}
    (hnone : (runInstruction vmDecodeInstruction h vm mod moduleEnd).2.handled = none) :
    ∃ k b, (runInstruction vmDecodeInstruction h vm mod moduleEnd).1 =
      { vm.withCache k with running := b } := by
  rcases vmRunInstruction_cases h vm mod moduleEnd with heq | heq | ⟨k, heq⟩ | ⟨k, raw, heq⟩
  · exact ⟨_, _, congrArg Prod.fst heq⟩
  · exact ⟨_, _, congrArg Prod.fst heq⟩
  · exact ⟨_, _, congrArg Prod.fst heq⟩
  · -- a word with a handler would have been handled
    rw [heq, dispatch_outcome] at hnone
    cases hop : opEx (opc (vmMr32 vm vm.pc)) with
    | some op => simp [hop, Outcome.handled] at hnone
    | none =>
      rw [heq]
      exact ⟨k, false, by rw [dispatch, hop]⟩

end Vm32
