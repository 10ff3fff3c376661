/-
# What the hashes of the machine cover

The register file and a range of memory are hashed as byte strings, and the hash of the whole state
is fed with one section after another: registers, PC, program, timers, counters.  A change of one
register, one field or one byte changes four neighbouring bytes of this input, and CRC-32 notices
it.  The program section, though, is read from address 0 on and not from the address the program
was loaded at.
-/
import Vm32.Hashing.BitSerial
import Vm32.Vm.Lifecycle
import Vm32.Vm.RunProgram

namespace Vm32

open FoldHash Function

/-! ### Registers and memory -/

/-- The register file in memory. -/
def registerBytes (reg : UInt8 → UInt32) : List UInt8 :=
  (List.range 256).flatMap fun i => uint32Bytes (reg (UInt8.ofNat i))

lemma differsWithin_uint32Bytes {v w : UInt32} (hne : v ≠ w) :
    DiffersWithin 4 (uint32Bytes v) (uint32Bytes w) :=
  .of_window rfl le_rfl (uint32Bytes_injective.ne hne)

/-- Register files that differ in one register differ within its four bytes. -/
lemma differsWithin_registerBytes {reg reg' : UInt8 → UInt32} {r : UInt8}
    (hne : reg r ≠ reg' r) (hsame : ∀ s, s ≠ r → reg s = reg' s) :
    DiffersWithin 4 (registerBytes reg) (registerBytes reg') := by
  refine .flatMap_range r.toNat_lt (fun j hj hjr => ?_) ?_
  · rw [hsame]
    rintro rfl
    exact hjr (UInt8.toNat_ofNat_of_lt' hj).symm
  · rw [UInt8.ofNat_toNat]
    exact differsWithin_uint32Bytes hne

/-- Two register files that differ in one register have different checksums. -/
lemma calculateRegistersHash_update {reg : UInt8 → UInt32} {i : UInt8} {v : UInt32} :
    calculateRegistersHash (update reg i v) .crc32 = calculateRegistersHash reg .crc32 ↔
      v = reg i := by
  constructor
  · intro heq
    by_contra hne
    refine crc32_ne_of_bytes (differsWithin_registerBytes ?_ fun s hs => update_of_ne hs _ _) heq
    rwa [update_self]
  · rintro rfl
    rw [update_eq_self]

lemma memBytes_getElem? (mem : ℕ → UInt8) (start n i : ℕ) :
    (memBytes mem start n)[i]? = if i < n then some (mem (start + i)) else none := by
  simp only [memBytes, List.getElem?_map]
  split_ifs with hi
  · simp [hi]
  · simp [hi]

/-- Memories whose differences in a range lie within four bytes. -/
lemma differsWithin_memBytes {mem mem' : ℕ → UInt8} {start n a : ℕ}
    (hne : ∃ b, start ≤ b ∧ b < start + n ∧ mem b ≠ mem' b)
    (hwithin : ∀ b, start ≤ b → b < start + n → mem b ≠ mem' b → a ≤ b ∧ b < a + 4) :
    DiffersWithin 4 (memBytes mem start n) (memBytes mem' start n) := by
  obtain ⟨b, hstart, hend, hb⟩ := hne
  refine .of_positions (k := a - start) (by simp [memBytes]) (fun heq => hb ?_) fun i hi => ?_
  · have hbyte := congrArg (·[b - start]?) heq
    simp only [memBytes_getElem?, if_pos (Nat.sub_lt_left_of_lt_add hstart hend),
      Nat.add_sub_cancel' hstart] at hbyte
    exact Option.some.inj hbyte
  · rw [memBytes_getElem?, memBytes_getElem?] at hi
    split_ifs at hi with hin
    · have := hwithin (start + i) (Nat.le_add_right _ _) (by omega) fun heq => hi (by rw [heq])
      omega
    · exact absurd rfl hi

/-- CRC-32 tells inputs of the same length apart whose bits differ within 32 positions, so it
tells register files apart that differ in one register, and images that differ within four bytes;
FNV-1a tells inputs apart that differ in one byte. -/
theorem integrity_hashes_detect :
    (∀ (x y : List UInt8) (k : ℕ), x.length = y.length → x ≠ y →
        (∀ i, (bitsOf x)[i]? ≠ (bitsOf y)[i]? → k ≤ i ∧ i < k + 32) → crc32 x ≠ crc32 y) ∧
      (∀ (reg reg' : UInt8 → UInt32) (r : UInt8), reg r ≠ reg' r →
        (∀ s, s ≠ r → reg s = reg' s) →
        calculateRegistersHash reg .crc32 ≠ calculateRegistersHash reg' .crc32) ∧
      (∀ (mem mem' : ℕ → UInt8) (start : UInt32) (length : UInt64) (a : ℕ),
        (∃ b, start.toNat ≤ b ∧ b < start.toNat + length.toNat ∧ mem b ≠ mem' b) →
        (∀ b, start.toNat ≤ b → b < start.toNat + length.toNat → mem b ≠ mem' b →
          a ≤ b ∧ b < a + 4) →
        calculateMemoryHash mem start length ≠ calculateMemoryHash mem' start length) ∧
      ∀ (pre post : List UInt8) (b c : UInt8), b ≠ c →
        fnv1a32 (pre ++ b :: post) ≠ fnv1a32 (pre ++ c :: post) := by
  refine ⟨fun x y k hlen hne hpos => ?_, fun reg reg' r hne hsame => ?_,
    fun mem mem' start length a hne hwithin => ?_, fun pre post b c hne => ?_⟩
  · have hbits : bitsOf x ≠ bitsOf y := fun heq => hne (bitsOf_inj hlen heq)
    exact crc32_ne_of_bits (.of_positions (by rw [length_bitsOf, length_bitsOf, hlen]) hbits hpos)
  · exact crc32_ne_of_bytes (differsWithin_registerBytes hne hsame)
  · exact crc32_ne_of_bytes (differsWithin_memBytes hne hwithin)
  · exact fnv1a32_ne_of_byte ⟨pre, [b], [c], post, rfl, rfl, rfl, le_rfl, by simpa using hne⟩

/-- A burst over two bytes, one register, a word of an image and one byte. -/
theorem integrity_hashes_detect_examples :
    crc32 [1, 128, 7] ≠ crc32 [2, 129, 7] ∧
      calculateRegistersHash (update (fun _ => 0) 5 1) .crc32 ≠
        calculateRegistersHash (fun _ => 0) .crc32 ∧
      calculateMemoryHash (update (fun _ => 0) 0x3002 9) 0x3000 8 ≠
        calculateMemoryHash (fun _ => 0) 0x3000 8 ∧
      fnv1a32 [1, 2, 3] ≠ fnv1a32 [1, 4, 3] := by
  refine ⟨integrity_hashes_detect.1 [1, 128, 7] [2, 129, 7] 0 rfl (by decide) fun i hi => ?_,
    integrity_hashes_detect.2.1 _ _ 5 (by decide) fun s hs => update_of_ne hs _ _,
    integrity_hashes_detect.2.2.1 _ _ _ _ 0x3000 ⟨0x3002, by decide⟩ fun b _ _ hb => ?_,
    integrity_hashes_detect.2.2.2 [1] [3] 2 4 (by decide)⟩
  · by_contra hout
    have hnone : ∀ x : List UInt8, x.length = 3 → (bitsOf x)[i]? = none := fun x hx =>
      List.getElem?_eq_none (by rw [length_bitsOf, hx]; omega)
    exact hi (by rw [hnone _ rfl, hnone _ rfl])
  · have hb : b = 0x3002 := by
      by_contra hother
      exact hb (update_of_ne hother _ _)
    omega

/-! ### The hash of the whole state -/

/-- A `bool` in memory. -/
def boolByte (b : Bool) : UInt8 := if b then 1 else 0

/-- The eight bytes of a 64-bit number in memory, least significant first. -/
def uint64Bytes (n : UInt64) : List UInt8 :=
  (List.range 8).map fun i => (n >>> UInt64.ofNat (8 * i)).toUInt8

/-- An `IEC_Timer` in memory, without padding. -/
def IECTimer.bytes (t : IECTimer) : List UInt8 :=
  [boolByte t.enabled, boolByte t.input, boolByte t.output, boolByte t.prevInput,
      boolByte t.timing] ++
    (uint64Bytes t.start.tvSec.toUInt64 ++ (uint64Bytes t.start.tvNsec.toUInt64 ++
      (uint32Bytes t.presetMs ++ uint32Bytes t.ET)))

/-- A `CT_Counter` in memory. -/
def CTCounter.bytes (c : CTCounter) : List UInt8 := uint32Bytes c.value ++ uint32Bytes c.preset

/-- An array of timers in memory. -/
def timerBytes (timers : ℕ → IECTimer) : List UInt8 :=
  (List.range maxTimers).flatMap fun id => (timers id).bytes

/-- An array of counters in memory. -/
def counterBytes (counters : ℕ → CTCounter) : List UInt8 :=
  (List.range maxTimers).flatMap fun id => (counters id).bytes

/-- `vm_calculate_state_hash`. -/
def vmCalculateStateHash (vm : VmState) : UInt32 :=
  let crc := crc32Begin
  let crc := crc32Update crc (registerBytes vm.reg)
  let crc := crc32Update crc (uint32Bytes vm.pc)
  let crc :=
    if 0 < vm.programSize then
      let memToHash := vm.programSize.toNat
      let memToHash := if vmMemBytes < memToHash then vmMemBytes else memToHash
      crc32Update crc (memBytes vm.mem 0 memToHash)
    else crc
  let crc := crc32Update crc (timerBytes vm.tonTimers)
  let crc := crc32Update crc (timerBytes vm.tofTimers)
  let crc := crc32Update crc (timerBytes vm.tpTimers)
  let crc := crc32Update crc (counterBytes vm.ctuCounters)
  let crc := crc32Update crc (counterBytes vm.ctdCounters)
  let crc := crc32Update crc (counterBytes vm.ctudCounters)
  crc32Finalize crc

/-- The sections that are hashed, one behind the other. -/
def stateBytes (vm : VmState) : List UInt8 :=
  registerBytes vm.reg ++ (uint32Bytes vm.pc ++
    (memBytes vm.mem 0 (min vm.programSize.toNat vmMemBytes) ++
      (timerBytes vm.tonTimers ++ (timerBytes vm.tofTimers ++ (timerBytes vm.tpTimers ++
        (counterBytes vm.ctuCounters ++ (counterBytes vm.ctdCounters ++
          counterBytes vm.ctudCounters)))))))

lemma vmCalculateStateHash_eq (vm : VmState) :
    vmCalculateStateHash vm = crc32 (stateBytes vm) := by
  have hsize : (if vmMemBytes < vm.programSize.toNat then vmMemBytes else vm.programSize.toNat) =
      min vm.programSize.toNat vmMemBytes := by
    split_ifs <;> omega
  have hempty : ¬0 < vm.programSize →
      memBytes vm.mem 0 (min vm.programSize.toNat vmMemBytes) = [] := by
    intro hzero
    have hzero : vm.programSize.toNat = 0 := by
      rw [UInt64.lt_iff_toNat_lt] at hzero
      exact Nat.eq_zero_of_not_pos hzero
    rw [hzero, Nat.zero_min]
    rfl
  simp only [vmCalculateStateHash, stateBytes, crc32, crc32Finalize, crc32Update, crc32Begin,
    List.foldl_append, hsize]
  split_ifs with hpos
  · rfl
  · rw [hempty hpos, List.foldl_nil]

/-! ### What the hash of the state covers -/

/-- The timers that are hashed. -/
inductive HashedTimers
  | ton | tof | tp
deriving DecidableEq, Repr

/-- The counters that are hashed. -/
inductive HashedCounters
  | ctu | ctd | ctud
deriving DecidableEq, Repr

/-- A part of the state: a register, PC, a byte of memory, or a 32-bit field of a timer or a
counter. -/
inductive StatePart
  | reg (r : UInt8)
  | pc
  | memByte (addr : ℕ)
  | presetMs (k : HashedTimers) (id : ℕ)
  | ET (k : HashedTimers) (id : ℕ)
  | value (k : HashedCounters) (id : ℕ)
  | preset (k : HashedCounters) (id : ℕ)
deriving DecidableEq, Repr

/-- The array of a kind of timers. -/
def HashedTimers.array (vm : VmState) : HashedTimers → ℕ → IECTimer
  | ton => vm.tonTimers
  | tof => vm.tofTimers
  | tp => vm.tpTimers

/-- The state with another timer `id` of a kind. -/
def HashedTimers.put (vm : VmState) (id : ℕ) (t : IECTimer) : HashedTimers → VmState
  | ton => { vm with tonTimers := update vm.tonTimers id t }
  | tof => { vm with tofTimers := update vm.tofTimers id t }
  | tp => { vm with tpTimers := update vm.tpTimers id t }

/-- The array of a kind of counters. -/
def HashedCounters.array (vm : VmState) : HashedCounters → ℕ → CTCounter
  | ctu => vm.ctuCounters
  | ctd => vm.ctdCounters
  | ctud => vm.ctudCounters

/-- The state with another counter `id` of a kind. -/
def HashedCounters.put (vm : VmState) (id : ℕ) (c : CTCounter) : HashedCounters → VmState
  | ctu => { vm with ctuCounters := update vm.ctuCounters id c }
  | ctd => { vm with ctdCounters := update vm.ctdCounters id c }
  | ctud => { vm with ctudCounters := update vm.ctudCounters id c }

namespace StatePart

/-- The value of a part. -/
def get (vm : VmState) : StatePart → UInt32
  | reg r => vm.reg r
  | pc => vm.pc
  | memByte addr => (vm.mem addr).toUInt32
  | presetMs k id => (k.array vm id).presetMs
  | ET k id => (k.array vm id).ET
  | value k id => (k.array vm id).value
  | preset k id => (k.array vm id).preset

/-- The state with another value of the part, of which a byte takes the lowest eight bits. -/
def set (vm : VmState) (v : UInt32) : StatePart → VmState
  | reg r => { vm with reg := update vm.reg r v }
  | pc => { vm with pc := v }
  | memByte addr => { vm with mem := update vm.mem addr v.toUInt8 }
  | presetMs k id => k.put vm id { k.array vm id with presetMs := v }
  | ET k id => k.put vm id { k.array vm id with ET := v }
  | value k id => k.put vm id { k.array vm id with value := v }
  | preset k id => k.put vm id { k.array vm id with preset := v }

/-- A byte of memory is one of the loaded program, and an instance is one of the array. -/
def InScope (vm : VmState) : StatePart → Prop
  | reg _ => True
  | pc => True
  | memByte addr =>
    vm.pcStart.toNat ≤ addr ∧ addr < vm.pcStart.toNat + vm.programSize.toNat
  | presetMs _ id => id < maxTimers
  | ET _ id => id < maxTimers
  | value _ id => id < maxTimers
  | preset _ id => id < maxTimers

/-- The part is read by the hash: a byte of memory only if its address is below the size of the
program. -/
def Hashed (vm : VmState) : StatePart → Prop
  | memByte addr => addr < vm.programSize.toNat
  | _ => True

end StatePart

/-! ### One change -/

section Arrays

variable {vm : VmState} {id : ℕ}

/-- A changed 32-bit field at the end of a timer. -/
lemma differsWithin_timerBytes {timers : ℕ → IECTimer} {t : IECTimer} (hid : id < maxTimers)
    (h : DiffersWithin 4 (timers id).bytes t.bytes) :
    DiffersWithin 4 (timerBytes timers) (timerBytes (update timers id t)) := by
  refine .flatMap_range hid (fun j _ hj => by rw [update_of_ne hj]) ?_
  rwa [update_self]

lemma differsWithin_counterBytes {counters : ℕ → CTCounter} {c : CTCounter}
    (hid : id < maxTimers) (h : DiffersWithin 4 (counters id).bytes c.bytes) :
    DiffersWithin 4 (counterBytes counters) (counterBytes (update counters id c)) := by
  refine .flatMap_range hid (fun j _ hj => by rw [update_of_ne hj]) ?_
  rwa [update_self]

@[simp] lemma HashedTimers.array_put (k : HashedTimers) (t : IECTimer) :
    k.array (k.put vm id t) = update (k.array vm) id t := by
  cases k <;> rfl

@[simp] lemma HashedCounters.array_put (k : HashedCounters) (c : CTCounter) :
    k.array (k.put vm id c) = update (k.array vm) id c := by
  cases k <;> rfl

lemma HashedTimers.differsWithin {k : HashedTimers} {t : IECTimer} (hid : id < maxTimers)
    (h : DiffersWithin 4 (k.array vm id).bytes t.bytes) :
    DiffersWithin 4 (stateBytes vm) (stateBytes (k.put vm id t)) := by
  cases k with
  | ton =>
    refine .append_left (.append_left (.append_left (.append_right ?_ _) _) _) _
    exact differsWithin_timerBytes hid h
  | tof =>
    refine .append_left (.append_left (.append_left (.append_left (.append_right ?_ _) _) _) _) _
    exact differsWithin_timerBytes hid h
  | tp =>
    refine .append_left (.append_left (.append_left (.append_left (.append_left
      (.append_right ?_ _) _) _) _) _) _
    exact differsWithin_timerBytes hid h

lemma HashedCounters.differsWithin {k : HashedCounters} {c : CTCounter} (hid : id < maxTimers)
    (h : DiffersWithin 4 (k.array vm id).bytes c.bytes) :
    DiffersWithin 4 (stateBytes vm) (stateBytes (k.put vm id c)) := by
  have hfront : ∀ x y : List UInt8, DiffersWithin 4 x y →
      ∀ regs pc mem ton tof tp : List UInt8,
        DiffersWithin 4 (regs ++ (pc ++ (mem ++ (ton ++ (tof ++ (tp ++ x))))))
          (regs ++ (pc ++ (mem ++ (ton ++ (tof ++ (tp ++ y)))))) :=
    fun _ _ hxy _ _ _ _ _ _ => .append_left (.append_left (.append_left (.append_left
      (.append_left (hxy.append_left _) _) _) _) _) _
  cases k with
  | ctu => exact hfront _ _ ((differsWithin_counterBytes hid h).append_right _) _ _ _ _ _ _
  | ctd =>
    exact hfront _ _ (((differsWithin_counterBytes hid h).append_right _).append_left _) _ _ _ _ _ _
  | ctud =>
    exact hfront _ _ (((differsWithin_counterBytes hid h).append_left _).append_left _) _ _ _ _ _ _

end Arrays

namespace StatePart

variable {vm vm' : VmState} {p : StatePart} {v : UInt32}

/-- A part takes the value it is set to. -/
lemma get_set (hp : ∀ addr, p ≠ .memByte addr) : p.get (p.set vm v) = v := by
  cases p with
  | memByte addr => exact absurd rfl (hp addr)
  | _ => simp [get, set]

/-- A change of a part that is read shows within four bytes of what is hashed. -/
lemma differsWithin (hfits : vm.pcStart.toNat + vm.programSize.toNat ≤ vmMemBytes)
    (hscope : p.InScope vm) (hhashed : p.Hashed vm) (hne : p.get vm ≠ p.get (p.set vm v)) :
    DiffersWithin 4 (stateBytes vm) (stateBytes (p.set vm v)) := by
  cases p with
  | reg r =>
    refine .append_right (differsWithin_registerBytes hne fun s hs => ?_) _
    exact (update_of_ne hs _ _).symm
  | pc => exact .append_left (.append_right (differsWithin_uint32Bytes hne) _) _
  | memByte addr =>
    have hlt : addr < vm.programSize.toNat := hhashed
    refine .append_left (.append_left (.append_right ?_ _) _) _
    refine differsWithin_memBytes (a := addr) ⟨addr, Nat.zero_le _, ?_, fun heq => hne ?_⟩ ?_
    · exact (Nat.zero_add _).symm ▸ lt_min hlt (by omega)
    · exact congrArg UInt8.toUInt32 heq
    · intro b _ _ hb
      have hb : b = addr := by
        by_contra hother
        exact hb (update_of_ne hother _ _).symm
      omega
  | presetMs k id =>
    rw [get_set (by simp)] at hne
    exact HashedTimers.differsWithin hscope (.append_left (.append_left (.append_left
      (.append_right (differsWithin_uint32Bytes hne) _) _) _) _)
  | ET k id =>
    rw [get_set (by simp)] at hne
    exact HashedTimers.differsWithin hscope (.append_left (.append_left (.append_left
      (.append_left (differsWithin_uint32Bytes hne) _) _) _) _)
  | value k id =>
    rw [get_set (by simp)] at hne
    exact HashedCounters.differsWithin hscope (.append_right (differsWithin_uint32Bytes hne) _)
  | preset k id =>
    rw [get_set (by simp)] at hne
    exact HashedCounters.differsWithin hscope (.append_left (differsWithin_uint32Bytes hne) _)

/-- A byte of memory that is not read does not show. -/
lemma stateBytes_set_of_not_hashed (hhashed : ¬p.Hashed vm) :
    stateBytes (p.set vm v) = stateBytes vm := by
  cases p with
  | memByte addr =>
    have hle : vm.programSize.toNat ≤ addr := not_lt.1 hhashed
    have hmem : ∀ n, n ≤ vm.programSize.toNat →
        memBytes (update vm.mem addr v.toUInt8) 0 n = memBytes vm.mem 0 n := by
      intro n hn
      refine List.map_congr_left fun i hi => update_of_ne ?_ _ _
      have := List.mem_range.1 hi
      omega
    simp only [stateBytes, set, hmem _ (Nat.min_le_left _ _)]
  | _ => exact absurd trivial hhashed

end StatePart

/-- The hash tells two states apart that differ in one part if and only if it reads this part. -/
theorem state_hash_covers_iff {vm vm' : VmState} {p : StatePart}
    (hfits : vm.pcStart.toNat + vm.programSize.toNat ≤ vmMemBytes) (hscope : p.InScope vm)
    (hne : p.get vm ≠ p.get vm') (honly : vm' = p.set vm (p.get vm')) :
    vmCalculateStateHash vm ≠ vmCalculateStateHash vm' ↔
      ∀ addr, p = .memByte addr → addr < vm.programSize.toNat := by
  have hhashed : p.Hashed vm ↔ ∀ addr, p = .memByte addr → addr < vm.programSize.toNat := by
    cases p <;> simp [StatePart.Hashed]
  rw [← hhashed, vmCalculateStateHash_eq, vmCalculateStateHash_eq, honly]
  rw [honly] at hne
  refine ⟨fun hdiff => ?_, fun h => crc32_ne_of_bytes (StatePart.differsWithin hfits hscope h hne)⟩
  by_contra hnot
  exact hdiff (by rw [StatePart.stateBytes_set_of_not_hashed hnot])

/-- A machine with a program of four bytes. -/
def fourByteProgram : VmState := { vmCreate with programSize := 4 }

/-- A change of a register is seen. -/
theorem state_hash_covers_iff_reg :
    (vmCalculateStateHash fourByteProgram ≠
        vmCalculateStateHash ((StatePart.reg 7).set fourByteProgram 1)) ↔
      ∀ addr, StatePart.reg 7 = .memByte addr → addr < fourByteProgram.programSize.toNat :=
  state_hash_covers_iff (p := .reg 7) (by decide) trivial (by decide) rfl

/-- A change of the first byte of the program, which is at `0x3000`, is not seen. -/
theorem state_hash_misses_image :
    ¬∀ (vm vm' : VmState) (p : StatePart),
      vm.pcStart.toNat + vm.programSize.toNat ≤ vmMemBytes → p.InScope vm →
        p.get vm ≠ p.get vm' → vm' = p.set vm (p.get vm') →
        vmCalculateStateHash vm ≠ vmCalculateStateHash vm' := by
  intro hall
  refine hall fourByteProgram ((StatePart.memByte 0x3000).set fourByteProgram 1) (.memByte 0x3000)
    (by decide) ⟨by decide, by decide⟩ (by decide) rfl ?_
  rw [vmCalculateStateHash_eq, vmCalculateStateHash_eq,
    StatePart.stateBytes_set_of_not_hashed (p := .memByte 0x3000) (not_lt.2 (by decide))]

end Vm32
