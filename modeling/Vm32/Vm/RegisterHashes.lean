/-
# Incremental register hashes

Beside the register file the machine keeps one checksum for each register and one for the whole
file.  `vm_update_all_register_hashes` computes them all; `vm_update_register_hash`, meant for the
time after a register was written, recomputes the checksum of this register and leaves the one of
the file behind.
-/
import Vm32.Lib.Runs
import Vm32.Vm.StateHash

namespace Vm32

open LabelledRun Function

/-- `incremental_state_t`. -/
structure IncrementalState where
  incrementalHash : UInt32
  regHashes : UInt8 → UInt32

/-- `vm->reg` and `vm->incremental`. -/
structure HashedRegisters where
  reg : UInt8 → UInt32
  incremental : IncrementalState

/-- `vm_update_register_hash`. -/
def vmUpdateRegisterHash (s : HashedRegisters) (regNum : UInt8) : HashedRegisters :=
  { s with
    incremental :=
      { s.incremental with
        regHashes :=
          update s.incremental.regHashes regNum (crc32 (uint32Bytes (s.reg regNum))) } }

/-- `vm_update_all_register_hashes`. -/
def vmUpdateAllRegisterHashes (s : HashedRegisters) : HashedRegisters :=
  { s with
    incremental :=
      ⟨calculateRegistersHash s.reg .crc32, fun i => crc32 (uint32Bytes (s.reg i))⟩ }

namespace HashedRegisters

/-- A register is written and its hash is updated. -/
def write (s : HashedRegisters) (w : UInt8 × UInt32) : HashedRegisters :=
  vmUpdateRegisterHash { s with reg := update s.reg w.1 w.2 } w.1

/-- The hashes are those that a full update would compute. -/
def UpToDate (s : HashedRegisters) : Prop :=
  s.incremental = (vmUpdateAllRegisterHashes s).incremental

/-- The hash of each register is right, and the hash of the file is `hash`. -/
structure Tracks (hash : UInt32) (s : HashedRegisters) : Prop where
  regHashes : ∀ i, s.incremental.regHashes i = crc32 (uint32Bytes (s.reg i))
  incrementalHash : s.incremental.incrementalHash = hash

section Runs

variable {s : HashedRegisters} {hash : UInt32}

lemma tracks_updateAll (s : HashedRegisters) :
    (vmUpdateAllRegisterHashes s).Tracks (calculateRegistersHash s.reg .crc32) :=
  ⟨fun _ => rfl, rfl⟩

/-- A write keeps the hashes of the registers right, and the hash of the file as it is. -/
lemma Tracks.write (hs : s.Tracks hash) (w : UInt8 × UInt32) : (s.write w).Tracks hash := by
  refine ⟨fun i => ?_, hs.incrementalHash⟩
  by_cases hi : i = w.1
  · simp [HashedRegisters.write, vmUpdateRegisterHash, hi]
  · simp [HashedRegisters.write, vmUpdateRegisterHash, hi, hs.regHashes]

lemma Tracks.run (hs : s.Tracks hash) (ws : List (UInt8 × UInt32)) :
    (run HashedRegisters.write s ws).Tracks hash :=
  invariant hs (fun _ w hs => hs.write w) ws

lemma Tracks.upToDate_iff (hs : s.Tracks hash) :
    s.UpToDate ↔ calculateRegistersHash s.reg .crc32 = hash := by
  constructor
  · intro h
    rw [← hs.incrementalHash, h]
    rfl
  · intro h
    have hregs : s.incremental.regHashes = fun i => crc32 (uint32Bytes (s.reg i)) :=
      funext hs.regHashes
    rw [UpToDate, vmUpdateAllRegisterHashes, h, ← hs.incrementalHash, ← hregs]

/-- Writes of the values that the registers hold. -/
lemma reg_run_of_same {ws : List (UInt8 × UInt32)}
    (hsame : Along HashedRegisters.write (fun s w => s.reg w.1 = w.2) s ws) :
    (run HashedRegisters.write s ws).reg = s.reg := by
  refine hsame.invariant (I := fun t => t.reg = s.reg) rfl fun t w ht hw => ?_
  rw [← ht]
  exact (congrArg (update t.reg w.1) hw.symm).trans (update_eq_self w.1 t.reg)

end Runs

/-- After a sequence of writes the hashes are up to date if and only if the register file has the
checksum it had when all hashes were computed; and they are so after every write if and only if no
write changes a register. -/
theorem upToDate_run_iff (s : HashedRegisters) (ws : List (UInt8 × UInt32)) :
    let s₀ := vmUpdateAllRegisterHashes s
    ((run write s₀ ws).UpToDate ↔
        calculateRegistersHash (run write s₀ ws).reg .crc32 =
          calculateRegistersHash s.reg .crc32) ∧
      ((∀ pre, pre <+: ws → (run write s₀ pre).UpToDate) ↔
        Along write (fun s w => s.reg w.1 = w.2) s₀ ws) := by
  intro s₀
  have htracks : ∀ pre, (run write s₀ pre).Tracks (calculateRegistersHash s.reg .crc32) :=
    (tracks_updateAll s).run
  refine ⟨(htracks ws).upToDate_iff, fun hall => along_iff.2 ?_, ?_⟩
  · rintro pre w post rfl
    have hbefore := (htracks pre).upToDate_iff.1 (hall pre (List.prefix_append _ _))
    have hafter := (htracks (pre ++ [w])).upToDate_iff.1 (hall (pre ++ [w]) ⟨post, by simp⟩)
    -- the write leaves the checksum of the file, so it does not change the register
    rw [run_append, ← hbefore] at hafter
    exact (calculateRegistersHash_update.1 hafter).symm
  · rintro hsame pre ⟨post, rfl⟩
    rw [(htracks pre).upToDate_iff, reg_run_of_same (along_append.1 hsame).1]
    rfl

/-- A write that changes a register. -/
theorem write_leaves_stale :
    ¬∀ (s : HashedRegisters) (ws : List (UInt8 × UInt32)),
      (run write (vmUpdateAllRegisterHashes s) ws).UpToDate := by
  intro hall
  have hstale := hall ⟨fun _ => 0, ⟨0, fun _ => 0⟩⟩ [(5, 1)]
  rw [(((tracks_updateAll _).run _).upToDate_iff)] at hstale
  exact absurd (calculateRegistersHash_update.1 hstale) (by decide)

end HashedRegisters

end Vm32
