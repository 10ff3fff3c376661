/-
# The IEC 61131-3 timers of `timers.c`

A timer that is timing keeps the time of its edge as a `timespec`, split into seconds and
nanoseconds, and its elapsed time is recomputed from that stamp at every evaluation.  The five
update functions differ in the edge that starts them, in what they do to the output, and in
whether the elapsed time is measured from the stamp (`TON`, `TOF`, `TP`) or accumulated
(`TONR`, `TOFR`, which move the stamp along).
-/
import Mathlib.Data.UInt
import Mathlib.Tactic

namespace Vm32

/-- `struct timespec`. -/
structure Timespec where
  tvSec : Int64
  tvNsec : Int64
deriving DecidableEq, Repr

/-- `IEC_Timer`. -/
structure IECTimer where
  enabled : Bool
  input : Bool
  output : Bool
  prevInput : Bool
  timing : Bool
  start : Timespec
  presetMs : UInt32
  ET : UInt32
deriving DecidableEq, Repr

/-- A timer as `timers_init` leaves it. -/
def IECTimer.cleared : IECTimer :=
  ⟨false, false, false, false, false, ⟨0, 0⟩, 0, 0⟩

/-- `ms_diff`.  The differences are signed; the unsigned constants make the product and the
quotient unsigned 64-bit operations. -/
def msDiff (a b : Timespec) : UInt32 :=
  ((b.tvSec - a.tvSec).toUInt64 * 1000 + (b.tvNsec - a.tvNsec).toUInt64 / 1000000).toUInt32

/-- The splitting of `time_ms` that every stamp is taken by. -/
def timespecOfMs (timeMs : UInt64) : Timespec :=
  ⟨(timeMs / 1000).toInt64, (timeMs % 1000 * 1000000).toInt64⟩

/-- The lines that start a timer at an edge. -/
def IECTimer.startAt (t : IECTimer) (timeMs : UInt64) : IECTimer :=
  { t with start := timespecOfMs timeMs, timing := true }

/-- What `TON`, `TOF` and `TP` do while they are disabled. -/
def IECTimer.idle (t : IECTimer) : IECTimer := { t with output := false, ET := 0 }

/-! ### The update functions -/

/-- `update_ton`. -/
def updateTon (timeMs : UInt64) (t : IECTimer) : IECTimer :=
  if !t.enabled || t.presetMs == 0 then t.idle
  else
    let rising := t.input && !t.prevInput
    let t :=
      if t.input then
        let t := if rising then t.startAt timeMs else t
        if t.timing then
          let t := { t with ET := msDiff t.start (timespecOfMs timeMs) }
          if t.presetMs ≤ t.ET then { t with output := true, timing := false } else t
        else t
      else { t with output := false, ET := 0, timing := false }
    { t with prevInput := t.input }

/-- `update_tof`. -/
def updateTof (timeMs : UInt64) (t : IECTimer) : IECTimer :=
  if !t.enabled || t.presetMs == 0 then t.idle
  else
    let falling := !t.input && t.prevInput
    let t :=
      if t.input then { t with output := true, timing := false, ET := 0 }
      else
        let t := if falling then t.startAt timeMs else t
        if t.timing then
          let t := { t with ET := msDiff t.start (timespecOfMs timeMs) }
          if t.presetMs ≤ t.ET then { t with output := false, timing := false }
          else { t with output := true }
        else t
    { t with prevInput := t.input }

/-- `update_tp`. -/
def updateTp (timeMs : UInt64) (t : IECTimer) : IECTimer :=
  if !t.enabled || t.presetMs == 0 then t.idle
  else
    let rising := t.input && !t.prevInput
    let t : IECTimer := if rising then { t.startAt timeMs with output := true } else t
    let t :=
      if t.timing then
        let t := { t with ET := msDiff t.start (timespecOfMs timeMs) }
        if t.presetMs ≤ t.ET then { t with output := false, timing := false } else t
      else t
    { t with prevInput := t.input }

/-- `update_tonr`; a preset of zero does not disable it. -/
def updateTonr (timeMs : UInt64) (t : IECTimer) : IECTimer :=
  if !t.enabled then t
  else
    let rising := t.input && !t.prevInput
    let t :=
      if t.input then
        let t := if rising then t.startAt timeMs else t
        let now := timespecOfMs timeMs
        let t : IECTimer :=
          if t.timing then { t with ET := t.ET + msDiff t.start now, start := now } else t
        if t.presetMs ≤ t.ET then { t with output := true, timing := false } else t
      else t
    { t with prevInput := t.input }

/-- `update_tofr`; the reset by the input comes after the measurement. -/
def updateTofr (timeMs : UInt64) (t : IECTimer) : IECTimer :=
  if !t.enabled then t
  else
    let falling := !t.input && t.prevInput
    let t := if falling then t.startAt timeMs else t
    let t :=
      if t.timing then
        let now := timespecOfMs timeMs
        let t := { t with ET := t.ET + msDiff t.start now, start := now }
        if t.presetMs ≤ t.ET then { t with output := false, timing := false }
        else { t with output := true }
      else t
    let t := if t.input then { t with output := true, timing := false, ET := 0 } else t
    { t with prevInput := t.input }

/-! ### Elapsed time -/

/-- The five kinds of timers. -/
inductive TimerKind
  | ton | tof | tp | tonr | tofr
deriving DecidableEq, Repr

namespace TimerKind

/-- The update function of a kind. -/
def update : TimerKind → UInt64 → IECTimer → IECTimer
  | ton => updateTon
  | tof => updateTof
  | tp => updateTp
  | tonr => updateTonr
  | tofr => updateTofr

/-- The edge that starts a timer of the kind. -/
def edge : TimerKind → IECTimer → Bool
  | ton, t | tp, t | tonr, t => t.input && !t.prevInput
  | tof, t | tofr, t => !t.input && t.prevInput

/-- The timer after the edge detection of its evaluation at `timeMs`. -/
def atEdge (k : TimerKind) (timeMs : UInt64) (t : IECTimer) : IECTimer :=
  if k.edge t then t.startAt timeMs else t

/-- The input under which the kind measures: `TP` measures under both, and an evaluation of
`TOFR` with its input on is a reset. -/
def measuresUnder : TimerKind → Bool → Bool
  | ton, input | tonr, input => input
  | tof, input | tofr, input => !input
  | tp, _ => true

/-- The evaluation is one in which the timer is timing. -/
def timingAt (k : TimerKind) (timeMs : UInt64) (t : IECTimer) : Bool :=
  t.enabled && (t.presetMs != 0 || k == tonr || k == tofr) && k.measuresUnder t.input &&
    (k.atEdge timeMs t).timing

/-- What the elapsed time of the evaluation adds to: `TONR` and `TOFR` are retentive. -/
def base : TimerKind → IECTimer → UInt32
  | ton, _ | tof, _ | tp, _ => 0
  | tonr, t | tofr, t => t.ET

/-- An evaluation in which the timer is timing measures by `ms_diff` from the stamp. -/
lemma update_ET (k : TimerKind) (timeMs : UInt64) (t : IECTimer)
    (htiming : k.timingAt timeMs t = true) :
    (k.update timeMs t).ET =
      k.base t + msDiff (k.atEdge timeMs t).start (timespecOfMs timeMs) := by
  obtain ⟨enabled, input, output, prevInput, timing, start, presetMs, ET⟩ := t
  cases k <;> cases enabled <;> cases input <;> cases prevInput <;> cases timing <;>
    simp_all [timingAt, measuresUnder, atEdge, edge, base, update, updateTon, updateTof, updateTp,
      updateTonr, updateTofr, IECTimer.startAt] <;>
    split_ifs <;> trivial

end TimerKind

/-- `ms_diff` on splittings, as unsigned 64-bit arithmetic. -/
lemma msDiff_timespecOfMs (s n : UInt64) :
    msDiff (timespecOfMs s) (timespecOfMs n) =
      ((n / 1000 - s / 1000) * 1000 +
        (n % 1000 * 1000000 - s % 1000 * 1000000) / 1000000).toUInt32 := rfl

lemma toNat_nanos (x : UInt64) : (x % 1000 * 1000000).toNat = x.toNat % 1000 * 1000000 := by
  simp only [UInt64.toNat_mul, UInt64.toNat_mod, UInt64.reduceToNat]
  omega

lemma toNat_secs {s n : UInt64} (hsn : s ≤ n) :
    ((n / 1000 - s / 1000) * 1000).toNat = (n.toNat / 1000 - s.toNat / 1000) * 1000 := by
  rw [UInt64.le_iff_toNat_le] at hsn
  have hn := n.toNat_lt
  have hle : s / 1000 ≤ n / 1000 := by
    rw [UInt64.le_iff_toNat_le, UInt64.toNat_div, UInt64.toNat_div]
    exact Nat.div_le_div_right hsn
  rw [UInt64.toNat_mul, UInt64.toNat_sub_of_le _ _ hle]
  simp only [UInt64.toNat_div, UInt64.reduceToNat]
  omega

/-- The milliseconds went up: both differences are exact. -/
lemma msDiff_of_mod_le {s n : UInt64} (hsn : s ≤ n) (hmod : s % 1000 ≤ n % 1000) :
    msDiff (timespecOfMs s) (timespecOfMs n) = (n - s).toUInt32 := by
  have hle : s % 1000 * 1000000 ≤ n % 1000 * 1000000 := by
    rw [UInt64.le_iff_toNat_le, toNat_nanos, toNat_nanos]
    exact Nat.mul_le_mul_right _ (UInt64.le_iff_toNat_le.1 hmod)
  have hnanos : ((n % 1000 * 1000000 - s % 1000 * 1000000) / 1000000).toNat =
      n.toNat % 1000 - s.toNat % 1000 := by
    rw [UInt64.toNat_div, UInt64.toNat_sub_of_le _ _ hle, toNat_nanos, toNat_nanos]
    simp only [UInt64.reduceToNat]
    omega
  rw [msDiff_timespecOfMs]
  congr 1
  rw [← UInt64.toNat_inj, UInt64.toNat_add, toNat_secs hsn, hnanos,
    UInt64.toNat_sub_of_le _ _ hsn]
  rw [UInt64.le_iff_toNat_le] at hsn hmod
  simp only [UInt64.toNat_mod, UInt64.reduceToNat] at hmod
  have hn := n.toNat_lt
  omega

lemma msDiff_self (timeMs : UInt64) : msDiff (timespecOfMs timeMs) (timespecOfMs timeMs) = 0 := by
  rw [msDiff_of_mod_le (UInt64.le_refl _) (UInt64.le_refl _), UInt64.sub_self]
  rfl

/-- The milliseconds went down: the negative difference of the nanoseconds is divided as a
number just below `2 ^ 64`. -/
lemma msDiff_of_lt_mod {s n : UInt64} (hsn : s ≤ n) (hmod : n % 1000 < s % 1000) :
    msDiff (timespecOfMs s) (timespecOfMs n) = (n - s).toUInt32 + 4154504685 := by
  have hlt : n.toNat % 1000 < s.toNat % 1000 := by
    simpa only [UInt64.toNat_mod, UInt64.reduceToNat] using UInt64.lt_iff_toNat_lt.1 hmod
  have hnanos : ((n % 1000 * 1000000 - s % 1000 * 1000000) / 1000000).toNat =
      18446744073709 - (s.toNat % 1000 - n.toNat % 1000) := by
    rw [UInt64.toNat_div, UInt64.toNat_sub, toNat_nanos, toNat_nanos]
    simp only [UInt64.reduceToNat]
    omega
  rw [msDiff_timespecOfMs, ← UInt32.toNat_inj, UInt64.toNat_toUInt32, UInt64.toNat_add,
    toNat_secs hsn, hnanos, UInt32.toNat_add, UInt64.toNat_toUInt32,
    UInt64.toNat_sub_of_le _ _ hsn]
  simp only [UInt32.reduceToNat]
  rw [UInt64.le_iff_toNat_le] at hsn
  have hn := n.toNat_lt
  omega

/-- `ms_diff` is exact exactly if the milliseconds of `now` are not below those of the start. -/
lemma msDiff_eq_iff {s n : UInt64} (hsn : s ≤ n) :
    msDiff (timespecOfMs s) (timespecOfMs n) = (n - s).toUInt32 ↔ s % 1000 ≤ n % 1000 := by
  constructor
  · intro heq
    by_contra hcon
    rw [msDiff_of_lt_mod hsn (UInt64.not_le.1 hcon), UInt32.add_eq_left] at heq
    simp at heq
  · exact msDiff_of_mod_le hsn

/-- Every timer measures the virtual time that elapsed since its stamp exactly if the
milliseconds did not go down: for `ms_diff` itself, and for the elapsed time that each update
function sets (`TON`, `TOF`, `TP`) or adds to (`TONR`, `TOFR`) in an evaluation in which the
timer is timing. -/
theorem timers_measure_elapsed_iff (s n : UInt64) (hsn : s ≤ n) (hfit : n - s < 2 ^ 32) :
    ((msDiff (timespecOfMs s) (timespecOfMs n)).toNat = (n - s).toNat ↔
      s % 1000 ≤ n % 1000) ∧
    ∀ (k : TimerKind) (t : IECTimer), k.timingAt n t = true →
      (k.atEdge n t).start = timespecOfMs s →
      ((k.update n t).ET = k.base t + (n - s).toUInt32 ↔ s % 1000 ≤ n % 1000) := by
  refine ⟨?_, fun k t htiming hstart => ?_⟩
  · have hlt : (n - s).toNat < 2 ^ 32 := UInt64.lt_iff_toNat_lt.1 hfit
    have hexact : (n - s).toUInt32.toNat = (n - s).toNat := by
      rw [UInt64.toNat_toUInt32, Nat.mod_eq_of_lt hlt]
    rw [← hexact, UInt32.toNat_inj, msDiff_eq_iff hsn]
  · rw [k.update_ET n t htiming, hstart, UInt32.add_right_inj, msDiff_eq_iff hsn]

/-- A `TON` that was started at 250 ms and is evaluated at 1300 ms. -/
theorem timers_measure_elapsed_ton :
    ((msDiff (timespecOfMs 250) (timespecOfMs 1300)).toNat = (1300 - 250 : UInt64).toNat ↔
      (250 % 1000 : UInt64) ≤ 1300 % 1000) ∧
    ((TimerKind.ton.update 1300
        ⟨true, true, false, true, true, timespecOfMs 250, 2000, 0⟩).ET =
        0 + (1300 - 250 : UInt64).toUInt32 ↔ (250 % 1000 : UInt64) ≤ 1300 % 1000) :=
  have h := timers_measure_elapsed_iff 250 1300 (by decide) (by decide)
  ⟨h.1, h.2 .ton _ (by decide) rfl⟩

/-- A `TON` that was started at 1 ms and is evaluated at 1000 ms. -/
theorem ton_elapsed_borrow :
    msDiff (timespecOfMs 1) (timespecOfMs 1000) ≠ 999 ∧
      (TimerKind.ton.update 1000
        ⟨true, true, false, true, true, timespecOfMs 1, 2000, 0⟩).ET = 4154505684 ∧
      (TimerKind.ton.update 1000
        ⟨true, true, false, true, true, timespecOfMs 1, 2000, 0⟩).output = true := by
  decide

end Vm32
