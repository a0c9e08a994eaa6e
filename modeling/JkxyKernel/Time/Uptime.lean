import Mathlib.Algebra.Order.Ring.Int
import Mathlib.Data.Nat.Basic
import Mathlib.Order.Monotone.Defs

/-!
# Uptime

`get_uptime` scales the ticks since the last full second to nanoseconds, by the number of ticks
of the second before.  Whatever these numbers are, there are never as many nanoseconds as a
second has: where the first product wraps around, the divisor is large.
-/

namespace JkxyKernel
namespace Time

/-- `NSEC` -/
def nsecPerSec : Nat := 1000000000

/-- `struct timespec` -/
@[ext]
structure Timespec where
  sec : BitVec 32
  nsec : BitVec 32
  deriving DecidableEq, Repr

namespace Timespec

variable (t : Timespec)

/-- No full second is left in the nanoseconds. -/
def Valid : Prop := t.nsec.toNat < nsecPerSec

instance : Decidable t.Valid := inferInstanceAs (Decidable (_ < _))

/-- The exact time. -/
def nanos : Nat := t.sec.toNat * nsecPerSec + t.nsec.toNat

end Timespec

/-- The variables of `uptime.c`; `last_calibration` is never 0. -/
structure Uptime where
  lastCalibration : BitVec 32
  rtcCounter : BitVec 32
  seconds : BitVec 32
  calibrated : lastCalibration ≠ 0

/-- `get_uptime` -/
def getUptime (u : Uptime) : Timespec :=
  let counter := if u.lastCalibration ≤ u.rtcCounter then u.lastCalibration - 1 else u.rtcCounter
  ⟨u.seconds, counter * 1000000 / u.lastCalibration * 1000⟩

/-- A quotient of a product that may have wrapped around. -/
theorem scaled_lt {counter calibration : Nat} (h : counter < calibration) :
    counter * 1000000 % 2 ^ 32 / calibration < 1000000 := by
  rw [Nat.div_lt_iff_lt_mul (Nat.zero_lt_of_lt h)]
  rcases Nat.lt_or_ge calibration 4295 with hfew | hmany
  · have hmod := Nat.mod_le (counter * 1000000) (2 ^ 32)
    omega
  · have hmod := Nat.mod_lt (counter * 1000000) (Nat.two_pow_pos 32)
    omega

theorem getUptime_valid (u : Uptime) : (getUptime u).Valid := by
  have hpos : 0 < u.lastCalibration.toNat :=
    Nat.pos_of_ne_zero fun h => u.calibrated (BitVec.eq_of_toNat_eq h)
  obtain ⟨counter, hcounter, hlt⟩ : ∃ counter : BitVec 32,
      getUptime u = ⟨u.seconds, counter * 1000000 / u.lastCalibration * 1000⟩ ∧
        counter.toNat < u.lastCalibration.toNat := by
    refine ⟨_, rfl, ?_⟩
    split
    next => bv_omega
    next h => exact Nat.not_le.mp h
  rw [hcounter, Timespec.Valid]
  have hscaled := scaled_lt hlt
  have hmillion : (1000000 : BitVec 32).toNat = 1000000 := rfl
  have hthousand : (1000 : BitVec 32).toNat = 1000 := rfl
  rw [BitVec.toNat_mul, BitVec.toNat_udiv, BitVec.toNat_mul, hmillion, hthousand, nsecPerSec]
  refine Nat.lt_of_le_of_lt (Nat.mod_le _ _) ?_
  omega

end Time
end JkxyKernel
