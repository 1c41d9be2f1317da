import Rblpolicyd.Libc.Numerals

/-!
# Durations as the statistics compute them

Both functions that record a duration add the seconds of a time to its
milliseconds as if they were milliseconds, and keep the difference of two such
sums. Within one second of the clock the difference is the elapsed time; a pair
of times in different seconds counts a second as one millisecond.

## Main definitions

* `Timeval`, `Timeval.micros` — a time of the clock, and what it stands for
* `duration` — the difference that is recorded

## Main results

* `duration_eq` — the difference, without the conversions between integer types
* `duration_accurate_iff` — when it is the elapsed time in milliseconds
* `duration_mono` — within a second it does not decrease
-/

namespace Rblpolicyd

open Libc

/-- `struct timeval` as `gettimeofday` fills it. -/
structure Timeval where
  tv_sec : Int
  tv_usec : Int
  usec_mem : 0 ≤ tv_usec ∧ tv_usec < 1000000

namespace Timeval

/-- The time in microseconds. -/
def micros (t : Timeval) : Int := t.tv_sec * 1000000 + t.tv_usec

/-- `l_start` and `l_end`: `tv_usec / 1000 + tv_sec` as an `unsigned long long`. -/
def stamp (t : Timeval) : Int := toUInt64 (t.tv_usec.tdiv 1000 + t.tv_sec)

end Timeval

/-- `l_end - l_start`, converted to `int`. -/
def duration (start stop : Timeval) : CInt := narrow (toUInt64 (stop.stamp - start.stamp))

/-- The microseconds from one time to another. -/
def elapsed (start stop : Timeval) : Int := stop.micros - start.micros

variable {start mid stop : Timeval}

/-- Less than `2 ^ 31` milliseconds apart, the recorded number is the difference of the
seconds and that of the whole milliseconds, added. -/
theorem duration_eq (hle : 0 ≤ elapsed start stop) (hshort : elapsed start stop < 2 ^ 31 * 1000) :
    (duration start stop : Int) =
      stop.tv_sec - start.tv_sec + (stop.tv_usec / 1000 - start.tv_usec / 1000) := by
  have hstart := start.usec_mem
  have hstop := stop.usec_mem
  rw [elapsed, Timeval.micros, Timeval.micros] at hle hshort
  have hdiv : ∀ t : Timeval, t.tv_usec.tdiv 1000 = t.tv_usec / 1000 :=
    fun t => Int.tdiv_eq_ediv_of_nonneg t.usec_mem.1
  have hcongr : toInt32 (toUInt64 (stop.stamp - start.stamp)) =
      toInt32 (stop.tv_sec - start.tv_sec + (stop.tv_usec / 1000 - start.tv_usec / 1000)) := by
    rw [toInt32_toUInt64]
    apply toInt32_congr
    rw [Timeval.stamp, Timeval.stamp, toUInt64, toUInt64, hdiv, hdiv]
    omega
  exact hcongr.trans (toInt32_of_mem (by omega))

/-- The recorded number is less than a millisecond off exactly when both times lie in
one second of the clock. -/
theorem duration_accurate_iff (hle : 0 ≤ elapsed start stop)
    (hshort : elapsed start stop < 2 ^ 31 * 1000) :
    |1000 * (duration start stop : Int) - elapsed start stop| < 1000 ↔
      start.tv_sec = stop.tv_sec := by
  have hstart := start.usec_mem
  have hstop := stop.usec_mem
  rw [duration_eq hle hshort, abs_lt]
  rw [elapsed, Timeval.micros, Timeval.micros] at hle ⊢
  omega

/-- Within one second the recorded number is not negative. -/
theorem duration_nonneg (hle : 0 ≤ elapsed start stop) (hsame : start.tv_sec = stop.tv_sec) :
    0 ≤ (duration start stop : Int) := by
  have hstart := start.usec_mem
  have hstop := stop.usec_mem
  have hshort : elapsed start stop < 2 ^ 31 * 1000 := by
    rw [elapsed, Timeval.micros, Timeval.micros]
    omega
  rw [duration_eq hle hshort]
  rw [elapsed, Timeval.micros, Timeval.micros] at hle
  omega

/-- Within one second a later end gives no smaller number. -/
theorem duration_mono (hle : 0 ≤ elapsed start mid) (hle' : mid.micros ≤ stop.micros)
    (hsame : start.tv_sec = stop.tv_sec) :
    (duration start mid : Int) ≤ duration start stop := by
  have hstart := start.usec_mem
  have hmid := mid.usec_mem
  have hstop := stop.usec_mem
  have hshort : elapsed start stop < 2 ^ 31 * 1000 := by
    rw [elapsed, Timeval.micros, Timeval.micros]
    omega
  have hstop' : 0 ≤ elapsed start stop := by
    rw [elapsed] at hle ⊢
    omega
  have hmid' : elapsed start mid < 2 ^ 31 * 1000 := by
    rw [elapsed] at hshort ⊢
    omega
  rw [duration_eq hle hmid', duration_eq hstop' hshort]
  rw [elapsed, Timeval.micros, Timeval.micros] at hle
  rw [Timeval.micros, Timeval.micros] at hle'
  omega

end Rblpolicyd
