import Mathlib.Algebra.Order.BigOperators.Group.List
import Mathlib.Tactic.IntervalCases
import Rblpolicyd.Data.RingBuffer
import Rblpolicyd.Libc.Numerals

/-!
# The average of a ring of durations

`ring_average` adds the recorded numbers, which are signed, into an unsigned sum,
divides without a sign and converts the quotient back to `int`. A sum below zero
stands for itself plus `2 ^ 64`. The division takes that surplus to a multiple of
`2 ^ 32`, which the conversion removes, exactly when the count is a power of two.

## Main definitions

* `Ring` — the recorded numbers
* `ringAverage` — the value that is logged
* `Averages` — what an average over the slots in use is

## Main results

* `ringAverage_spec` — the average in terms of the sum of the slots in use
* `ringAverage_averages_iff` — when it lies in its window
-/

namespace Rblpolicyd

open Libc

/-- `RINGBUFFERS` -/
abbrev RINGBUFFERS : ℕ := 16

/-- `ring_t`. -/
abbrev Ring := Data.RingBuffer CInt RINGBUFFERS

/-- The sum of the slots in use, as an `unsigned long long`. -/
def ringSum (r : Ring) : Int :=
  r.slots.foldl (fun (sum : Int) (v : CInt) => toUInt64 (sum + v)) 0

/-- `ring_average`. -/
def ringAverage (r : Option Ring) : CInt :=
  match r with
  | none => narrow 0
  | some r => if r.count = 0 then narrow 0 else narrow (ringSum r / r.count)

/-- The sum that is meant. -/
def total (r : Ring) : Int := (r.slots.map Subtype.val).sum

/-- An average of the slots in use: between the smallest and the largest of them, and
their sum divided by their number up to rounding. -/
structure Averages (average : CInt) (r : Ring) : Prop where
  low : ∃ v ∈ r.slots, (v : Int) ≤ average
  high : ∃ v ∈ r.slots, (average : Int) ≤ v
  rounded : |(average : Int) * r.count - total r| < r.count

variable {r : Ring}

/-- The additions wrap once for all. -/
theorem ringSum_eq (r : Ring) : ringSum r = toUInt64 (total r) := by
  have hfold : ∀ (vs : List CInt) (sum : Int),
      vs.foldl (fun (sum : Int) (v : CInt) => toUInt64 (sum + v)) (toUInt64 sum) =
        toUInt64 (sum + (vs.map Subtype.val).sum) := by
    intro vs
    induction vs with
    | nil =>
      intro sum
      rw [List.foldl_nil, List.map_nil, List.sum_nil, Int.add_zero]
    | cons v vs ih =>
      intro sum
      have hwrap : toUInt64 (toUInt64 sum + v) = toUInt64 (sum + v) := by
        rw [toUInt64, toUInt64, toUInt64, Int.emod_add_emod]
      rw [List.foldl_cons, hwrap, ih, List.map_cons, List.sum_cons, Int.add_assoc]
  have hzero := hfold r.slots 0
  rw [Int.zero_add] at hzero
  exact hzero

/-- The sum of the slots stays far from the range of a `long long`. -/
theorem total_bounds (r : Ring) :
    -2 ^ 31 * (r.count : Int) ≤ total r ∧ total r ≤ (2 ^ 31 - 1) * r.count := by
  have hsum : ∀ vs : List CInt, -2 ^ 31 * (vs.length : Int) ≤ (vs.map Subtype.val).sum ∧
      (vs.map Subtype.val).sum ≤ (2 ^ 31 - 1) * vs.length := by
    intro vs
    induction vs with
    | nil => simp
    | cons v vs ih =>
      have hv := v.2
      rw [List.map_cons, List.sum_cons, List.length_cons]
      rw [Nat.cast_succ]
      omega
  rw [← r.length_slots]
  exact hsum r.slots

/-- A slot is not above a number that all of them together do not stay above, and one is
not below a number that they do not stay below. -/
theorem exists_slot_le {n : Int} (h : total r < (n + 1) * r.count) :
    ∃ v ∈ r.slots, (v : Int) ≤ n := by
  by_contra hnone
  have hall : ∀ x ∈ r.slots.map Subtype.val, n + 1 ≤ x := by
    intro x hx
    obtain ⟨v, hv, rfl⟩ := List.mem_map.mp hx
    by_contra hle
    exact hnone ⟨v, hv, by omega⟩
  have hsum := List.card_nsmul_le_sum _ _ hall
  rw [List.length_map, r.length_slots, nsmul_eq_mul, mul_comm] at hsum
  exact absurd h (not_lt.mpr hsum)

theorem exists_le_slot {n : Int} (h : (n - 1) * r.count < total r) :
    ∃ v ∈ r.slots, n ≤ (v : Int) := by
  by_contra hnone
  have hall : ∀ x ∈ r.slots.map Subtype.val, x ≤ n - 1 := by
    intro x hx
    obtain ⟨v, hv, rfl⟩ := List.mem_map.mp hx
    by_contra hle
    exact hnone ⟨v, hv, by omega⟩
  have hsum := List.sum_le_card_nsmul _ _ hall
  rw [List.length_map, r.length_slots, nsmul_eq_mul, mul_comm] at hsum
  exact absurd h (not_lt.mpr hsum)

/-- A quotient that is rounded by less than one is an average. -/
theorem averages_iff_rounded {average : CInt} :
    Averages average r ↔ |(average : Int) * r.count - total r| < r.count := by
  refine ⟨Averages.rounded, fun hrounded => ?_⟩
  obtain ⟨hlow, hhigh⟩ := abs_lt.mp hrounded
  refine ⟨exists_slot_le ?_, exists_le_slot ?_, hrounded⟩
  · rw [add_mul, one_mul]
    omega
  · rw [sub_mul, one_mul]
    omega

/-- The counts by which the unsigned division takes `2 ^ 64` to a multiple of `2 ^ 32`. -/
def PowerOfTwo (count : ℕ) : Prop := count ∈ [1, 2, 4, 8, 16]

instance (count : ℕ) : Decidable (PowerOfTwo count) :=
  inferInstanceAs (Decidable (count ∈ [1, 2, 4, 8, 16]))

variable {count : ℕ} {sum : Int}

/-- A sum that is not negative is divided as it is. -/
theorem rounded_quotient_of_nonneg (hpos : 1 ≤ count) (hle : count ≤ 16) (h0 : 0 ≤ sum)
    (hsum : sum ≤ (2 ^ 31 - 1) * count) :
    |toInt32 (toUInt64 sum / count) * count - sum| < count := by
  have hcount : (0 : Int) < count := by omega
  have hsame : toUInt64 sum = sum := by
    rw [toUInt64]
    omega
  have hnonneg : 0 ≤ sum / count := Int.ediv_nonneg h0 hcount.le
  have hquotient : sum / count < 2 ^ 31 := by
    apply Int.ediv_lt_of_lt_mul hcount
    omega
  have hdivision := Int.mul_ediv_add_emod sum count
  have hmod := Int.emod_nonneg sum hcount.ne'
  have hmod' := Int.emod_lt_of_pos sum hcount
  rw [hsame, toInt32_of_mem ⟨by omega, hquotient⟩, mul_comm, abs_lt]
  omega

/-- A negative sum is off by `2 ^ 64`, and its quotient by a multiple of `2 ^ 32` when the
count divides that evenly. -/
theorem rounded_quotient_of_neg (hpos : 1 ≤ count) (hle : count ≤ 16) (hneg : sum < 0)
    (hsum : -2 ^ 31 * (count : Int) ≤ sum) :
    |toInt32 (toUInt64 sum / count) * count - sum| < count ↔ PowerOfTwo count := by
  have hsurplus : toUInt64 sum = sum + 2 ^ 64 := by
    rw [toUInt64]
    omega
  rw [toInt32_eq, hsurplus, abs_lt]
  interval_cases count
  all_goals
    simp only [Nat.cast_ofNat, Nat.cast_one, Int.ediv_one]
    first
      | exact iff_of_true (by split_ifs <;> omega) (by decide)
      | exact iff_of_false (by split_ifs <;> omega) (by decide)

/-- Over every ring with a slot in use: the average lies in its window and is the sum of
the window divided by the count, up to rounding, exactly when that sum is not negative or
the count is a power of two. -/
theorem ringAverage_averages_iff (r : Ring) (hpos : 1 ≤ r.count) :
    Averages (ringAverage (some r)) r ↔ 0 ≤ total r ∨ PowerOfTwo r.count := by
  have hvalue : (ringAverage (some r) : Int) = toInt32 (toUInt64 (total r) / r.count) := by
    rw [ringAverage, if_neg (by omega), ← ringSum_eq]
    rfl
  obtain ⟨hlow, hhigh⟩ := total_bounds r
  rw [averages_iff_rounded, hvalue]
  rcases Int.lt_or_le (total r) 0 with hneg | h0
  · rw [rounded_quotient_of_neg hpos r.count_le hneg hlow, or_iff_right (not_le.mpr hneg)]
  · exact iff_of_true (rounded_quotient_of_nonneg hpos r.count_le h0 hhigh) (Or.inl h0)

/-- A ring with three durations, recorded while the clock was set back by a millisecond
each time. -/
def backwardRing : Ring :=
  [narrow (-1), narrow (-1), narrow (-1)].foldl Data.RingBuffer.push
    (.blank (narrow 0) (by decide))

theorem ringAverage_averages_backwardRing :
    Averages (ringAverage (some (backwardRing.push (narrow (-1)))))
      (backwardRing.push (narrow (-1))) :=
  (ringAverage_averages_iff _ (by decide)).mpr (Or.inr (by decide))

/-- Three times minus one is averaged to more than `2 ^ 30`. -/
theorem ringAverage_outside_window :
    (ringAverage (some backwardRing) : Int) = 1431655764 ∧
      ¬ ∀ r : Ring, 1 ≤ r.count → Averages (ringAverage (some r)) r := by
  have hvalue : (ringAverage (some backwardRing) : Int) = 1431655764 := by decide
  refine ⟨hvalue, fun h => ?_⟩
  obtain ⟨v, hv, hle⟩ := (h backwardRing (by decide)).high
  have hall : ∀ v ∈ backwardRing.slots, (v : Int) = -1 := by decide
  rw [hvalue, hall v hv] at hle
  exact absurd hle (by decide)

end Rblpolicyd
