import Mathlib.Order.Nat

/-!
# A counter and its copies

A counter goes up and down, and somebody who reports on it reads it from time to time.
From the values that were read come two copies: the one that was read last, and the
largest. This module keeps a history of the counter, and says in its terms when the
copies are right.

## Main definitions

* `Gauge` — the history of the counter
* `Gauge.change`, `Gauge.read` — the counter changes, or is read
* `Gauge.Shows` — what the copies have to do with the counter

## Main results

* `Gauge.Shows.change`, `Gauge.Shows.read` — this holds along every history
* `Gauge.Shows.now_eq_iff`, `Gauge.Shows.largest_eq_iff` — when the copies are right
-/

namespace Semantics

/-- The history of a counter: the largest value it has had, how far it has gone up and down
since it was read last, and whether it was read while it had its largest value. -/
structure Gauge where
  peak : ℕ
  entered : ℕ
  left : ℕ
  seen : Bool
  deriving DecidableEq

namespace Gauge

/-- A counter at zero, and a reader who knows. -/
def init : Gauge := ⟨0, 0, 0, true⟩

/-- The counter changes. -/
def change (g : Gauge) (before after : ℕ) : Gauge where
  peak := max g.peak after
  entered := g.entered + (after - before)
  left := g.left + (before - after)
  seen := g.seen && decide (after ≤ g.peak)

/-- The counter is read. -/
def read (g : Gauge) (count : ℕ) : Gauge :=
  { g with entered := 0, left := 0, seen := g.seen || decide (count = g.peak) }

/-- The copies of a counter with this history: the value that was read last, and the largest
of those that were read. -/
structure Shows (g : Gauge) (count now largest : ℕ) : Prop where
  balance : now + g.entered = count + g.left
  count_le : count ≤ g.peak
  largest_le : largest ≤ g.peak
  seen_iff : g.seen = true ↔ largest = g.peak

variable {g : Gauge} {count before after now largest : ℕ}

theorem shows_init : Shows init 0 0 0 := ⟨rfl, le_rfl, le_rfl, by simp [init]⟩

@[simp] theorem change_peak : (g.change before after).peak = max g.peak after := rfl

@[simp] theorem change_entered : (g.change before after).entered = g.entered + (after - before) :=
  rfl

@[simp] theorem change_seen :
    (g.change before after).seen = true ↔ g.seen = true ∧ after ≤ g.peak := by
  simp [change]

@[simp] theorem read_entered : (g.read count).entered = 0 := rfl

@[simp] theorem read_seen : (g.read count).seen = true ↔ g.seen = true ∨ count = g.peak := by
  simp [read]

/-- A counter that goes down has not gone up. -/
theorem change_entered_of_le (hle : after ≤ before) :
    (g.change before after).entered = g.entered := by
  rw [change_entered, Nat.sub_eq_zero_of_le hle, Nat.add_zero]

/-- A counter that goes down does not get past its largest value. -/
theorem Shows.change_seen_of_le (h : Shows g before now largest) (hle : after ≤ before) :
    (g.change before after).seen = true ↔ g.seen = true := by
  rw [change_seen]
  exact and_iff_left (hle.trans h.count_le)

/-- The change of a counter leaves the copies as they are. -/
theorem Shows.change (h : Shows g before now largest) (after : ℕ) :
    Shows (g.change before after) after now largest := by
  obtain ⟨hbalance, hcount, hlargest, hseen⟩ := h
  constructor
  · simp only [Gauge.change]
    omega
  · exact le_max_right _ _
  · exact hlargest.trans (le_max_left _ _)
  · -- the reader has missed a new largest value, as the old one bounds the copies
    rw [change_seen, hseen, change_peak]
    omega

/-- Who reads the counter takes the value over into the copies. -/
theorem Shows.read (h : Shows g count now largest) :
    Shows (g.read count) count count (max largest count) := by
  obtain ⟨-, hcount, hlargest, hseen⟩ := h
  constructor
  · rfl
  · exact hcount
  · exact max_le hlargest hcount
  · rw [read_seen, hseen]
    change _ ↔ max largest count = g.peak
    omega

/-- Unless the counter has gone up unread, the last value is the present one as long as the
counter has not gone down. -/
theorem Shows.now_eq_iff (h : Shows g count now largest) (hread : g.entered = 0) :
    now = count ↔ g.left = 0 := by
  have hbalance := h.balance
  omega

theorem Shows.largest_eq_iff (h : Shows g count now largest) :
    largest = g.peak ↔ g.seen = true :=
  h.seen_iff.symm

end Gauge

end Semantics
