import Rblpolicyd.Stats.Average
import Rblpolicyd.Stats.Duration

/-!
# The functions that record durations

`stats_worker_time` and `stats_solver_time` hold the same code over their own
static variables: a flag, which the first call finds unset, and a ring, which
that call zeroes. A call puts one duration into the ring. Calls that are made one
after the other leave the durations of the latest sixteen of them in the slots
that `ring_average` adds up.

## Main definitions

* `Recorder`, `Recorder.time` — the static variables of one function, and a call
* `Stats`, `statsWorkerTime`, `statsSolverTime` — both functions
* `StatsCall`, `Stats.run` — sequences of calls, and the durations of one clock

## Main results

* `statsTime_measured_iff` — when the recorded number is the elapsed time
* `statsTime_latest` — what the ring holds after any sequence of calls
-/

namespace Rblpolicyd

open Libc Data

/-- A ring behind `memset`. -/
def Ring.zero : Ring := RingBuffer.blank (narrow 0) (Nat.succ_pos _)

/-- The static variables of one of the functions: its `init` and the ring it writes. -/
structure Recorder where
  init : Bool
  ring : Ring

namespace Recorder

/-- Static variables start with zeros. -/
def initial : Recorder := ⟨false, Ring.zero⟩

/-- The ring a call records into: the first call zeroes it. -/
def prepared (r : Recorder) : Ring := if r.init then r.ring else Ring.zero

/-- A call of the function. -/
def time (r : Recorder) (start stop : Timeval) : Recorder where
  init := true
  ring := r.prepared.push (duration start stop)

/-- The slot that a call writes. -/
def slot (r : Recorder) : ℕ := r.prepared.index

theorem time_val (r : Recorder) (start stop : Timeval) :
    (r.time start stop).ring.val[r.slot]? = some (duration start stop) := by
  have hlt : r.prepared.index < r.prepared.val.length := by
    rw [r.prepared.length_val]
    exact r.prepared.index_lt
  exact List.getElem?_set_self hlt

end Recorder

/-- The two functions. -/
inductive Clock
  | worker
  | solver
  deriving DecidableEq

/-- The static variables of both functions. -/
structure Stats where
  worker : Recorder
  solver : Recorder

/-- The variables of one function. -/
def Stats.recorder (s : Stats) : Clock → Recorder
  | .worker => s.worker
  | .solver => s.solver

/-- Nothing was recorded yet. -/
def Stats.initial : Stats := ⟨.initial, .initial⟩

/-- `stats_worker_time`. -/
def statsWorkerTime (s : Stats) (start stop : Timeval) : Stats :=
  { s with worker := s.worker.time start stop }

/-- `stats_solver_time`. -/
def statsSolverTime (s : Stats) (start stop : Timeval) : Stats :=
  { s with solver := s.solver.time start stop }

/-- Either function. -/
def statsTime : Clock → Stats → Timeval → Timeval → Stats
  | .worker => statsWorkerTime
  | .solver => statsSolverTime

variable {s : Stats} {clock other : Clock} {start stop : Timeval}

theorem recorder_statsTime (s : Stats) (clock : Clock) (start stop : Timeval) :
    (statsTime clock s start stop).recorder clock = (s.recorder clock).time start stop := by
  cases clock <;> rfl

theorem recorder_statsTime_of_ne (h : other ≠ clock) (s : Stats) (start stop : Timeval) :
    (statsTime other s start stop).recorder clock = s.recorder clock := by
  cases clock <;> cases other <;> first | rfl | exact absurd rfl h

/-! ### One call -/

/-- The number a call puts into its ring. -/
def recorded (clock : Clock) (s : Stats) (start stop : Timeval) : Option CInt :=
  ((statsTime clock s start stop).recorder clock).ring.val[(s.recorder clock).slot]?

theorem recorded_eq (clock : Clock) (s : Stats) (start stop : Timeval) :
    recorded clock s start stop = some (duration start stop) := by
  rw [recorded, recorder_statsTime]
  exact (s.recorder clock).time_val start stop

/-- What a recorded number says of the time: it is less than a millisecond off, it is not
negative, and no earlier end is recorded as a larger number. -/
structure Measured (clock : Clock) (s : Stats) (start stop : Timeval) (d : CInt) : Prop where
  accurate : |1000 * (d : Int) - elapsed start stop| < 1000
  nonneg : 0 ≤ (d : Int)
  mono : ∀ mid, 0 ≤ elapsed start mid → mid.micros ≤ stop.micros →
    ∀ d', recorded clock s start mid = some d' → (d' : Int) ≤ d

/-- For times in order and less than `2 ^ 31` milliseconds apart: the number that the call
records measures the elapsed time exactly when both times lie in the same second. -/
theorem statsTime_measured_iff (clock : Clock) (s : Stats) (start stop : Timeval)
    (hle : 0 ≤ elapsed start stop) (hshort : elapsed start stop < 2 ^ 31 * 1000) :
    (∃ d, recorded clock s start stop = some d ∧ Measured clock s start stop d) ↔
      start.tv_sec = stop.tv_sec := by
  constructor
  · rintro ⟨d, hd, hmeasured⟩
    rw [recorded_eq, Option.some.injEq] at hd
    subst hd
    exact (duration_accurate_iff hle hshort).mp hmeasured.accurate
  · intro hsame
    refine ⟨duration start stop, recorded_eq .., ?_⟩
    refine ⟨(duration_accurate_iff hle hshort).mpr hsame, duration_nonneg hle hsame, ?_⟩
    intro mid hmid hmid' d' hd'
    rw [recorded_eq, Option.some.injEq] at hd'
    subst hd'
    exact duration_mono hmid hmid' hsame

/-- A request that is answered a microsecond after it came in, at the turn of a second. -/
def beforeSecond : Timeval := ⟨0, 999999, by decide⟩

/-- The time of its answer. -/
def atSecond : Timeval := ⟨1, 0, by decide⟩

/-- Seven and a half milliseconds within one second are recorded as seven. -/
theorem statsTime_measured_withinSecond :
    duration ⟨0, 992400, by decide⟩ beforeSecond = narrow 7 ∧
      ∃ d, recorded .worker .initial ⟨0, 992400, by decide⟩ beforeSecond = some d ∧
        Measured .worker .initial ⟨0, 992400, by decide⟩ beforeSecond d :=
  ⟨by decide, (statsTime_measured_iff .worker .initial ⟨0, 992400, by decide⟩ beforeSecond
    (by decide) (by decide)).mpr rfl⟩

/-- The second that begins is counted as a millisecond: one microsecond is recorded as a
negative number of milliseconds, and ten seconds as ten of them. -/
theorem statsTime_across_second :
    duration beforeSecond atSecond = narrow (-998) ∧
      duration ⟨0, 0, by decide⟩ ⟨10, 0, by decide⟩ = narrow 10 ∧
      ¬ ∀ clock s start stop, 0 ≤ elapsed start stop → elapsed start stop < 2 ^ 31 * 1000 →
        ∃ d, recorded clock s start stop = some d ∧ Measured clock s start stop d := by
  refine ⟨by decide, by decide, fun h => ?_⟩
  obtain ⟨d, hd, hmeasured⟩ := h .worker .initial beforeSecond atSecond (by decide) (by decide)
  rw [recorded_eq, Option.some.injEq] at hd
  subst hd
  exact absurd hmeasured.nonneg (by decide)

/-! ### Sequences of calls -/

/-- A call of one of the functions. -/
structure StatsCall where
  clock : Clock
  start : Timeval
  stop : Timeval

/-- Calls that are made one after the other. -/
def Stats.run (s : Stats) (calls : List StatsCall) : Stats :=
  calls.foldl (fun s call => statsTime call.clock s call.start call.stop) s

/-- What one of the functions records. -/
def durations (clock : Clock) (calls : List StatsCall) : List CInt :=
  (calls.filter fun call => call.clock = clock).map fun call => duration call.start call.stop

/-- The ring need not be zeroed any more, or it holds zeros. -/
def Recorder.Settled (r : Recorder) : Prop := r.prepared = r.ring

theorem Recorder.time_settled (r : Recorder) (start stop : Timeval) :
    (r.time start stop).Settled := rfl

/-- The calls of one function push its durations, and no others. -/
theorem ring_run (calls : List StatsCall) (hsettled : (s.recorder clock).Settled) :
    ((s.run calls).recorder clock).ring =
      (durations clock calls).foldl RingBuffer.push (s.recorder clock).ring := by
  induction calls generalizing s with
  | nil => rfl
  | cons call calls ih =>
    by_cases hclock : call.clock = clock
    · obtain rfl := hclock
      have htime := recorder_statsTime s call.clock call.start call.stop
      have hring : ((statsTime call.clock s call.start call.stop).recorder call.clock).ring =
          (s.recorder call.clock).ring.push (duration call.start call.stop) := by
        rw [htime, Recorder.time, hsettled]
      rw [Stats.run, List.foldl_cons, ← Stats.run, ih (htime ▸ Recorder.time_settled _ _ _), hring,
        durations, durations, List.filter_cons_of_pos (by simp)]
      rfl
    · have htime := recorder_statsTime_of_ne hclock s call.start call.stop
      rw [Stats.run, List.foldl_cons, ← Stats.run, ih (by rwa [htime]), htime, durations,
        durations, List.filter_cons_of_neg (by simpa using hclock)]

/-- After any calls of both functions, made one after the other, the ring of each has
counted its calls up to sixteen, its position is their number modulo sixteen, and the
slots in use, read from there on, are the durations of the latest of them. -/
theorem statsTime_latest (calls : List StatsCall) (clock : Clock) :
    ((Stats.initial.run calls).recorder clock).ring.count =
        min (durations clock calls).length RINGBUFFERS ∧
      ((Stats.initial.run calls).recorder clock).ring.index =
        (durations clock calls).length % RINGBUFFERS ∧
      ((Stats.initial.run calls).recorder clock).ring.slots.rotate
          ((Stats.initial.run calls).recorder clock).ring.index =
        (durations clock calls).rtake RINGBUFFERS := by
  have hzero : (Stats.initial.recorder clock).ring = Ring.zero := by cases clock <;> rfl
  have hsettled : (Stats.initial.recorder clock).Settled := by cases clock <;> rfl
  rw [ring_run calls hsettled, hzero]
  refine ⟨?_, ?_, ?_⟩
  · rw [RingBuffer.count_foldl_push]
    exact congrArg (min · RINGBUFFERS) (Nat.zero_add _)
  · rw [RingBuffer.index_foldl_push]
    exact congrArg (· % RINGBUFFERS) (Nat.zero_add _)
  · exact (RingBuffer.blank_aligned _ _).window_foldl_push _

end Rblpolicyd
