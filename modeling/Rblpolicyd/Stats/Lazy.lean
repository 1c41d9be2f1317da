import Mathlib.Data.Fintype.Basic
import Rblpolicyd.Semantics.Mutex
import Rblpolicyd.Semantics.Run
import Rblpolicyd.Stats.Times

/-!
# Concurrent calls of the functions that record durations

The worker and the solver function each test `init` without their mutex and zero
the ring under it when the test fails; the duration is recorded in a second
critical section. Any number of threads make calls here, and a run is any
interleaving of their steps. A call that stands between its failed test and its
zeroing will erase whatever is recorded before it gets there, and nothing else
erases anything.

## Main definitions

* `TimePc`, `TimeCall` — the points of a call, and a call that is under way
* `TimeThreads`, `TimeThreads.step` — the shared variables and one step
* `TimeThreads.RecordsAlone` — no call is about to zero the ring while one records

## Main results

* `TimeThreads.exists_run_time` — a call that is not interrupted is the sequential one
* `TimeThreads.Inv.step`, `TimeThreads.Kept.step` — what one step preserves
* `stats_nothing_erased` — when the ring counts all the calls, over all runs
-/

namespace Rblpolicyd

open Libc Data Semantics

/-- The points of a call, each in front of one step. -/
inductive TimePc
  | test
  | initLock
  | zero
  | initUnlock
  | setInit
  | lock
  | record
  | unlock
  deriving DecidableEq

namespace TimePc

/-- The points inside a critical section. -/
def holds : TimePc → Bool
  | .zero | .initUnlock | .record | .unlock => true
  | .test | .initLock | .setInit | .lock => false

/-- The test has failed, and the ring is still to be zeroed. -/
def zeroes : TimePc → Bool
  | .initLock | .zero => true
  | _ => false

/-- The points behind the test, if it succeeds, and behind the setting of `init`. -/
def initialised : TimePc → Bool
  | .lock | .record | .unlock => true
  | _ => false

/-- The point behind a step; `ok` is what the test of `init` finds, and `none` returns. -/
def next (ok : Bool) : TimePc → Option TimePc
  | .test => some (if ok then .lock else .initLock)
  | .initLock => some .zero
  | .zero => some .initUnlock
  | .initUnlock => some .setInit
  | .setInit => some .lock
  | .lock => some .record
  | .record => some .unlock
  | .unlock => none

end TimePc

/-- A call under way: where it is and what it is to record. -/
structure TimeCall where
  pc : TimePc
  value : CInt
  deriving DecidableEq

/-- The static variables of one function, the calls under way in `n` threads, and what was
done so far: the durations recorded, the number of calls that have returned, and whether
the ring was zeroed behind a record. -/
structure TimeThreads (n : ℕ) where
  recorder : Recorder
  mutex : Option (Fin n)
  calls : Fin n → Option TimeCall
  recorded : List CInt
  completed : ℕ
  erased : Bool

/-- A thread calls the function, or its call takes a step. -/
inductive TimeAction (n : ℕ)
  | call (t : Fin n) (start stop : Timeval)
  | step (t : Fin n)

namespace TimeThreads

variable {n : ℕ}

/-- No call was made yet. -/
def initial (n : ℕ) : TimeThreads n where
  recorder := .initial
  mutex := none
  calls := fun _ => none
  recorded := []
  completed := 0
  erased := false

/-- The call of a thread gets to a point. -/
def goto (s : TimeThreads n) (t : Fin n) (value : CInt) (pc : TimePc) : TimeThreads n :=
  { s with calls := Function.update s.calls t (some ⟨pc, value⟩) }

/-- The next step of a call, `none` while the mutex is locked. -/
def advance (s : TimeThreads n) (t : Fin n) (call : TimeCall) : Option (TimeThreads n) :=
  match call.pc with
  | .test => some (s.goto t call.value (if s.recorder.init then .lock else .initLock))
  | .initLock =>
    if s.mutex = none then some { s.goto t call.value .zero with mutex := some t } else none
  | .zero =>
    some { s.goto t call.value .initUnlock with
      recorder := { s.recorder with ring := .zero }
      erased := s.erased || !s.recorded.isEmpty }
  | .initUnlock => some { s.goto t call.value .setInit with mutex := none }
  | .setInit =>
    some { s.goto t call.value .lock with recorder := { s.recorder with init := true } }
  | .lock =>
    if s.mutex = none then some { s.goto t call.value .record with mutex := some t } else none
  | .record =>
    some { s.goto t call.value .unlock with
      recorder := { s.recorder with ring := s.recorder.ring.push call.value }
      recorded := s.recorded ++ [call.value] }
  | .unlock =>
    some { s with
      mutex := none
      calls := Function.update s.calls t none
      completed := s.completed + 1 }

/-- One step of the system. -/
def step (s : TimeThreads n) : TimeAction n → Option (TimeThreads n)
  | .call t start stop =>
    if s.calls t = none then some (s.goto t (duration start stop) .test) else none
  | .step t => (s.calls t).bind (s.advance t)

/-- What a step of a call that is at a point makes of the state. -/
inductive StepsTo (s : TimeThreads n) (t : Fin n) (value : CInt) : TimePc → TimeThreads n → Prop
  | test : StepsTo s t value .test
      (s.goto t value (if s.recorder.init then .lock else .initLock))
  | initLock (hfree : s.mutex = none) : StepsTo s t value .initLock
      { s.goto t value .zero with mutex := some t }
  | zero : StepsTo s t value .zero
      { s.goto t value .initUnlock with
        recorder := { s.recorder with ring := .zero }
        erased := s.erased || !s.recorded.isEmpty }
  | initUnlock : StepsTo s t value .initUnlock { s.goto t value .setInit with mutex := none }
  | setInit : StepsTo s t value .setInit
      { s.goto t value .lock with recorder := { s.recorder with init := true } }
  | lock (hfree : s.mutex = none) : StepsTo s t value .lock
      { s.goto t value .record with mutex := some t }
  | record : StepsTo s t value .record
      { s.goto t value .unlock with
        recorder := { s.recorder with ring := s.recorder.ring.push value }
        recorded := s.recorded ++ [value] }
  | unlock : StepsTo s t value .unlock
      { s with
        mutex := none
        calls := Function.update s.calls t none
        completed := s.completed + 1 }

variable {s s' : TimeThreads n} {t u : Fin n} {call : TimeCall} {value : CInt} {pc : TimePc}
  {a : TimeAction n}

theorem stepsTo_of_advance (h : s.advance t ⟨pc, value⟩ = some s') : s.StepsTo t value pc s' := by
  cases pc with
  | initLock =>
    obtain ⟨hfree, heq⟩ := Option.ite_none_right_eq_some.mp h
    obtain rfl := Option.some.inj heq
    exact .initLock hfree
  | lock =>
    obtain ⟨hfree, heq⟩ := Option.ite_none_right_eq_some.mp h
    obtain rfl := Option.some.inj heq
    exact .lock hfree
  | _ =>
    obtain rfl := Option.some.inj h
    constructor

/-- A step begins a call or advances one. -/
theorem step_cases (h : s.step a = some s') :
    (∃ t value, (∀ u, a ≠ .step u) ∧ s.calls t = none ∧ s' = s.goto t value .test) ∨
      ∃ t pc value, a = .step t ∧ s.calls t = some ⟨pc, value⟩ ∧ s.StepsTo t value pc s' := by
  cases a with
  | call t start stop =>
    obtain ⟨hnone, heq⟩ := Option.ite_none_right_eq_some.mp h
    obtain rfl := Option.some.inj heq
    exact Or.inl ⟨t, _, by simp, hnone, rfl⟩
  | step t =>
    obtain ⟨⟨pc, value⟩, hcall, hadvance⟩ := Option.bind_eq_some_iff.mp h
    exact Or.inr ⟨t, pc, value, rfl, hcall, stepsTo_of_advance hadvance⟩

/-! ### Where the calls are -/

/-- A call of a thread is at one of some points. -/
def At (s : TimeThreads n) (t : Fin n) (points : TimePc → Bool) : Prop :=
  (s.calls t).any (fun call => points call.pc) = true

instance (s : TimeThreads n) (t : Fin n) (points : TimePc → Bool) : Decidable (s.At t points) :=
  inferInstanceAs (Decidable (_ = true))

variable {points : TimePc → Bool}

theorem at_iff_of_call (h : s.calls t = some ⟨pc, value⟩) (points : TimePc → Bool) :
    s.At t points ↔ points pc = true := by
  rw [At, h, Option.any_some]

theorem not_at_of_none (h : s.calls t = none) : ¬ s.At t points := by
  rw [At, h]
  simp

theorem StepsTo.calls_self (h : s.StepsTo t value pc s') :
    s'.calls t = (pc.next s.recorder.init).map fun pc => ⟨pc, value⟩ := by
  cases h <;> exact Function.update_self ..

theorem StepsTo.at_self (h : s.StepsTo t value pc s') :
    s'.At t points ↔ (pc.next s.recorder.init).any points = true := by
  rw [At, h.calls_self, Option.any_map]

theorem StepsTo.calls_of_ne (h : s.StepsTo t value pc s') (hu : u ≠ t) :
    s'.calls u = s.calls u := by
  cases h <;> exact Function.update_of_ne hu ..

theorem StepsTo.at_of_ne (h : s.StepsTo t value pc s') (hu : u ≠ t) :
    s'.At u points ↔ s.At u points := by
  rw [At, At, h.calls_of_ne hu]

theorem at_goto_self : (s.goto t value pc).At t points ↔ points pc = true :=
  at_iff_of_call (Function.update_self ..) _

theorem at_goto_of_ne (hu : u ≠ t) : (s.goto t value pc).At u points ↔ s.At u points := by
  have hcalls : (s.goto t value pc).calls u = s.calls u := Function.update_of_ne hu ..
  rw [At, At, hcalls]

/-! ### Every run -/

/-- What holds in every state: the mutex is held by the call in a critical section, `init`
is set where it was found or made so, and a call that recorded and has not returned
stands in front of its unlock. -/
structure Inv (s : TimeThreads n) : Prop where
  guarded : Guarded s.mutex fun t => s.At t TimePc.holds
  initialised : ∀ t, s.At t TimePc.initialised → s.recorder.init = true
  returned : (∀ t, ¬ s.At t (· = .unlock)) → s.recorded.length = s.completed
  recording : ∀ t, s.At t (· = .unlock) → s.recorded.length = s.completed + 1

theorem initial_inv (n : ℕ) : (initial n).Inv where
  guarded t := by simp [initial, At]
  initialised t h := by simp [initial, At] at h
  returned _ := rfl
  recording t h := by simp [initial, At] at h

theorem Inv.goto_test (h : s.Inv) (hnone : s.calls t = none) : (s.goto t value .test).Inv := by
  have hsame : ∀ u (points : TimePc → Bool), points .test = false →
      ((s.goto t value .test).At u points ↔ s.At u points) := by
    intro u points htest
    by_cases hu : u = t
    · subst hu
      rw [at_goto_self, htest]
      exact iff_of_false (by simp) (not_at_of_none hnone)
    · exact at_goto_of_ne hu
  refine ⟨fun u => ?_, fun u hu => ?_, fun hall => ?_, fun u hu => ?_⟩
  · exact (h.guarded u).trans (hsame u TimePc.holds rfl).symm
  · exact h.initialised u ((hsame u _ rfl).mp hu)
  · exact h.returned fun u hu => hall u ((hsame u _ rfl).mpr hu)
  · exact h.recording u ((hsame u _ rfl).mp hu)

/-- A step locks a free mutex, unlocks its own, or stays inside or outside. -/
theorem StepsTo.lockStep (h : s.StepsTo t value pc s') (hcall : s.calls t = some ⟨pc, value⟩) :
    LockStep t s.mutex s'.mutex (s.At t TimePc.holds) (s'.At t TimePc.holds) := by
  rw [h.at_self, at_iff_of_call hcall _]
  cases h with
  | test =>
    refine .keep rfl ?_
    cases s.recorder.init <;> exact Iff.rfl
  | initLock hfree | lock hfree => exact .acquire hfree rfl rfl
  | initUnlock | unlock => exact .release rfl rfl (by simp [TimePc.next, TimePc.holds])
  | zero | setInit | record => exact .keep rfl Iff.rfl

theorem Inv.guarded_step (h : s.Inv) (hstep : s.StepsTo t value pc s')
    (hcall : s.calls t = some ⟨pc, value⟩) :
    Guarded s'.mutex fun u => s'.At u TimePc.holds :=
  h.guarded.step (hstep.lockStep hcall) fun _ hu => hstep.at_of_ne hu

theorem Inv.initialised_step (h : s.Inv) (hstep : s.StepsTo t value pc s')
    (hcall : s.calls t = some ⟨pc, value⟩) (hu : s'.At u TimePc.initialised) :
    s'.recorder.init = true := by
  -- `init` is never unset
  have hkeeps : s.recorder.init = true → s'.recorder.init = true := by
    intro hinit
    cases hstep with
    | setInit => rfl
    | _ => exact hinit
  by_cases hut : u = t
  · subst hut
    have hat := at_iff_of_call hcall TimePc.initialised
    rw [hstep.at_self] at hu
    cases hstep with
    | test =>
      by_cases hinit : s.recorder.init = true
      · exact hinit
      · rw [TimePc.next, if_neg hinit] at hu
        cases hu
    | setInit => rfl
    | lock | record => exact h.initialised _ (hat.mpr rfl)
    | initLock | zero | initUnlock | unlock => cases hu
  · exact hkeeps (h.initialised u ((hstep.at_of_ne hut).mp hu))

theorem exists_call_of_at (h : s.At t points) :
    ∃ pc value, s.calls t = some ⟨pc, value⟩ ∧ points pc = true := by
  obtain ⟨⟨pc, value⟩, hcall, hpoint⟩ := (Option.any_eq_true _ _).mp h
  exact ⟨pc, value, hcall, hpoint⟩

/-- A thread in a critical section is alone there. -/
theorem Inv.not_at_of_ne (h : s.Inv) (ht : s.At t TimePc.holds) (hu : u ≠ t)
    (hpoints : ∀ pc, points pc = true → pc.holds = true) : ¬ s.At u points := by
  intro hat
  have hholds : s.At u TimePc.holds := by
    obtain ⟨pc, value, hcall, hpoint⟩ := exists_call_of_at hat
    exact (at_iff_of_call hcall _).mpr (hpoints pc hpoint)
  exact hu (h.guarded.unique hholds ht)

/-- A record, a return, and every other step, in the number of calls that recorded and
have not returned. -/
theorem StepsTo.balance (h : s.StepsTo t value pc s') :
    (pc = .record ∧ s'.recorded = s.recorded ++ [value] ∧ s'.completed = s.completed) ∨
      (pc = .unlock ∧ s'.recorded = s.recorded ∧ s'.completed = s.completed + 1) ∨
      (pc ≠ .record ∧ pc ≠ .unlock ∧ s'.recorded = s.recorded ∧
        s'.completed = s.completed) := by
  cases h with
  | record => exact Or.inl ⟨rfl, rfl, rfl⟩
  | unlock => exact Or.inr (Or.inl ⟨rfl, rfl, rfl⟩)
  | _ => exact Or.inr (Or.inr ⟨by simp, by simp, rfl, rfl⟩)

theorem Inv.returned_step (h : s.Inv) (hstep : s.StepsTo t value pc s')
    (hcall : s.calls t = some ⟨pc, value⟩) (hall : ∀ u, ¬ s'.At u (· = .unlock)) :
    s'.recorded.length = s'.completed := by
  have hat := at_iff_of_call hcall (· = .unlock)
  rcases hstep.balance with
    ⟨rfl, hrecorded, hcompleted⟩ | ⟨rfl, hrecorded, hcompleted⟩ |
      ⟨-, hunlock, hrecorded, hcompleted⟩
  · exact absurd (hstep.at_self.mpr rfl) (hall t)
  · rw [hrecorded, hcompleted]
    exact h.recording t (hat.mpr rfl)
  · rw [hrecorded, hcompleted]
    apply h.returned
    intro u hu
    by_cases hut : u = t
    · subst hut
      exact hunlock (of_decide_eq_true (hat.mp hu))
    · exact hall u ((hstep.at_of_ne hut).mpr hu)

theorem Inv.recording_step (h : s.Inv) (hstep : s.StepsTo t value pc s')
    (hcall : s.calls t = some ⟨pc, value⟩) (hu : s'.At u (· = .unlock)) :
    s'.recorded.length = s'.completed + 1 := by
  have hat := at_iff_of_call hcall (· = .unlock)
  have hholds := at_iff_of_call hcall TimePc.holds
  have halone : pc.holds = true → ∀ v, v ≠ t → ¬ s.At v (· = .unlock) := by
    intro hpc v hv
    apply h.not_at_of_ne (hholds.mpr hpc) hv
    intro pc' hpc'
    obtain rfl := of_decide_eq_true hpc'
    rfl
  rcases hstep.balance with
    ⟨rfl, hrecorded, hcompleted⟩ | ⟨rfl, hrecorded, hcompleted⟩ |
      ⟨hrecord, -, hrecorded, hcompleted⟩
  · have hreturned : s.recorded.length = s.completed := by
      apply h.returned
      intro v hv
      by_cases hvt : v = t
      · subst hvt
        exact absurd (hat.mp hv) (by simp)
      · exact halone rfl v hvt hv
    rw [hrecorded, hcompleted, List.length_append, hreturned, List.length_singleton]
  · by_cases hut : u = t
    · subst hut
      exact absurd (hstep.at_self.mp hu) (by simp [TimePc.next])
    · exact absurd ((hstep.at_of_ne hut).mp hu) (halone rfl u hut)
  · rw [hrecorded, hcompleted]
    by_cases hut : u = t
    · subst hut
      -- only a record leads in front of the unlock
      have hnext := hstep.at_self.mp hu
      cases hstep with
      | test =>
        rw [TimePc.next] at hnext
        split_ifs at hnext <;> cases hnext
      | record => exact absurd rfl hrecord
      | _ => cases hnext
    · exact h.recording u ((hstep.at_of_ne hut).mp hu)

theorem Inv.step (h : s.Inv) (hstep : s.step a = some s') : s'.Inv := by
  rcases step_cases hstep with ⟨t, value, -, hnone, rfl⟩ | ⟨t, pc, value, -, hcall, hto⟩
  · exact h.goto_test hnone
  · exact
      { guarded := h.guarded_step hto hcall
        initialised := fun u hu => h.initialised_step hto hcall hu
        returned := fun hall => h.returned_step hto hcall hall
        recording := fun u hu => h.recording_step hto hcall hu }

theorem inv_of_run {ok : TimeThreads n → TimeAction n → Prop} {w : List (TimeAction n)}
    (hrun : Run step ok (initial n) w s) : s.Inv :=
  hrun.invariant (initial_inv n) fun _ _ _ h _ hstep => h.step hstep

/-! ### Runs in which nothing is erased -/

/-- A call that records does so while no call is about to zero the ring. -/
def RecordsAlone (s : TimeThreads n) : TimeAction n → Prop
  | .call _ _ _ => True
  | .step t => s.At t (· = .record) → ∀ u, ¬ s.At u TimePc.zeroes

instance (s : TimeThreads n) (a : TimeAction n) : Decidable (s.RecordsAlone a) :=
  match a with
  | .call _ _ _ => inferInstanceAs (Decidable True)
  | .step t => inferInstanceAs (Decidable (s.At t (· = .record) → ∀ u, ¬ s.At u TimePc.zeroes))

/-- The ring is that of the recorded durations, and once there is one the ring will not be
zeroed any more. -/
structure Kept (s : TimeThreads n) : Prop where
  erased : s.erased = false
  ring : s.recorder.ring = s.recorded.foldl RingBuffer.push Ring.zero
  settled : s.recorded ≠ [] →
    s.recorder.init = true ∧ ∀ u, ¬ s.At u TimePc.zeroes

theorem initial_kept (n : ℕ) : (initial n).Kept :=
  ⟨rfl, rfl, fun h => absurd rfl h⟩

/-- Nothing was recorded while a call is to zero the ring. -/
theorem Kept.recorded_eq_nil (h : s.Kept) (hat : s.At t TimePc.zeroes) : s.recorded = [] := by
  by_contra hne
  exact (h.settled hne).2 t hat

theorem Kept.goto_test (h : s.Kept) (hnone : s.calls t = none) : (s.goto t value .test).Kept := by
  refine ⟨h.erased, h.ring, fun hne => ⟨(h.settled hne).1, fun u hu => ?_⟩⟩
  by_cases hut : u = t
  · subst hut
    exact absurd (at_goto_self.mp hu) (by simp [TimePc.zeroes])
  · exact (h.settled hne).2 u ((at_goto_of_ne hut).mp hu)

/-- With `init` set and no call about to zero the ring, none will be. -/
theorem StepsTo.settled (h : s.StepsTo t value pc s') (hcall : s.calls t = some ⟨pc, value⟩)
    (hinit : s.recorder.init = true) (hnone : ∀ u, ¬ s.At u TimePc.zeroes) :
    s'.recorder.init = true ∧ ∀ u, ¬ s'.At u TimePc.zeroes := by
  have hpc := mt (at_iff_of_call hcall TimePc.zeroes).mpr (hnone t)
  refine ⟨?_, fun u hu => ?_⟩
  · cases h with
    | setInit => rfl
    | _ => exact hinit
  · by_cases hut : u = t
    · subst hut
      rw [h.at_self, hinit] at hu
      cases pc with
      | initLock | zero => exact hpc rfl
      | _ => cases hu
    · exact hnone u ((h.at_of_ne hut).mp hu)

theorem Kept.advance (h : s.Kept) (hinv : s.Inv) (hok : s.RecordsAlone (.step t))
    (hstep : s.StepsTo t value pc s') (hcall : s.calls t = some ⟨pc, value⟩) : s'.Kept := by
  have hsettled : s'.recorded ≠ [] →
      s'.recorder.init = true ∧ ∀ u, ¬ s'.At u TimePc.zeroes := by
    intro hne
    by_cases hrecord : pc = .record
    · -- the first record finds no call about to zero the ring, and `init` set
      subst hrecord
      have hinit := hinv.initialised t ((at_iff_of_call hcall _).mpr rfl)
      exact hstep.settled hcall hinit (hok ((at_iff_of_call hcall _).mpr rfl))
    · have hsame : s'.recorded = s.recorded := by
        rcases hstep.balance with ⟨hpc, -⟩ | ⟨-, hsame, -⟩ | ⟨-, -, hsame, -⟩
        · exact absurd hpc hrecord
        · exact hsame
        · exact hsame
      obtain ⟨hinit, hnone⟩ := h.settled (hsame ▸ hne)
      exact hstep.settled hcall hinit hnone
  cases hstep with
  | zero =>
    have hnil := h.recorded_eq_nil ((at_iff_of_call hcall _).mpr rfl)
    refine ⟨?_, ?_, hsettled⟩
    · simp [h.erased, hnil]
    · change Ring.zero = s.recorded.foldl RingBuffer.push Ring.zero
      rw [hnil, List.foldl_nil]
  | record =>
    refine ⟨h.erased, ?_, hsettled⟩
    change s.recorder.ring.push value = (s.recorded ++ [value]).foldl RingBuffer.push Ring.zero
    rw [List.foldl_append, ← h.ring, List.foldl_cons, List.foldl_nil]
  | _ => exact ⟨h.erased, h.ring, hsettled⟩

theorem Kept.step (h : s.Kept) (hinv : s.Inv) (hok : s.RecordsAlone a)
    (hstep : s.step a = some s') : s'.Kept := by
  rcases step_cases hstep with ⟨t, value, -, hnone, rfl⟩ | ⟨t, pc, value, rfl, hcall, hto⟩
  · exact h.goto_test hnone
  · exact h.advance hinv hok hto hcall

theorem kept_of_run {w : List (TimeAction n)}
    (hrun : Run TimeThreads.step RecordsAlone (initial n) w s) : s.Kept := by
  have hboth : s.Inv ∧ s.Kept := by
    refine hrun.invariant (P := fun s => s.Inv ∧ s.Kept) ⟨initial_inv n, initial_kept n⟩ ?_
    intro t a u h hok hstep
    exact ⟨h.1.step hstep, h.2.step h.1 hok hstep⟩
  exact hboth.2

/-- What the ring counts as long as nothing was erased. -/
theorem Kept.counts (h : s.Kept) :
    s.recorder.ring.count = min s.recorded.length RINGBUFFERS ∧
      s.recorder.ring.window = s.recorded.rtake RINGBUFFERS := by
  rw [h.ring]
  refine ⟨?_, (RingBuffer.blank_aligned _ _).window_foldl_push _⟩
  rw [RingBuffer.count_foldl_push]
  exact congrArg (min · RINGBUFFERS) (Nat.zero_add _)

/-! ### Runs that erase -/

theorem step_of_call (h : s.calls t = some ⟨pc, value⟩) :
    s.step (.step t) = s.advance t ⟨pc, value⟩ := by
  rw [step, h]
  rfl

theorem exists_step_unlock (hcall : s.calls t = some ⟨.unlock, value⟩) :
    ∃ s', s.step (.step t) = some s' ∧ s'.mutex = none ∧ s'.recorded = s.recorded ∧
      ∀ u, u ≠ t → s'.calls u = s.calls u :=
  ⟨_, step_of_call hcall, rfl, rfl, fun _ hu => Function.update_of_ne hu ..⟩

theorem exists_step_zero (hcall : s.calls u = some ⟨.zero, value⟩) (hne : s.recorded ≠ []) :
    ∃ s', s.step (.step u) = some s' ∧ s'.erased = true := by
  refine ⟨_, step_of_call hcall, ?_⟩
  simp [hne]

/-- A call whose test failed goes on to zero the ring, whatever was recorded since. -/
theorem exists_run_erased (hcall : s.calls u = some ⟨.initLock, value⟩) (hfree : s.mutex = none)
    (hne : s.recorded ≠ []) :
    ∃ w s', Run step (fun _ _ => True) s w s' ∧ s'.erased = true := by
  have hlock : s.step (.step u) = some { s.goto u value .zero with mutex := some u } := by
    rw [step_of_call hcall, advance]
    exact if_pos hfree
  have hcall' : ({ s.goto u value .zero with mutex := some u } : TimeThreads n).calls u =
      some ⟨.zero, value⟩ := Function.update_self ..
  obtain ⟨s', hzero, herased⟩ := exists_step_zero hcall' hne
  exact ⟨_, s', .cons trivial hlock (.cons trivial hzero .nil), herased⟩

/-- A record in front of a call that is about to zero the ring gets lost. -/
theorem Inv.exists_run_erased (h : s.Inv) (hstep : s.step (.step t) = some s')
    (hbreaks : ¬ s.RecordsAlone (.step t)) :
    ∃ w s'', Run TimeThreads.step (fun _ _ => True) s' w s'' ∧ s''.erased = true := by
  obtain ⟨hrecord, hexists⟩ := Classical.not_imp.mp hbreaks
  obtain ⟨u, hu⟩ := not_forall_not.mp hexists
  obtain ⟨pc, value, hcall, hpc⟩ := exists_call_of_at hrecord
  obtain rfl := of_decide_eq_true hpc
  obtain ⟨pc, value', hcall', hpc'⟩ := exists_call_of_at hu
  have hut : u ≠ t := by
    rintro rfl
    obtain ⟨rfl, -⟩ := TimeCall.mk.inj (Option.some.inj (hcall.symm.trans hcall'))
    cases hpc'
  -- the thread that records has the mutex, so the other one waits for it
  have hwaits : pc = .initLock := by
    have hout : ¬ s.At u (· = .zero) := by
      apply h.not_at_of_ne ((at_iff_of_call hcall _).mpr rfl) hut
      intro pc' hpc''
      obtain rfl := of_decide_eq_true hpc''
      rfl
    cases pc with
    | initLock => rfl
    | zero => exact absurd ((at_iff_of_call hcall' _).mpr rfl) hout
    | _ => cases hpc'
  subst hwaits
  rw [step_of_call hcall] at hstep
  have hto := stepsTo_of_advance hstep
  have hne : s'.recorded ≠ [] := by
    obtain rfl := Option.some.inj hstep
    simp
  obtain ⟨s₁, hunlock, hfree, hrecorded, hcalls⟩ := exists_step_unlock hto.calls_self
  have hwaiting : s₁.calls u = some ⟨.initLock, value'⟩ := by
    rw [hcalls u hut, hto.calls_of_ne hut, hcall']
  obtain ⟨w, s'', hrun, herased⟩ :=
    TimeThreads.exists_run_erased hwaiting hfree (hrecorded ▸ hne)
  exact ⟨_, s'', .cons trivial hunlock hrun, herased⟩

/-! ### A call that is not interrupted -/

theorem run_cons (hcall : s.calls t = some ⟨pc, value⟩)
    (hadvance : s.advance t ⟨pc, value⟩ = some s')
    {w : List (TimeAction n)} {s'' : TimeThreads n} (hrun : Run step (fun _ _ => True) s' w s'') :
    Run step (fun _ _ => True) s (.step t :: w) s'' := by
  rw [← step_of_call hcall] at hadvance
  exact .cons trivial hadvance hrun

/-- The second critical section. -/
theorem exists_run_record (hcall : s.calls t = some ⟨.lock, value⟩) (hfree : s.mutex = none) :
    ∃ w, Run step (fun _ _ => True) s w
      { s with
        recorder := { s.recorder with ring := s.recorder.ring.push value }
        calls := Function.update s.calls t none
        recorded := s.recorded ++ [value]
        completed := s.completed + 1 } := by
  refine ⟨[.step t, .step t, .step t], ?_⟩
  apply run_cons hcall (if_pos hfree)
  apply run_cons (Function.update_self ..) rfl
  apply run_cons (Function.update_self ..) rfl
  simp only [goto, Function.update_idem, hfree]
  exact .nil

/-- The first one, and the setting of `init`. -/
theorem exists_run_init (hcall : s.calls t = some ⟨.initLock, value⟩) (hfree : s.mutex = none) :
    ∃ w s', Run step (fun _ _ => True) s w s' ∧
      s'.calls = Function.update s.calls t (some ⟨.lock, value⟩) ∧ s'.mutex = none ∧
      s'.recorder = ⟨true, .zero⟩ ∧ s'.recorded = s.recorded ∧ s'.completed = s.completed := by
  refine ⟨_, _, run_cons hcall (if_pos hfree) (run_cons (Function.update_self ..) rfl
    (run_cons (Function.update_self ..) rfl (run_cons (Function.update_self ..) rfl .nil))), ?_⟩
  refine ⟨?_, rfl, rfl, rfl, rfl⟩
  simp only [goto, Function.update_idem]

/-- Without another call in a critical section a call does what the sequential function
does, and returns. -/
theorem exists_run_time (hnone : s.calls t = none) (hfree : s.mutex = none)
    (start stop : Timeval) :
    ∃ w s', Run step (fun _ _ => True) s w s' ∧
      s'.recorder = s.recorder.time start stop ∧ s'.mutex = none ∧ s'.calls = s.calls ∧
      s'.recorded = s.recorded ++ [duration start stop] ∧ s'.completed = s.completed + 1 := by
  have hbegin : s.step (.call t start stop) = some (s.goto t (duration start stop) .test) :=
    if_pos hnone
  have hcalls : Function.update s.calls t none = s.calls := by
    rw [← hnone, Function.update_eq_self]
  by_cases hinit : s.recorder.init = true
  · have htest : (s.goto t (duration start stop) .test).advance t ⟨.test, duration start stop⟩ =
        some (s.goto t (duration start stop) .lock) := by
      simp [advance, goto, hinit]
    obtain ⟨w, hrun⟩ := exists_run_record (s := s.goto t (duration start stop) .lock)
      (Function.update_self ..) hfree
    refine ⟨_, _, .cons trivial hbegin (run_cons (Function.update_self ..) htest hrun), ?_⟩
    refine ⟨?_, hfree, ?_, rfl, rfl⟩
    · simp [Recorder.time, Recorder.prepared, goto, hinit]
    · simp [goto, hcalls]
  · have htest : (s.goto t (duration start stop) .test).advance t ⟨.test, duration start stop⟩ =
        some (s.goto t (duration start stop) .initLock) := by
      simp [advance, goto, hinit]
    obtain ⟨w, s₁, hrun, hcalls₁, hfree₁, hrecorder, hrecorded, hcompleted⟩ :=
      exists_run_init (s := s.goto t (duration start stop) .initLock)
        (Function.update_self ..) hfree
    have hlock : s₁.calls t = some ⟨.lock, duration start stop⟩ := by
      rw [hcalls₁, Function.update_self]
    obtain ⟨w', hrun'⟩ := exists_run_record hlock hfree₁
    refine ⟨_, _, .cons trivial hbegin (run_cons (Function.update_self ..) htest
      (hrun.append hrun')), ?_⟩
    refine ⟨?_, hfree₁, ?_, ?_, ?_⟩
    · simp [Recorder.time, Recorder.prepared, hrecorder, hinit]
    · simp [goto, hcalls₁, hcalls]
    · rw [hrecorded]
      rfl
    · rw [hcompleted]
      rfl

end TimeThreads

/-- In every run of any number of calls in which each call that records does so while no
other stands between its failed test and its zeroing, the ring is never zeroed behind a
record: it counts the calls that recorded, which are those that returned and the one in
front of its unlock, and holds the latest of their durations. Any other record can get
lost. -/
theorem stats_nothing_erased (n : ℕ) :
    (∀ w s, Run TimeThreads.step TimeThreads.RecordsAlone (.initial n) w s →
      s.erased = false ∧
        s.recorder.ring.count = min s.recorded.length RINGBUFFERS ∧
        s.recorder.ring.window = s.recorded.rtake RINGBUFFERS ∧
        ((∀ t, ¬ s.At t (· = .unlock)) →
          s.recorder.ring.count = min s.completed RINGBUFFERS)) ∧
    ∀ w s t s', Run TimeThreads.step (fun _ _ => True) (.initial n) w s →
      s.step (.step t) = some s' → ¬ s.RecordsAlone (.step t) →
        ∃ w' s'', Run TimeThreads.step (fun _ _ => True) s' w' s'' ∧ s''.erased = true := by
  refine ⟨fun w s hrun => ?_, fun w s t s' hrun hstep hbreaks => ?_⟩
  · have hinv := TimeThreads.inv_of_run hrun
    have hkept := TimeThreads.kept_of_run hrun
    obtain ⟨hcount, hwindow⟩ := hkept.counts
    refine ⟨hkept.erased, hcount, hwindow, fun hall => ?_⟩
    rw [hcount, hinv.returned hall]
  · exact (TimeThreads.inv_of_run hrun).exists_run_erased hstep hbreaks

/-- Two threads whose first calls overlap: both find `init` unset, and the second one zeroes
the ring when the first has returned. -/
def overlappingCalls : List (TimeAction 2) :=
  [.call 0 beforeSecond beforeSecond, .call 1 beforeSecond beforeSecond, .step 0, .step 1,
    .step 0, .step 0, .step 0, .step 0, .step 0, .step 0, .step 0,
    .step 1, .step 1, .step 1, .step 1, .step 1, .step 1, .step 1]

/-- Both calls return, and the ring counts one of them. -/
theorem stats_overlapping_calls_erase :
    ∃ s, Run TimeThreads.step (fun _ _ => True) (.initial 2) overlappingCalls s ∧
      s.erased = true ∧ (∀ t, s.calls t = none) ∧ s.completed = 2 ∧ s.recorder.ring.count = 1 :=
  exists_run_of_exec (by decide)

end Rblpolicyd
