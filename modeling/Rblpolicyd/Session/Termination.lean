import Rblpolicyd.Session.Transitions

/-!
# A session comes to its end

The worker looks at each blacklist once when it starts the solvers, and once when it
tallies their scores; a solver makes no loop at all. A broadcast sends a sleeping worker
back to its test, but each solver broadcasts only once. So every step of a thread brings
the session nearer to its end, whatever the calls that are made return; only a wake-up
without a broadcast does not.

## Main definitions

* `SolverPc.remaining`, `WorkerPc.remaining` — the steps that are left to a thread
* `Session.remaining` — a bound on the steps that are left to all threads of a session

## Main results

* `Session.WorkerStep.remaining_lt`, `Session.SolverStep.remaining_lt` — every step takes
  from it
-/

namespace Rblpolicyd

open Libc

/-- The steps that are left to a call of `stats_worker_time` or `stats_solver_time`. -/
def StatsPc.remaining : StatsPc → Nat
  | .test => 5
  | .initLock => 4
  | .initUnlock => 3
  | .lock => 2
  | .unlock => 1

theorem StatsPc.remaining_next {ok : Bool} {pc pc' : StatsPc} (h : pc.next ok = some pc') :
    pc'.remaining < pc.remaining := by
  cases pc with
  | test =>
    obtain rfl := Option.some.inj h
    cases ok <;> decide
  | unlock => cases h
  | _ =>
    obtain rfl := Option.some.inj h
    decide

theorem StatsPc.remaining_pos (pc : StatsPc) : 0 < pc.remaining := by
  cases pc <;> decide

/-- The steps that are left to a call of `thr_unregister`. -/
def UnregisterPc.remaining : UnregisterPc → Nat
  | .lock => 3
  | .search => 2
  | .unlock => 1

/-- The steps that are left to a call of `rthread_create`, with those of its solver in front
of `pthread_create`. -/
def CreatePc.remaining : CreatePc → Nat
  | .initLock => 25
  | .initUnlock => 24
  | .lock => 23
  | .create => 22
  | .register => 5
  | .cancel | .statsLock => 4
  | .statsUnlock => 3
  | .unlock => 2

/-- The steps that are left to a solver; the broadcast counts for those of the worker that it
wakes up. -/
def SolverPc.remaining : SolverPc → Nat
  | .lookup => 16
  | .store => 15
  | .lock => 14
  | .decrement => 13
  | .broadcast => 12
  | .unlock => 9
  | .stats pc => 3 + pc.remaining
  | .unregister pc => pc.remaining
  | .returned => 0

theorem SolverPc.Moves.remaining_lt {pc pc' : SolverPc} (h : pc.Moves pc') :
    pc'.remaining < pc.remaining := by
  cases h with
  | lookup => decide
  | stats hnext => exact Nat.add_lt_add_left (StatsPc.remaining_next hnext) 3
  | leave _ => exact Nat.lt_add_of_pos_right (StatsPc.remaining_pos _)
  | @unregister pc pc' hnext =>
    cases pc with
    | unlock => cases hnext
    | _ =>
      obtain rfl := Option.some.inj hnext
      decide
  | @returned pc _ => cases pc <;> decide

/-- A bound on the steps that are left to a record's solver. -/
def Dispatch.remaining (d : Dispatch) : Nat :=
  match d.solver with
  | none => 0
  | some solver => solver.pc.remaining

namespace Session

variable {job : Job} {s s' : Session} {ok : Bool} {j : Nat} {d d' : Dispatch} {solver : Solver}
  {pc : WorkerPc}

/-- A bound on the steps that are left to the worker: 36 for each blacklist to come, its solver
included, and 6 for each record to tally. -/
def workerRemaining (job : Job) (s : Session) : Nat :=
  match s.pc with
  | .start => 36 * job.rblist.length + (6 * s.resdataCnt + 13)
  | .dispatch => 36 * s.rbl.length + (6 * s.resdataCnt + 12)
  | .lockDispatch => 36 * s.rbl.tail.length + 35 + (6 * s.resdataCnt + 12)
  | .record => 36 * s.rbl.tail.length + 34 + (6 * s.resdataCnt + 12)
  | .create pc => 36 * s.rbl.tail.length + (6 + pc.remaining) + (6 * s.resdataCnt + 12)
  | .unlockDispatch => 36 * s.rbl.tail.length + 7 + (6 * s.resdataCnt + 12)
  | .lockJoin | .relock => 6 * s.resdataCnt + 11
  | .testJoin => 6 * s.resdataCnt + 10
  | .asleep => 6 * s.resdataCnt + 9
  | .tallyTest => 6 * (s.resdataCnt - s.i) + 8
  | .tallyLock => 6 * (s.resdataCnt - (s.i + 1)) + 13
  | .tallyUpdate => 6 * (s.resdataCnt - (s.i + 1)) + 12
  | .tallyUnlock => 6 * (s.resdataCnt - (s.i + 1)) + 11
  | .freeHostname => 6 * (s.resdataCnt - (s.i + 1)) + 10
  | .freeResdata => 6 * (s.resdataCnt - (s.i + 1)) + 9
  | .reply => 7
  | .cleanup => 6
  | .stats pc => pc.remaining
  | .returned => 0

/-- A bound on the steps that are left to the threads of a session. -/
def remaining (job : Job) (s : Session) : Nat :=
  s.workerRemaining job + (s.dispatched.map Dispatch.remaining).sum

/-! ### The records -/

theorem sum_remaining_set (hd : s.dispatched[j]? = some d) (d' : Dispatch) :
    ((s.dispatched.set j d').map Dispatch.remaining).sum + d.remaining =
      (s.dispatched.map Dispatch.remaining).sum + d'.remaining := by
  obtain ⟨hj, rfl⟩ := List.getElem?_eq_some_iff.mp hd
  obtain ⟨pre, post, hbefore, -, hafter⟩ := List.exists_of_set hj
  rw [hafter]
  conv_rhs => rw [hbefore]
  simp only [List.map_append, List.map_cons, List.sum_append, List.sum_cons]
  omega

theorem remaining_moveTo (solver : Solver) (pc : SolverPc) :
    (d.moveTo solver pc).remaining = pc.remaining := rfl

/-! ### The steps -/

/-- A step of `rthread_create`: the thread that it starts is paid for. -/
theorem remaining_createEffect (job : Job) (pc : CreatePc) (ok : Bool) (s : Session)
    (d : Dispatch) :
    workerRemaining job { s with pc := createNext pc ok } +
        Dispatch.remaining { d with solver := createEffect pc ok d.solver } <
      workerRemaining job { s with pc := .create pc } + d.remaining := by
  obtain ⟨resdata, solver⟩ := d
  cases pc with
  | create =>
    cases ok <;> cases solver <;>
      simp [createNext, createEffect, CreatePc.next, workerRemaining, CreatePc.remaining,
        Dispatch.remaining, SolverPc.remaining] <;> omega
  | register =>
    cases ok <;>
      simp [createNext, createEffect, CreatePc.next, workerRemaining, CreatePc.remaining]
  | cancel =>
    cases solver <;>
      simp [createNext, createEffect, CreatePc.next, workerRemaining, CreatePc.remaining,
        Dispatch.remaining]
  | _ => simp [createNext, createEffect, CreatePc.next, workerRemaining, CreatePc.remaining]

theorem Moves.remaining_lt (h : s.Moves pc) :
    workerRemaining job { s with pc := pc } < workerRemaining job s := by
  cases h with
  | lockDispatch hpc hrbl =>
    obtain ⟨rbl, rest, hrbl⟩ := List.exists_cons_of_ne_nil hrbl
    simp only [workerRemaining, hpc, hrbl, List.tail_cons, List.length_cons]
    omega
  | lockJoin hpc _ =>
    simp only [workerRemaining, hpc]
    omega
  | tallyLock hpc hi =>
    simp only [workerRemaining, hpc]
    omega
  | reply hpc hi =>
    simp only [workerRemaining, hpc]
    omega
  | stats hpc hnext =>
    simpa only [workerRemaining, hpc] using StatsPc.remaining_next hnext
  | returned hpc _ =>
    simpa only [workerRemaining, hpc] using StatsPc.remaining_pos _
  | _ => simp [workerRemaining, *, StatsPc.remaining]

/-- A record whose solver stays as it is. -/
theorem sum_remaining_set_eq (hd : s.dispatched[j]? = some d) (hsolver : d'.solver = d.solver) :
    ((s.dispatched.set j d').map Dispatch.remaining).sum =
      (s.dispatched.map Dispatch.remaining).sum := by
  have hset := sum_remaining_set hd d'
  rw [Dispatch.remaining, ← hsolver, ← Dispatch.remaining] at hset
  exact Nat.add_right_cancel hset

/-- Every step of the worker takes from the steps that are left. -/
theorem WorkerStep.remaining_lt (h : WorkerStep job s ok s') :
    s'.remaining job < s.remaining job := by
  -- but for a creation the worker's own steps are counted
  have hown : ∀ {s' : Session}, s'.workerRemaining job < s.workerRemaining job →
      (s'.dispatched.map Dispatch.remaining).sum = (s.dispatched.map Dispatch.remaining).sum →
        s'.remaining job < s.remaining job := by
    intro s' hlt hsum
    rw [remaining, remaining, hsum]
    exact Nat.add_lt_add_right hlt _
  cases h with
  | move hmove => exact hown hmove.remaining_lt rfl
  | @create pc d hpc hd =>
    have hcreate := remaining_createEffect job pc ok s d
    have hset := sum_remaining_set hd { d with solver := createEffect pc ok d.solver }
    have hbefore : workerRemaining job { s with pc := .create pc } = workerRemaining job s := by
      simp only [workerRemaining, hpc]
    have hafter : workerRemaining job
        { s.put s.resdataCnt { d with solver := createEffect pc ok d.solver } with
          pc := createNext pc ok } = workerRemaining job { s with pc := createNext pc ok } := rfl
    rw [remaining, remaining, hafter]
    change _ + ((s.dispatched.set _ _).map Dispatch.remaining).sum < _
    omega
  | record hpc hrbl =>
    refine hown ?_ ?_
    · simp [workerRemaining, hpc, CreatePc.remaining]
    · simp [newDispatch, Dispatch.remaining]
  | acquireJoin hpc _ =>
    refine hown ?_ rfl
    rcases hpc with hpc | hpc <;> simp [workerRemaining, hpc]
  | freeHostname hpc hd =>
    refine hown ?_ (sum_remaining_set_eq (j := s.i) hd rfl)
    simp [workerRemaining, hpc, put]
  | freeResdata hpc hd =>
    refine hown ?_ (sum_remaining_set_eq (j := s.i) hd rfl)
    simp [workerRemaining, hpc, put]
  | unlockDispatch hpc =>
    refine hown ?_ rfl
    simp only [workerRemaining, hpc]
    omega
  | join hpc _ =>
    refine hown ?_ rfl
    simp only [workerRemaining, hpc]
    omega
  | reject hpc _ =>
    refine hown ?_ rfl
    simp only [workerRemaining, hpc]
    omega
  | _ =>
    refine hown ?_ rfl
    simp [workerRemaining, *]

/-- The worker that a broadcast wakes up tests its counter once more. -/
theorem workerRemaining_wake (job : Job) (s : Session) :
    workerRemaining job { s with pc := if s.pc = .asleep then .relock else s.pc } ≤
      workerRemaining job s + 2 := by
  split_ifs with hasleep
  · simp only [workerRemaining, hasleep]
    omega
  · exact Nat.le_add_right _ _

/-- Every step of a solver takes from them. -/
theorem SolverStep.remaining_lt (hd : s.dispatched[j]? = some d) (hsolver : d.solver = some solver)
    (h : SolverStep job s j d solver s') : s'.remaining job < s.remaining job := by
  have hbefore : d.remaining = solver.pc.remaining := by rw [Dispatch.remaining, hsolver]
  -- the solver pays for what the worker has to do again
  have hpaid : ∀ {s' : Session} {d' : Dispatch}, s'.dispatched = s.dispatched.set j d' →
      s'.workerRemaining job + d'.remaining < s.workerRemaining job + solver.pc.remaining →
        s'.remaining job < s.remaining job := by
    intro s' d' hdispatched hlt
    have hset := sum_remaining_set hd d'
    rw [remaining, remaining, hdispatched]
    omega
  cases h with
  | move hmove =>
    refine hpaid rfl ?_
    exact Nat.add_lt_add_left hmove.remaining_lt _
  | broadcast hpc =>
    have hwake := workerRemaining_wake job s
    refine hpaid rfl ?_
    rw [remaining_moveTo, hpc]
    exact Nat.lt_of_le_of_lt (Nat.add_le_add_right hwake _) (by simp [SolverPc.remaining])
  | store hpc | acquire hpc _ | decrement hpc | release hpc =>
    refine hpaid rfl ?_
    rw [hpc]
    apply Nat.add_lt_add_left
    simp [Dispatch.remaining, Dispatch.moveTo, SolverPc.remaining, StatsPc.remaining]

end Session

end Rblpolicyd
