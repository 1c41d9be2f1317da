import Rblpolicyd.Daemon.Transitions
import Rblpolicyd.Semantics.Mutex
import Rblpolicyd.Session.Progress

/-!
# The mutexes that requests share

Besides the mutexes of the pool, threads of different requests share those of the
solver manager, of the list and of the statistics. For each point of a thread this
module says what its next step does to them and which of them it has locked, and
proves that the two agree along every step.

## Main definitions

* `Mutex` — the shared mutexes
* `ServerPc.lockOp`, `WorkerPc.lockOp`, `SolverPc.lockOp` — what the next step locks or unlocks
* `ServerPc.holdsMutex`, `WorkerPc.holdsMutex`, `SolverPc.holdsMutex` — what is locked

## Main results

* `Daemon.ServerStep.matches`, `Session.WorkerStep.matches`, `Session.SolverStep.matches` —
  the points are inside between their lock and their unlock
-/

namespace Rblpolicyd

open Semantics

/-- `solver_init_mutex`, the mutex of the solver manager, `rblist_mutex`, and those of
`stats_worker_thr`, `stats_worker_time`, `stats_solver_thr` and `stats_solver_time`. -/
inductive Mutex
  | solverInit
  | solverMgr
  | rblist
  | workerThr
  | workerTime
  | solverThr
  | solverTime
  deriving DecidableEq

/-! ### The calls that worker and solver make -/

/-- What a step of `stats_worker_time` or `stats_solver_time` does to its mutex. -/
def StatsPc.lockOp (m : Mutex) : StatsPc → LockOp Mutex
  | .test => .keep
  | .initLock | .lock => .lock m
  | .initUnlock | .unlock => .unlock m

/-- The points that have the mutex of the call locked. -/
def StatsPc.holds : StatsPc → Bool
  | .initUnlock | .unlock => true
  | .test | .initLock | .lock => false

/-- What a step of `thr_unregister` does to the mutex of its manager. -/
def UnregisterPc.lockOp (m : Mutex) : UnregisterPc → LockOp Mutex
  | .lock => .lock m
  | .search => .keep
  | .unlock => .unlock m

/-- The points that have the mutex of the manager locked. -/
def UnregisterPc.holds : UnregisterPc → Bool
  | .search | .unlock => true
  | .lock => false

/-- What a step of `rthread_create` does to the mutexes. -/
def CreatePc.lockOp : CreatePc → LockOp Mutex
  | .initLock => .lock .solverInit
  | .initUnlock => .unlock .solverInit
  | .lock => .lock .solverMgr
  | .create | .register | .cancel => .keep
  | .statsLock => .lock .solverThr
  | .statsUnlock => .unlock .solverThr
  | .unlock => .unlock .solverMgr

/-- What `rthread_create` has locked. -/
def CreatePc.holdsMutex (m : Mutex) : CreatePc → Bool
  | .initLock | .lock => false
  | .initUnlock => .solverInit = m
  | .create | .register | .cancel | .statsLock | .unlock => .solverMgr = m
  | .statsUnlock => .solverMgr = m ∨ .solverThr = m

variable {ok : Bool} {m m' : Mutex}

theorem StatsPc.matches_next {pc pc' : StatsPc} (h : pc.next ok = some pc') :
    (pc.lockOp m).Matches m' ((pc.holds && m = m') = true) ((pc'.holds && m = m') = true) := by
  cases pc <;> cases ok <;> cases h <;> constructor <;> simp [StatsPc.lockOp, StatsPc.holds]

theorem StatsPc.matches_return {pc : StatsPc} (h : pc.next ok = none) :
    (pc.lockOp m).Matches m' ((pc.holds && m = m') = true) (false = true) := by
  cases pc with
  | unlock => constructor <;> simp [StatsPc.lockOp, StatsPc.holds]
  | _ => cases h

theorem UnregisterPc.matches_next {pc pc' : UnregisterPc} (h : pc.next = some pc') :
    (pc.lockOp m).Matches m' ((pc.holds && m = m') = true) ((pc'.holds && m = m') = true) := by
  cases pc <;> cases h <;> constructor <;> simp [UnregisterPc.lockOp, UnregisterPc.holds]

theorem UnregisterPc.matches_return {pc : UnregisterPc} (h : pc.next = none) :
    (pc.lockOp m).Matches m' ((pc.holds && m = m') = true) (false = true) := by
  cases pc with
  | unlock => constructor <;> simp [UnregisterPc.lockOp, UnregisterPc.holds]
  | _ => cases h

/-! ### The points of the threads -/

/-- What a step of the server does to the shared mutexes. -/
def ServerPc.lockOp : ServerPc → LockOp Mutex
  | .createStatsLock => .lock .workerThr
  | .createStatsUnlock => .unlock .workerThr
  | _ => .keep

/-- What the server has locked. -/
def ServerPc.holdsMutex (m : Mutex) : ServerPc → Bool
  | .createStatsUnlock => .workerThr = m
  | _ => false

/-- What a step of the worker does to the shared mutexes. -/
def WorkerPc.lockOp : WorkerPc → LockOp Mutex
  | .create pc => pc.lockOp
  | .tallyLock => .lock .rblist
  | .tallyUnlock => .unlock .rblist
  | .stats pc => pc.lockOp .workerTime
  | _ => .keep

/-- What the worker has locked. -/
def WorkerPc.holdsMutex (m : Mutex) : WorkerPc → Bool
  | .create pc => pc.holdsMutex m
  | .tallyUpdate | .tallyUnlock => .rblist = m
  | .stats pc => pc.holds && .workerTime = m
  | _ => false

/-- What a step of the solver does to the shared mutexes. -/
def SolverPc.lockOp : SolverPc → LockOp Mutex
  | .stats pc => pc.lockOp .solverTime
  | .unregister pc => pc.lockOp .solverMgr
  | _ => .keep

/-- What the solver has locked. -/
def SolverPc.holdsMutex (m : Mutex) : SolverPc → Bool
  | .stats pc => pc.holds && .solverTime = m
  | .unregister pc => pc.holds && .solverMgr = m
  | _ => false

/-- A step between points that have the same mutexes locked. -/
theorem matches_keep {held held' : Prop} (hsame : held' ↔ held) :
    (LockOp.keep : LockOp Mutex).Matches m held held' :=
  ⟨nofun, nofun, fun _ _ => hsame⟩

theorem CreatePc.matches_next (pc : CreatePc) (ok : Bool) (m : Mutex) :
    pc.lockOp.Matches m (pc.holdsMutex m = true)
      ((Session.createNext pc ok).holdsMutex m = true) := by
  cases pc <;> cases ok <;> cases m <;> constructor <;>
    simp [CreatePc.lockOp, CreatePc.holdsMutex, Session.createNext, CreatePc.next,
      WorkerPc.holdsMutex]

theorem SolverPc.Moves.matches {pc pc' : SolverPc} (h : pc.Moves pc') (m : Mutex) :
    pc.lockOp.Matches m (pc.holdsMutex m = true) (pc'.holdsMutex m = true) := by
  cases h with
  | lookup => exact matches_keep .rfl
  | stats hnext => exact StatsPc.matches_next hnext
  | leave hnext => exact StatsPc.matches_return hnext
  | unregister hnext => exact UnregisterPc.matches_next hnext
  | returned hnext => exact UnregisterPc.matches_return hnext

namespace Session

variable {job : Job} {s s' : Session} {j : Nat} {d : Dispatch} {solver : Solver}

theorem Moves.matches {pc : WorkerPc} (h : s.Moves pc) (m : Mutex) :
    s.pc.lockOp.Matches m (s.pc.holdsMutex m = true) (pc.holdsMutex m = true) := by
  cases h with
  | stats hpc hnext =>
    rw [hpc]
    exact StatsPc.matches_next hnext
  | returned hpc hnext =>
    rw [hpc]
    exact StatsPc.matches_return hnext
  | tallyUpdate hpc =>
    rw [hpc]
    constructor <;> simp [WorkerPc.lockOp, WorkerPc.holdsMutex]
  | freeHostname hpc =>
    rw [hpc]
    constructor <;> simp [WorkerPc.lockOp, WorkerPc.holdsMutex]
  | lockDispatch hpc _ => rw [hpc]; exact matches_keep .rfl
  | lockJoin hpc _ => rw [hpc]; exact matches_keep .rfl
  | tallyLock hpc _ => rw [hpc]; exact matches_keep .rfl
  | reply hpc _ => rw [hpc]; exact matches_keep .rfl
  | statsTest hpc => rw [hpc]; exact matches_keep .rfl

/-- The worker is inside between its lock and its unlock of a shared mutex. -/
theorem WorkerStep.matches (h : WorkerStep job s ok s') (m : Mutex) :
    s.pc.lockOp.Matches m (s.pc.holdsMutex m = true) (s'.pc.holdsMutex m = true) := by
  cases h with
  | move hmove => exact hmove.matches m
  | create hpc _ => rw [hpc]; exact CreatePc.matches_next _ _ m
  | acquireJoin hpc _ => rcases hpc with hpc | hpc <;> rw [hpc] <;> exact matches_keep .rfl
  | reject hpc _ => rw [hpc]; exact matches_keep .rfl
  | prepare hpc _ => rw [hpc]; exact matches_keep .rfl
  | acquireDispatch hpc _ => rw [hpc]; exact matches_keep .rfl
  | record hpc _ => rw [hpc]; exact matches_keep .rfl
  | unlockDispatch hpc => rw [hpc]; exact matches_keep .rfl
  | sleep hpc _ => rw [hpc]; exact matches_keep .rfl
  | join hpc _ => rw [hpc]; exact matches_keep .rfl
  | tally hpc _ => rw [hpc]; exact matches_keep .rfl
  | freeHostname hpc _ => rw [hpc]; exact matches_keep .rfl
  | freeResdata hpc _ => rw [hpc]; exact matches_keep .rfl
  | reply hpc => rw [hpc]; exact matches_keep .rfl

/-- The solver behind record `j` has the shared mutex locked. -/
def solverHoldsMutex (s : Session) (m : Mutex) (j : Nat) : Bool :=
  s.dispatched[j]?.any fun d => d.solver.any fun solver => solver.pc.holdsMutex m

/-- A step of a solver moves it to a point that agrees with what it does to the mutexes, and
leaves the other records alone. -/
theorem SolverStep.matches (h : SolverStep job s j d solver s') :
    ∃ d' pc, s'.dispatched = s.dispatched.set j d' ∧ d'.solver = some { solver with pc := pc } ∧
      ∀ m, solver.pc.lockOp.Matches m (solver.pc.holdsMutex m = true)
        (pc.holdsMutex m = true) := by
  cases h with
  | move hmove => exact ⟨_, _, rfl, rfl, hmove.matches⟩
  | store hpc => exact ⟨_, .lock, rfl, rfl, fun m => by rw [hpc]; exact matches_keep .rfl⟩
  | acquire hpc _ => exact ⟨_, .decrement, rfl, rfl, fun m => by rw [hpc]; exact matches_keep .rfl⟩
  | decrement hpc =>
    exact ⟨_, .broadcast, rfl, rfl, fun m => by rw [hpc]; exact matches_keep .rfl⟩
  | broadcast hpc => exact ⟨_, .unlock, rfl, rfl, fun m => by rw [hpc]; exact matches_keep .rfl⟩
  | release hpc =>
    exact ⟨_, .stats .test, rfl, rfl, fun m => by rw [hpc]; exact matches_keep .rfl⟩

/-- The worker's steps leave what the solvers have locked. -/
theorem WorkerStep.solverHoldsMutex (h : WorkerStep job s ok s') (hfresh : Fresh s) (m : Mutex)
    (k : Nat) : s'.solverHoldsMutex m k = s.solverHoldsMutex m k := by
  have hput : ∀ {j : Nat} {d d' : Dispatch}, s.dispatched[j]? = some d →
      (d'.solver.any fun solver => solver.pc.holdsMutex m) =
        (d.solver.any fun solver => solver.pc.holdsMutex m) →
      (s.put j d').solverHoldsMutex m k = s.solverHoldsMutex m k := by
    intro j d d' hd hsame
    unfold Session.solverHoldsMutex
    rw [getElem?_put hd]
    split_ifs with hjk
    · rw [Option.any_some, hsame, ← hjk, hd, Option.any_some]
    · rfl
  cases h with
  | record _ _ =>
    unfold Session.solverHoldsMutex
    rcases lt_trichotomy k s.dispatched.length with hk | rfl | hk
    · rw [List.getElem?_append_left hk]
    · simp [newDispatch]
    · rw [List.getElem?_eq_none (by simpa using hk), List.getElem?_eq_none hk.le]
  | @create pc d hpc hd =>
    refine hput hd ?_
    cases pc with
    | create =>
      -- the new solver has nothing locked, and there was none before
      rw [hfresh .create hpc rfl d hd]
      cases ok <;> rfl
    | cancel => simp [createEffect, Option.any_map]
    | _ => rfl
  | freeHostname _ hd => exact hput hd rfl
  | freeResdata _ hd => exact hput hd rfl
  | _ => rfl

end Session

namespace Daemon

variable {maxthreads : Int} {s s' : Daemon}

theorem ServerMoves.matches {pc : ServerPc} (h : ServerMoves maxthreads s pc) (m : Mutex) :
    s.pc.lockOp.Matches m (s.pc.holdsMutex m = true) (pc.holdsMutex m = true) := by
  cases h with
  | statsLock hpc =>
    rw [hpc]
    constructor <;> simp [ServerPc.lockOp, ServerPc.holdsMutex]
  | statsUnlock hpc =>
    rw [hpc]
    constructor <;> simp [ServerPc.lockOp, ServerPc.holdsMutex]
  | _ => simp [ServerPc.lockOp, ServerPc.holdsMutex, matches_keep, *]

/-- The server is inside between its lock and its unlock of a shared mutex. -/
theorem ServerStep.matches (h : ServerStep maxthreads s ok s') (m : Mutex) :
    s.pc.lockOp.Matches m (s.pc.holdsMutex m = true) (s'.pc.holdsMutex m = true) := by
  cases h with
  | move hmove => exact hmove.matches m
  | @unlock _ res hpc =>
    rw [hpc]
    by_cases hres : res = 0
    · rw [if_pos hres]
      exact matches_keep .rfl
    · rw [if_neg hres]
      exact matches_keep .rfl
  | _ => simp [ServerPc.lockOp, ServerPc.holdsMutex, matches_keep, *]

end Daemon

end Rblpolicyd
