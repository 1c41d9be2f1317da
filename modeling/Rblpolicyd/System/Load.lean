import Mathlib.Data.Nat.Pairing
import Rblpolicyd.Semantics.Gauge
import Rblpolicyd.System.Deadlock

/-!
# The figures of the load

`stats_log` reports how many requests there were, and for workers and solvers how many
there are and how many there have been at most. The figures are copies. Those of the
requests are only kept by `stats_request`, which nothing calls; those of the threads are
taken over when a thread has been created, and not when one exits. The creation of a
solver passes the count on while the manager is locked, the creation of a worker reads
it behind the unlock, when the new worker may be gone.

## Main definitions

* `Figures`, `statsWorkerThr`, `statsSolverThr` — the variables and their updates
* `Load`, `Load.step` — the system with both managers, the figures, and what has happened
* `Load.Agrees` — the figures are the real load

## Main results

* `Load.agrees_iff` — in a quiet state they are as long as no connection has been accepted;
  when each of them is right
-/

namespace Rblpolicyd

open Libc Semantics

/-! ### The figures -/

/-- The variables for one kind of thread: `num_…`, `now_…` and `max_…`. -/
structure ThrFigures where
  num : Int
  now : Nat
  max : Nat
  deriving DecidableEq

/-- What `stats_worker_thr` and `stats_solver_thr` do, each to its own variables. -/
def ThrFigures.record (f : ThrFigures) (num : Nat) : ThrFigures where
  num := toInt32 (f.num + 1)
  now := num
  max := if num > f.max then num else f.max

/-- The variables that `stats_log` prints, apart from the durations. Only `stats_request` writes
`requests`, and nothing calls it. -/
structure Figures where
  requests : Int
  workers : ThrFigures
  solvers : ThrFigures
  deriving DecidableEq

/-- The variables at the start of the program. -/
def Figures.init : Figures := ⟨0, ⟨0, 0, 0⟩, ⟨0, 0, 0⟩⟩

/-- `stats_worker_thr`. -/
def statsWorkerThr (f : Figures) (num : Nat) : Figures := { f with workers := f.workers.record num }

/-- `stats_solver_thr`. -/
def statsSolverThr (f : Figures) (num : Nat) : Figures := { f with solvers := f.solvers.record num }

theorem ThrFigures.record_max (f : ThrFigures) (num : Nat) :
    (f.record num).max = Nat.max f.max num := by
  change (if num > f.max then num else f.max) = Nat.max f.max num
  split_ifs with hmore
  · exact (Nat.max_eq_right hmore.le).symm
  · exact (Nat.max_eq_left (not_lt.mp hmore)).symm

/-! ### The managers -/

/-- The `nthreads` of a manager; one that has not been created has no threads. -/
def threadCount : Option ThrMgr → Nat
  | none => 0
  | some mgr => mgr.nthreads

/-- The `nthreads` of the worker manager. -/
def System.workerCount (s : System) : Nat := threadCount s.daemon.workermgr

/-- The solver manager behind a step of `rthread_create`; `tid` is the id of the new solver. -/
def WorkerPc.mgrBehind (pc : WorkerPc) (ok : Bool) (tid : Nat) (mgr : Option ThrMgr) :
    Option ThrMgr :=
  match pc with
  -- if (!solvermgr), between the lock and the unlock of `solver_init_mutex`
  | .create .initUnlock => mgr.or (some ThrMgr.init)
  | .create .register => mgr.map fun mgr => (thrRegister ok mgr tid).2
  | _ => mgr

/-- The solver manager behind a step of `thr_unregister`. -/
def SolverPc.mgrBehind (pc : SolverPc) (tid : Nat) (mgr : Option ThrMgr) : Option ThrMgr :=
  match pc with
  | .unregister .search => mgr.map fun mgr => (thrUnregister mgr tid).2
  | _ => mgr

/-! ### Creations and exits in progress -/

/-- The server takes itself out of the manager. -/
def ServerPc.leaving : ServerPc → Bool
  | .directUnregister _ => true
  | _ => false

/-- The worker is in `wthread_exit`. -/
def WorkerPhase.leaving : WorkerPhase → Bool
  | .unregister _ => true
  | _ => false

/-- The worker is in `rthread_create`. -/
def WorkerPc.creating : WorkerPc → Bool
  | .create _ => true
  | _ => false

/-- The solver is in `rthread_exit`. -/
def SolverPc.leaving : SolverPc → Bool
  | .unregister _ => true
  | _ => false

/-- No creation and no exit is in progress. -/
def System.Quiet (s : System) : Prop :=
  (s.daemon.pc.creating = false ∧ s.daemon.pc.leaving = false) ∧
    (∀ worker ∈ s.daemon.workers, worker.phase.leaving = false) ∧
    ∀ sess ∈ s.sessions, sess.pc.creating = false ∧
      ∀ d ∈ sess.dispatched, ∀ solver ∈ d.solver, solver.pc.leaving = false

instance (s : System) : Decidable s.Quiet := by
  unfold System.Quiet
  infer_instance

/-! ### The system with its figures -/

/-- The system with the solver manager and the figures, and the argument of `stats_worker_thr`
when the server has read it. The rest is history: the number of connections accepted, and what
has happened to the counts of the two managers. -/
structure Load where
  system : System
  solvermgr : Option ThrMgr
  figures : Figures
  num : Option Nat
  accepted : Nat
  workers : Gauge
  solvers : Gauge

namespace Load

/-- The daemon has just started. -/
def init (appstate : Appstate) (rblist : List Cfgitem) : Load where
  system := System.init appstate rblist
  solvermgr := none
  figures := Figures.init
  num := none
  accepted := 0
  workers := Gauge.init
  solvers := Gauge.init

/-- A step of the system; or the server, behind its unlock of the manager, reads the count that
it is going to pass to `stats_worker_thr`. -/
inductive Action
  | system (a : System.Action)
  | read
  deriving DecidableEq

/-- The step is the body of `stats_worker_thr` and its unlock. -/
def callsWorkerThr (s : Load) : System.Action → Bool
  | .daemon (.server _) => s.system.daemon.pc = .createStatsUnlock
  | _ => false

/-- The step is the body of `stats_solver_thr` and its unlock. -/
def callsSolverThr (s : Load) : System.Action → Bool
  | .session i (.worker _) => s.system.sessions[i]?.any fun sess => sess.pc = .create .statsUnlock
  | _ => false

/-- The solver manager behind a step. The id of a solver is in use as long as it is registered,
so a number of its own stands for it. -/
def solvermgrBehind (s : Load) : System.Action → Option ThrMgr
  | .session i (.worker ok) =>
    match s.system.sessions[i]? with
    | none => s.solvermgr
    | some sess => sess.pc.mgrBehind ok (Nat.pair i sess.resdataCnt) s.solvermgr
  | .session i (.solver j _) =>
    match s.system.solverPc i j with
    | none => s.solvermgr
    | some pc => pc.mgrBehind (Nat.pair i j) s.solvermgr
  | _ => s.solvermgr

/-- The figures behind a step. The solver manager is locked from the registration to the end of
the call, so its count may as well be read in the call. -/
def figuresBehind (s : Load) (a : System.Action) : Figures :=
  if s.callsSolverThr a then statsSolverThr s.figures (threadCount s.solvermgr)
  else
    match s.num with
    | none => s.figures
    | some num => if s.callsWorkerThr a then statsWorkerThr s.figures num else s.figures

/-- The server calls `stats_worker_thr` when it has read the argument. -/
def ready (s : Load) : System.Action → Bool
  | .daemon (.server _) => s.system.daemon.pc ≠ .createStatsLock || s.num.isSome
  | _ => true

/-- The state behind a step that leads to `system`. -/
def behind (s : Load) (a : System.Action) (system : System) : Load where
  system := system
  solvermgr := s.solvermgrBehind a
  figures := s.figuresBehind a
  num := if s.callsWorkerThr a then none else s.num
  accepted := if a = .daemon (.accept .conn) then s.accepted + 1 else s.accepted
  workers := s.workers.change s.system.workerCount system.workerCount
  solvers :=
    if s.callsSolverThr a then s.solvers.read (threadCount s.solvermgr)
    else s.solvers.change (threadCount s.solvermgr) (threadCount (s.solvermgrBehind a))

/-- The server reads the count of its manager. -/
def readStep (s : Load) : Option Load :=
  if s.system.daemon.exited = none ∧ s.system.daemon.pc = .createStatsLock ∧ s.num = none then
    some
      { s with
        num := some s.system.workerCount
        workers := s.workers.read s.system.workerCount }
  else none

/-- One step of the system with its figures. -/
def step (maxthreads : Int) (jobs : Nat → Job) (s : Load) : Action → Option Load
  | .system a =>
    if s.ready a then (s.system.step maxthreads jobs a).map (s.behind a) else none
  | .read => s.readStep

/-- The figures of the workers behind the call that the server has read the argument for. -/
def pendingWorkers (s : Load) : ThrFigures :=
  match s.num with
  | none => s.figures.workers
  | some num => s.figures.workers.record num

/-- The figures that `stats_log` would report are the real load. -/
def Agrees (s : Load) : Prop :=
  s.figures.requests = s.accepted ∧ s.figures.workers.now = s.system.workerCount ∧
    s.figures.solvers.now = threadCount s.solvermgr ∧ s.figures.workers.max = s.workers.peak ∧
    s.figures.solvers.max = s.solvers.peak

instance (s : Load) : Decidable s.Agrees := by
  unfold Agrees
  infer_instance

/-- No creation fails in this step: neither `pthread_create` nor the allocation of the record
of the new thread. -/
def Creates (s : Load) : Action → Prop
  | .system (.daemon a) => s.system.daemon.RecordsAllocated a ∧ a ≠ .create none
  | .system (.session i a) => ∀ sess ∈ s.system.sessions[i]?, sess.Succeeds a
  | .read => True

instance (s : Load) : (a : Action) → Decidable (s.Creates a)
  | .system (.daemon a) =>
    inferInstanceAs (Decidable (s.system.daemon.RecordsAllocated a ∧ a ≠ .create none))
  | .system (.session i a) =>
    inferInstanceAs (Decidable (∀ sess ∈ s.system.sessions[i]?, sess.Succeeds a))
  | .read => inferInstanceAs (Decidable True)

end Load

/-! ### What a step does to the managers -/

/-- The server has registered a worker and is to read the count. -/
def ServerPc.unread : ServerPc → Bool
  | .createUnlock res => res = 0
  | .createStatsLock => true
  | _ => false

/-- The server is at the call of `stats_worker_thr`. -/
def ServerPc.reports : ServerPc → Bool
  | .createStatsLock | .createStatsUnlock => true
  | _ => false

/-- The points that the server gets to without a connection. -/
def ServerPc.unasked : ServerPc → Bool
  | .loop | .accept | .returned | .mainFree | .ended => true
  | _ => false

/-- The worker has registered a solver and is to pass the count on. -/
def WorkerPc.recording : WorkerPc → Bool
  | .create .statsLock | .create .statsUnlock => true
  | _ => false

theorem WorkerPc.holdsMutex_of_recording {pc : WorkerPc} (h : pc.recording = true) :
    pc.holdsMutex .solverMgr = true := by
  unfold recording at h
  split at h
  · rfl
  · rfl
  · cases h

theorem threadCount_or_init (mgr : Option ThrMgr) :
    threadCount (mgr.or (some ThrMgr.init)) = threadCount mgr := by
  cases mgr <;> rfl

theorem nthreads_thrUnregister_le (mgr : ThrMgr) (tid : Nat) :
    (thrUnregister mgr tid).2.nthreads ≤ mgr.nthreads := by
  unfold thrUnregister
  split
  · exact Nat.sub_le _ _
  · exact le_rfl

/-- Only a registration changes the count in `rthread_create`. -/
theorem WorkerPc.threadCount_mgrBehind {pc : WorkerPc} (hpc : pc ≠ .create .register)
    (ok : Bool) (tid : Nat) (mgr : Option ThrMgr) :
    threadCount (pc.mgrBehind ok tid mgr) = threadCount mgr := by
  unfold mgrBehind
  split
  · exact threadCount_or_init mgr
  · exact absurd rfl hpc
  · rfl

theorem SolverPc.threadCount_mgrBehind_le (pc : SolverPc) (tid : Nat) (mgr : Option ThrMgr) :
    threadCount (pc.mgrBehind tid mgr) ≤ threadCount mgr := by
  unfold mgrBehind
  split
  · cases mgr with
    | none => exact le_rfl
    | some mgr => exact nthreads_thrUnregister_le mgr tid
  · exact le_rfl

/-- Only the search of `thr_unregister` changes the count. -/
theorem SolverPc.mgrBehind_eq {pc : SolverPc} (hpc : pc ≠ .unregister .search) (tid : Nat)
    (mgr : Option ThrMgr) : pc.mgrBehind tid mgr = mgr := by
  unfold mgrBehind
  split
  · exact absurd rfl hpc
  · rfl

namespace Daemon

variable {maxthreads : Int} {s s' : Daemon} {a : Action}

/-- The count of the workers goes up in the registration of a worker only. -/
theorem threadCount_of_step (hok : s.RecordsAllocated a)
    (hstep : s.step maxthreads a = some s') :
    threadCount s'.workermgr ≤ threadCount s.workermgr ∨
      (∃ tid, s.pc = .createRegister tid) ∧ s'.pc = .createUnlock 0 := by
  cases step_cases hstep with
  | server h =>
    cases h with
    | initManager _ => exact .inl (threadCount_or_init _).le
    | register hpc _ => exact .inr ⟨⟨_, hpc⟩, rfl⟩
    | registerFails hpc _ =>
      have hfails := hok (by rw [hpc]; rfl)
      cases hfails
    | searchDirect _ hmgr =>
      rw [hmgr]
      exact .inl (nthreads_thrUnregister_le _ _)
    | _ => exact .inl le_rfl
  | worker _ h =>
    cases h with
    | search _ hmgr =>
      rw [hmgr]
      exact .inl (nthreads_thrUnregister_le _ _)
    | _ => exact .inl le_rfl
  | _ => exact .inl le_rfl

/-- Between the registration of a worker and the read only the server moves on. -/
theorem unread_of_step (hpc : s.pc.unread = true) (hstep : s.step maxthreads a = some s') :
    s'.pc.unread = true ∨ s.pc = .createStatsLock ∧ ∃ ok, a = .server ok := by
  cases step_cases hstep with
  | @server ok _ h =>
    cases h with
    | move hmove =>
      cases hmove with
      | statsLock hpc' => exact .inr ⟨hpc', ok, rfl⟩
      | _ => simp_all [ServerPc.unread]
    | _ => simp_all [ServerPc.unread]
  | worker _ h => exact .inl (h.pc_eq ▸ hpc)
  | kill _ _ _ => exact .inl hpc
  | xalloc => exact .inl hpc
  | sigterm => exact .inl hpc
  | reload => exact .inl hpc
  | _ => simp_all [ServerPc.unread]

/-- The server stays at the call until it returns. -/
theorem reports_of_step (hpc : s.pc.reports = true) (hstep : s.step maxthreads a = some s') :
    s'.pc.reports = true ∨ s.pc = .createStatsUnlock ∧ ∃ ok, a = .server ok := by
  cases step_cases hstep with
  | @server ok _ h =>
    cases h with
    | move hmove =>
      cases hmove with
      | statsUnlock hpc' => exact .inr ⟨hpc', ok, rfl⟩
      | _ => simp_all [ServerPc.reports]
    | _ => simp_all [ServerPc.reports]
  | worker _ h => exact .inl (h.pc_eq ▸ hpc)
  | kill _ _ _ => exact .inl hpc
  | xalloc => exact .inl hpc
  | sigterm => exact .inl hpc
  | reload => exact .inl hpc
  | _ => simp_all [ServerPc.reports]

/-- A daemon that no connection has reached: there are no workers, and no manager. -/
structure Unused (s : Daemon) : Prop where
  server : s.pc.unasked = true
  workermgr : s.workermgr = none
  workers : s.workers = []

theorem ServerMoves.unasked {pc : ServerPc} (h : ServerMoves maxthreads s pc)
    (hpc : s.pc.unasked = true) : pc.unasked = true := by
  cases h with
  | accept _ _ => rfl
  | leave _ _ => rfl
  | shutdown _ => rfl
  | _ => simp_all [ServerPc.unasked]

/-- Without a connection the server only waits or comes to its end, and creates no worker. -/
theorem Unused.step (h : Unused s) (hstep : s.step maxthreads a = some s')
    (hconn : a ≠ .accept .conn) : Unused s' ∧ ∀ tid, a ≠ .create (some tid) := by
  obtain ⟨hpc, hmgr, hworkers⟩ := h
  have hnone : ∀ (i : Nat) (worker : PoolWorker), s.workers[i]? ≠ some worker := by
    intro i worker hworker
    rw [hworkers] at hworker
    cases hworker
  cases step_cases hstep with
  | server h =>
    refine ⟨?_, nofun⟩
    cases h with
    | move hmove => exact ⟨hmove.unasked hpc, hmgr, hworkers⟩
    | mainFree _ => exact ⟨rfl, hmgr, hworkers⟩
    | exitMain _ => exact ⟨hpc, hmgr, hworkers⟩
    | _ => simp_all [ServerPc.unasked]
  | accepted _ => exact absurd rfl hconn
  | worker hworker _ => exact absurd hworker (hnone _ _)
  | kill hworker _ _ => exact absurd hworker (hnone _ _)
  | createFails hpc' => simp_all [ServerPc.unasked]
  | created hpc' _ => simp_all [ServerPc.unasked]
  | readFails hpc' => simp_all [ServerPc.unasked]
  | read hpc' => simp_all [ServerPc.unasked]
  | xalloc => exact ⟨⟨hpc, hmgr, hworkers⟩, nofun⟩
  | sigterm => exact ⟨⟨hpc, hmgr, hworkers⟩, nofun⟩
  | reload => exact ⟨⟨hpc, hmgr, hworkers⟩, nofun⟩
  | _ => exact ⟨⟨rfl, hmgr, hworkers⟩, nofun⟩

end Daemon

namespace Session

variable {job : Job} {s s' : Session} {ok : Bool}

/-- A worker records a solver from its registration to the body of `stats_solver_thr`. -/
theorem WorkerStep.recording (hok : s.Succeeds (.worker ok)) (h : WorkerStep job s ok s') :
    s.pc = .create .register ∧ s'.pc.recording = true ∨ s.pc = .create .statsUnlock ∨
      s.pc ≠ .create .register ∧ s.pc ≠ .create .statsUnlock ∧
        s'.pc.recording = s.pc.recording := by
  cases h with
  | @create pc _ hpc _ =>
    rw [hpc]
    cases pc with
    | register =>
      obtain rfl := hok (by rw [hpc]; rfl)
      exact .inl ⟨rfl, rfl⟩
    | statsUnlock => exact .inr (.inl rfl)
    | create => cases ok <;> exact .inr (.inr ⟨nofun, nofun, rfl⟩)
    | _ => exact .inr (.inr ⟨nofun, nofun, rfl⟩)
  | move hmove => cases hmove <;> simp_all [WorkerPc.recording]
  | acquireJoin hpc _ => rcases hpc with hpc | hpc <;> simp [WorkerPc.recording, hpc]
  | _ => simp_all [WorkerPc.recording]

/-- The other threads leave the worker where it is, or wake it up. -/
theorem SolverStep.recording {j : Nat} {d : Dispatch} {solver : Solver}
    (h : SolverStep job s j d solver s') : s'.pc.recording = s.pc.recording := by
  rcases h.frame.1 with hpc | ⟨hpc, hpc'⟩
  · rw [hpc]
  · rw [hpc, hpc']
    rfl

end Session

namespace System

variable {s : System} {i j : Nat} {sess sess' : Session} {owners : Mutex → Option Tid}

/-- Worker `i` is about to pass on the count of the solvers. -/
def Recording (s : System) (i : Nat) : Prop :=
  (s.sessions[i]?.any fun sess => sess.pc.recording) = true

/-- A worker that records a solver has the solver manager locked. -/
theorem holdsMutex_of_recording (h : s.Recording i) :
    s.HoldsMutex .solverMgr (.worker i) := by
  obtain ⟨sess, hsess, hpc⟩ := (Option.any_eq_true _ _).mp h
  exact (Option.any_eq_true _ _).mpr ⟨sess, hsess, WorkerPc.holdsMutex_of_recording hpc⟩

theorem recording_set (hsess : s.sessions[i]? = some sess) (k : Nat) :
    Recording { s with sessions := s.sessions.set i sess', owners := owners } k ↔
      if i = k then sess'.pc.recording = true else s.Recording k := by
  unfold Recording
  rw [System.any_set hsess]
  split_ifs <;> rfl

theorem recording_set_of_eq (hsess : s.sessions[i]? = some sess)
    (hsame : sess'.pc.recording = sess.pc.recording) (k : Nat) :
    Recording { s with sessions := s.sessions.set i sess', owners := owners } k ↔
      s.Recording k := by
  rw [recording_set hsess]
  split_ifs with hik
  · subst hik
    rw [hsame, Recording, hsess, Option.any_some]
  · rfl

/-- While a worker registers a solver no other one is about to pass on the count. -/
theorem not_recording_of_register
    (hguarded : Guarded (s.owners .solverMgr) (s.HoldsMutex .solverMgr))
    (hsess : s.sessions[i]? = some sess) (hpc : sess.pc = .create .register) (k : Nat) :
    ¬ s.Recording k := by
  intro hk
  have hholds : s.HoldsMutex .solverMgr (.worker i) :=
    (Option.any_eq_true _ _).mpr ⟨sess, hsess, by rw [hpc]; rfl⟩
  obtain rfl := Tid.worker.inj (hguarded.unique (holdsMutex_of_recording hk) hholds)
  rw [Recording, hsess, Option.any_some, hpc] at hk
  cases hk

/-- A solver that takes itself out of the manager finds no worker about to pass on the count. -/
theorem not_recording_of_search {d : Dispatch} {solver : Solver}
    (hguarded : Guarded (s.owners .solverMgr) (s.HoldsMutex .solverMgr))
    (hsess : s.sessions[i]? = some sess) (hd : sess.dispatched[j]? = some d)
    (hsolver : d.solver = some solver) (hpc : solver.pc = .unregister .search) (k : Nat) :
    ¬ s.Recording k := by
  intro hk
  have hholds : s.HoldsMutex .solverMgr (.solver i j) := by
    simp [System.HoldsMutex, Session.solverHoldsMutex, hsess, hd, hsolver, hpc,
      SolverPc.holdsMutex, UnregisterPc.holds]
  cases hguarded.unique (holdsMutex_of_recording hk) hholds

end System

/-! ### The figures of the workers -/

namespace Load

variable {maxthreads : Int} {jobs : Nat → Job} {s s' t : Load} {a : Action} {b : System.Action}
  {system : System} {w : List Action} {appstate : Appstate} {rblist : List Cfgitem}

/-- The step of a session is no call of `stats_worker_thr`. -/
theorem callsWorkerThr_session (i : Nat) (a : Session.Action) :
    s.callsWorkerThr (.session i a) = false :=
  rfl

/-- The step of the daemon is no call of `stats_solver_thr`. -/
theorem callsSolverThr_daemon (a : Daemon.Action) : s.callsSolverThr (.daemon a) = false :=
  rfl

/-- The call that the server makes is the one that was pending. -/
theorem pendingWorkers_behind (b : System.Action) (system : System) :
    (s.behind b system).pendingWorkers = s.pendingWorkers := by
  simp only [pendingWorkers, behind, figuresBehind]
  cases b with
  | daemon a =>
    rw [callsSolverThr_daemon]
    cases s.num with
    | none => simp
    | some num =>
      -- the step is the call, or it is pending as before
      by_cases hcalls : s.callsWorkerThr (.daemon a) = true <;> simp [hcalls, statsWorkerThr]
  | session i a =>
    rw [callsWorkerThr_session]
    cases s.num <;> split_ifs <;> simp_all [statsSolverThr]

theorem solvers_figuresBehind (hcalls : s.callsSolverThr b = false) :
    (s.figuresBehind b).solvers = s.figures.solvers := by
  unfold figuresBehind
  rw [hcalls]
  cases s.num with
  | none => rfl
  | some num => cases s.callsWorkerThr b <;> rfl

theorem requests_figuresBehind (b : System.Action) :
    (s.figuresBehind b).requests = s.figures.requests := by
  unfold figuresBehind
  cases s.callsSolverThr b with
  | true => rfl
  | false =>
    cases s.num with
    | none => rfl
    | some num => cases s.callsWorkerThr b <;> rfl

/-- What the figures of the workers have to do with their manager. A worker that has been
registered is still to be counted until the server has read the count, and the call is pending
from the read to its end. -/
structure WorkersTold (s : Load) : Prop where
  shows : s.workers.Shows s.system.workerCount s.pendingWorkers.now s.pendingWorkers.max
  unread : s.workers.entered ≠ 0 → s.num = none ∧ s.system.daemon.pc.unread = true
  reports : s.num ≠ none → s.system.daemon.pc.reports = true

theorem workersTold_init (appstate : Appstate) (rblist : List Cfgitem) :
    WorkersTold (init appstate rblist) where
  shows := Gauge.shows_init
  unread h := absurd rfl h
  reports h := absurd rfl h

/-- The read is in front of the call, and the first one there. -/
theorem readStep_cases (h : s.readStep = some s') :
    s.system.daemon.pc = .createStatsLock ∧ s.num = none ∧
      s' =
        { s with
          num := some s.system.workerCount
          workers := s.workers.read s.system.workerCount } := by
  obtain ⟨⟨-, hpc, hnum⟩, heq⟩ := Option.ite_none_right_eq_some.mp h
  exact ⟨hpc, hnum, (Option.some.inj heq).symm⟩

/-- The other steps are steps of the system. -/
theorem systemStep_cases (h : s.step maxthreads jobs (.system b) = some s') :
    s.ready b = true ∧ ∃ system, s.system.step maxthreads jobs b = some system ∧
      s' = s.behind b system := by
  obtain ⟨hready, hmap⟩ := Option.ite_none_right_eq_some.mp h
  obtain ⟨system, hsystem, heq⟩ := Option.map_eq_some_iff.mp hmap
  exact ⟨hready, system, hsystem, heq.symm⟩

/-- The server reads the count that it has left behind unlocked. -/
theorem WorkersTold.read (h : WorkersTold s) (hstep : s.readStep = some s') :
    WorkersTold s' := by
  obtain ⟨hpc, hnum, rfl⟩ := readStep_cases hstep
  have hshows := h.shows.read
  constructor
  · simp only [pendingWorkers, hnum] at hshows ⊢
    rw [ThrFigures.record_max]
    exact hshows
  · intro hentered
    exact absurd rfl hentered
  · intro _
    change s.system.daemon.pc.reports = true
    rw [hpc]
    rfl

theorem WorkersTold.daemonStep (h : WorkersTold s) {a : Daemon.Action}
    (hready : s.ready (.daemon a) = true) (hok : s.system.daemon.RecordsAllocated a)
    (hstep : s.system.daemon.step maxthreads a = some system.daemon) :
    WorkersTold (s.behind (.daemon a) system) := by
  constructor
  · rw [pendingWorkers_behind]
    exact h.shows.change _
  · intro hentered
    -- the count has gone up just now, or the server has not read it yet
    rcases Daemon.threadCount_of_step hok hstep with hle | ⟨⟨tid, hpc⟩, hpc'⟩
    · have hbefore : s.workers.entered ≠ 0 := by
        rwa [← Gauge.change_entered_of_le hle]
      obtain ⟨hnum, hunread⟩ := h.unread hbefore
      refine ⟨by simp [behind, hnum], ?_⟩
      rcases Daemon.unread_of_step hunread hstep with hunread' | ⟨hpc, ok, rfl⟩
      · exact hunread'
      · -- the server does not go on without the argument
        simp [ready, hpc, hnum] at hready
    · have hnum : s.num = none := by
        by_contra hsome
        have hreports := h.reports hsome
        rw [hpc] at hreports
        cases hreports
      refine ⟨by simp [behind, hnum], ?_⟩
      change system.daemon.pc.unread = true
      rw [hpc']
      rfl
  · intro hsome
    have hcalls : s.callsWorkerThr (.daemon a) = false := by
      by_contra hcalls
      simp [behind, hcalls] at hsome
    have hbefore : s.num ≠ none := by
      simpa only [behind, hcalls, Bool.false_eq_true, if_false] using hsome
    rcases Daemon.reports_of_step (h.reports hbefore) hstep with hreports | ⟨hpc, ok, rfl⟩
    · exact hreports
    · simp [callsWorkerThr, hpc] at hcalls

theorem WorkersTold.sessionStep (h : WorkersTold s) {i : Nat} {a : Session.Action}
    (hdaemon : system.daemon = s.system.daemon) :
    WorkersTold (s.behind (.session i a) system) := by
  have hcount : system.workerCount = s.system.workerCount := by
    rw [System.workerCount, hdaemon]
    rfl
  constructor
  · rw [pendingWorkers_behind]
    exact h.shows.change _
  · intro hentered
    change _ ∧ system.daemon.pc.unread = true
    rw [hdaemon]
    apply h.unread
    rwa [← Gauge.change_entered_of_le hcount.le]
  · intro hsome
    change system.daemon.pc.reports = true
    rw [hdaemon]
    exact h.reports hsome

/-- When no creation is in progress the server has read the count of its last one. -/
theorem WorkersTold.entered_eq_zero (h : WorkersTold s) (hquiet : s.system.Quiet) :
    s.num = none ∧ s.workers.entered = 0 := by
  have hpc := hquiet.1.1
  constructor
  · by_contra hsome
    have hreports := h.reports hsome
    generalize s.system.daemon.pc = pc at hpc hreports
    cases pc <;> simp [ServerPc.creating, ServerPc.reports] at hpc hreports
  · by_contra hentered
    have hunread := (h.unread hentered).2
    generalize s.system.daemon.pc = pc at hpc hunread
    cases pc <;> simp [ServerPc.creating, ServerPc.unread] at hpc hunread

/-! ### The figures of the solvers -/

/-- What the figures of the solvers have to do with their manager. From the registration of a
solver to the call its worker has the manager locked, so it passes on the count that it made. -/
structure SolversTold (s : Load) : Prop where
  shows : s.solvers.Shows (threadCount s.solvermgr) s.figures.solvers.now s.figures.solvers.max
  rest : (∀ i, ¬ s.system.Recording i) → s.solvers.entered = 0 ∧ s.solvers.seen = true
  recording : ∀ i, s.system.Recording i →
    s.solvers.seen = true ∨ threadCount s.solvermgr = s.solvers.peak

theorem solversTold_init (appstate : Appstate) (rblist : List Cfgitem) :
    SolversTold (init appstate rblist) where
  shows := Gauge.shows_init
  rest _ := ⟨rfl, rfl⟩
  recording _ h := by cases h

theorem solvers_behind (hcalls : s.callsSolverThr b = false) :
    (s.behind b system).solvers =
      s.solvers.change (threadCount s.solvermgr) (threadCount (s.solvermgrBehind b)) := by
  simp only [behind, hcalls, Bool.false_eq_true, if_false]

/-- Without a call the figures have to do with the count what they had before. -/
theorem SolversTold.shows_change (h : SolversTold s) (hcalls : s.callsSolverThr b = false) :
    (s.behind b system).solvers.Shows (threadCount (s.solvermgrBehind b))
      (s.behind b system).figures.solvers.now (s.behind b system).figures.solvers.max := by
  rw [solvers_behind hcalls]
  change Gauge.Shows _ _ (s.figuresBehind b).solvers.now (s.figuresBehind b).solvers.max
  rw [solvers_figuresBehind hcalls]
  exact h.shows.change _

/-- A step that does not end a call, and leaves the count alone while a worker records a
solver. -/
theorem SolversTold.frame (h : SolversTold s) (hcalls : s.callsSolverThr b = false)
    (hle : threadCount (s.solvermgrBehind b) ≤ threadCount s.solvermgr)
    (hrecording : ∀ i, system.Recording i ↔ s.system.Recording i)
    (hsame : ∀ i, s.system.Recording i →
      threadCount (s.solvermgrBehind b) = threadCount s.solvermgr) :
    SolversTold (s.behind b system) := by
  have hsolvers : (s.behind b system).solvers = _ := solvers_behind hcalls
  constructor
  · exact h.shows_change hcalls
  · intro hnone
    obtain ⟨hentered, hseen⟩ := h.rest fun i hi => hnone i ((hrecording i).mpr hi)
    rw [hsolvers, Gauge.change_entered_of_le hle, h.shows.change_seen_of_le hle]
    exact ⟨hentered, hseen⟩
  · intro i hi
    have hbefore := (hrecording i).mp hi
    rw [hsolvers, h.shows.change_seen_of_le hle, Gauge.change_peak]
    refine (h.recording i hbefore).imp_right fun hpeak => ?_
    change threadCount (s.solvermgrBehind b) = _
    rw [hsame i hbefore, hpeak, Nat.max_self]

theorem solvermgrBehind_worker {i : Nat} {sess : Session}
    (hsess : s.system.sessions[i]? = some sess) (ok : Bool) :
    s.solvermgrBehind (.session i (.worker ok)) =
      sess.pc.mgrBehind ok (Nat.pair i sess.resdataCnt) s.solvermgr := by
  simp only [solvermgrBehind, hsess]

theorem callsSolverThr_worker {i : Nat} {sess : Session}
    (hsess : s.system.sessions[i]? = some sess) (ok : Bool) :
    s.callsSolverThr (.session i (.worker ok)) = decide (sess.pc = .create .statsUnlock) := by
  simp only [callsSolverThr, hsess, Option.any_some]

/-- A registration makes the count a new largest one, or one that is not. In both cases the
worker is about to pass it on. -/
theorem SolversTold.register (h : SolversTold s) (hcalls : s.callsSolverThr b = false)
    (hnone : ∀ i, ¬ s.system.Recording i) (hsome : ∃ i, system.Recording i) :
    SolversTold (s.behind b system) := by
  obtain ⟨-, hseen⟩ := h.rest hnone
  have hsolvers : (s.behind b system).solvers = _ := solvers_behind hcalls
  constructor
  · exact h.shows_change hcalls
  · intro hrest
    obtain ⟨i, hi⟩ := hsome
    exact absurd hi (hrest i)
  · intro k _
    rw [hsolvers, Gauge.change_seen, Gauge.change_peak]
    change _ ∨ threadCount (s.solvermgrBehind b) = _
    rcases le_total (threadCount (s.solvermgrBehind b)) s.solvers.peak with hle | hge
    · exact .inl ⟨hseen, hle⟩
    · exact .inr (Nat.max_eq_right hge).symm

/-- The call takes over the count that the worker has made. -/
theorem SolversTold.call (h : SolversTold s) (hcalls : s.callsSolverThr b = true)
    (hmgr : s.solvermgrBehind b = s.solvermgr) {i : Nat} (hi : s.system.Recording i) :
    SolversTold (s.behind b system) := by
  have hsolvers : (s.behind b system).solvers = s.solvers.read (threadCount s.solvermgr) := by
    simp only [behind, hcalls, if_true]
  have hfigures : (s.behind b system).figures =
      statsSolverThr s.figures (threadCount s.solvermgr) := by
    simp only [behind, figuresBehind, hcalls, if_true]
  have hseen : (s.behind b system).solvers.seen = true := by
    rw [hsolvers, Gauge.read_seen]
    exact h.recording i hi
  constructor
  · rw [hsolvers, hfigures]
    change Gauge.Shows _ (threadCount (s.solvermgrBehind b)) (threadCount s.solvermgr) _
    rw [hmgr, statsSolverThr, ThrFigures.record_max]
    exact h.shows.read
  · intro _
    exact ⟨by rw [hsolvers, Gauge.read_entered], hseen⟩
  · intro _ _
    exact .inl hseen

theorem SolversTold.workerStep (h : SolversTold s) {i : Nat} {ok : Bool} {sess sess' : Session}
    {owners : Mutex → Option Tid}
    (hguarded : Guarded (s.system.owners .solverMgr) (s.system.HoldsMutex .solverMgr))
    (hok : sess.Succeeds (.worker ok)) (hsess : s.system.sessions[i]? = some sess)
    (hstep : sess.WorkerStep (jobs i) ok sess') :
    SolversTold (s.behind (.session i (.worker ok))
      { s.system with sessions := s.system.sessions.set i sess', owners := owners }) := by
  have hcalls := callsSolverThr_worker hsess ok
  have hmgr := solvermgrBehind_worker hsess ok
  rcases hstep.recording hok with ⟨hpc, hpc'⟩ | hpc | ⟨hregister, hunlock, hsame⟩
  · apply h.register
    · simp [hcalls, hpc]
    · exact System.not_recording_of_register hguarded hsess hpc
    · exact ⟨i, (System.recording_set hsess i).mpr (by rwa [if_pos rfl])⟩
  · apply h.call (i := i)
    · simp [hcalls, hpc]
    · rw [hmgr, hpc]
      rfl
    · rw [System.Recording, hsess, Option.any_some, hpc]
      rfl
  · have hcount : threadCount (s.solvermgrBehind (.session i (.worker ok))) =
        threadCount s.solvermgr := by
      rw [hmgr, WorkerPc.threadCount_mgrBehind hregister]
    exact h.frame (by simp [hcalls, hunlock]) hcount.le (System.recording_set_of_eq hsess hsame)
      fun _ _ => hcount

theorem SolversTold.solverStep (h : SolversTold s) {i j : Nat} {ok : Bool}
    {sess sess' : Session} {d : Dispatch} {solver : Solver} {owners : Mutex → Option Tid}
    (hguarded : Guarded (s.system.owners .solverMgr) (s.system.HoldsMutex .solverMgr))
    (hsess : s.system.sessions[i]? = some sess) (hd : sess.dispatched[j]? = some d)
    (hsolver : d.solver = some solver) (hstep : sess.SolverStep (jobs i) j d solver sess') :
    SolversTold (s.behind (.session i (.solver j ok))
      { s.system with sessions := s.system.sessions.set i sess', owners := owners }) := by
  have hmgr : s.solvermgrBehind (.session i (.solver j ok)) =
      solver.pc.mgrBehind (Nat.pair i j) s.solvermgr := by
    simp only [solvermgrBehind, System.solverPc_eq hsess hd hsolver]
  apply h.frame
  · rfl
  · rw [hmgr]
    exact SolverPc.threadCount_mgrBehind_le _ _ _
  · exact System.recording_set_of_eq hsess hstep.recording
  · intro k hk
    by_cases hpc : solver.pc = .unregister .search
    · exact absurd hk (System.not_recording_of_search hguarded hsess hd hsolver hpc k)
    · rw [hmgr, SolverPc.mgrBehind_eq hpc]

theorem SolversTold.sessionStep (h : SolversTold s) {i : Nat} {a : Session.Action}
    {sess sess' : Session} {owners : Mutex → Option Tid}
    (hguarded : Guarded (s.system.owners .solverMgr) (s.system.HoldsMutex .solverMgr))
    (hok : sess.Succeeds a) (hsess : s.system.sessions[i]? = some sess)
    (hstep : sess.step (jobs i) a = some sess') :
    SolversTold (s.behind (.session i a)
      { s.system with sessions := s.system.sessions.set i sess', owners := owners }) := by
  cases a with
  | worker ok => exact h.workerStep hguarded hok hsess (Session.workerStep_cases hstep)
  | solver j ok =>
    obtain ⟨d, solver, hd, hsolver, -, hcases⟩ := Session.solverStep_cases hstep
    exact h.solverStep hguarded hsess hd hsolver hcases
  | wake =>
    obtain ⟨hpc, rfl⟩ := Session.wakeStep_cases hstep
    refine h.frame rfl le_rfl (System.recording_set_of_eq hsess ?_) fun _ _ => rfl
    rw [hpc]
    rfl
  | kill j =>
    obtain ⟨d, solver, -, -, -, -, -, rfl⟩ := Session.killStep_cases hstep
    exact h.frame rfl le_rfl (System.recording_set_of_eq hsess rfl) fun _ _ => rfl

theorem SolversTold.daemonStep (h : SolversTold s) {a : Daemon.Action} {daemon : Daemon}
    {owners : Mutex → Option Tid} :
    SolversTold (s.behind (.daemon a)
      ⟨daemon, s.system.sessions ++ System.newSessions a, owners⟩) := by
  apply h.frame
  · rfl
  · exact le_rfl
  · intro i
    unfold System.Recording
    rw [System.any_newSessions rfl]
  · exact fun _ _ => rfl

/-- When no creation is in progress every count has been passed on. -/
theorem SolversTold.rest_of_quiet (h : SolversTold s) (hquiet : s.system.Quiet) :
    s.solvers.entered = 0 ∧ s.solvers.seen = true := by
  apply h.rest
  intro i hi
  obtain ⟨sess, hsess, hrecording⟩ := (Option.any_eq_true _ _).mp hi
  have hpc := (hquiet.2.2 sess (List.mem_of_getElem? hsess)).1
  generalize sess.pc = pc at hpc hrecording
  cases pc <;> simp [WorkerPc.creating, WorkerPc.recording] at hpc hrecording

/-! ### Before the first connection -/

/-- No connection has been accepted, and nothing has happened. -/
structure Untouched (s : Load) : Prop where
  daemon : s.system.daemon.Unused
  sessions : s.system.sessions = []
  solvermgr : s.solvermgr = none
  workers : s.workers = Gauge.init
  solvers : s.solvers = Gauge.init

theorem untouched_init (appstate : Appstate) (rblist : List Cfgitem) :
    Untouched (init appstate rblist) :=
  ⟨⟨rfl, rfl, rfl⟩, rfl, rfl, rfl, rfl⟩

theorem Untouched.step (h : Untouched s) (hstep : s.step maxthreads jobs a = some s')
    (hconn : a ≠ .system (.daemon (.accept .conn))) : Untouched s' := by
  obtain ⟨hdaemon, hsessions, hmgr, hworkers, hsolvers⟩ := h
  cases a with
  | read =>
    -- the server is not in `wthread_create`
    obtain ⟨hpc, -, -⟩ := readStep_cases hstep
    have hunasked := hdaemon.server
    rw [hpc] at hunasked
    cases hunasked
  | system b =>
    obtain ⟨-, system, hsystem, rfl⟩ := systemStep_cases hstep
    cases System.step_cases hsystem with
    | @daemon b daemon owners _ _ hbehind =>
      have hne : b ≠ .accept .conn := fun heq => hconn (by rw [heq])
      obtain ⟨hunused, hcreate⟩ := hdaemon.step hbehind hne
      refine ⟨hunused, ?_, hmgr, ?_, ?_⟩
      · have hnew : System.newSessions b = [] := by
          unfold System.newSessions
          split
          · exact absurd rfl (hcreate _)
          · rfl
        change s.system.sessions ++ System.newSessions b = []
        rw [hsessions, hnew]
        rfl
      · change s.workers.change (threadCount s.system.daemon.workermgr)
          (threadCount daemon.workermgr) = Gauge.init
        rw [hworkers, hdaemon.workermgr, hunused.workermgr]
        rfl
      · change s.solvers.change (threadCount s.solvermgr) (threadCount s.solvermgr) = Gauge.init
        rw [hsolvers, hmgr]
        rfl
    | session _ _ hsess _ =>
      rw [hsessions] at hsess
      cases hsess

/-! ### The figures of a run -/

/-- The invariants of the figures. -/
structure Told (s : Load) : Prop where
  requests : s.figures.requests = 0
  workers : WorkersTold s
  solvers : SolversTold s
  untouched : s.accepted = 0 → Untouched s

theorem told_init (appstate : Appstate) (rblist : List Cfgitem) : Told (init appstate rblist) where
  requests := rfl
  workers := workersTold_init appstate rblist
  solvers := solversTold_init appstate rblist
  untouched _ := untouched_init appstate rblist

theorem Told.step (h : Told s)
    (hguarded : Guarded (s.system.owners .solverMgr) (s.system.HoldsMutex .solverMgr))
    (hok : s.Creates a) (hstep : s.step maxthreads jobs a = some s') : Told s' := by
  cases a with
  | read =>
    -- the read concerns the workers only
    obtain ⟨-, -, rfl⟩ := readStep_cases hstep
    constructor
    · exact h.requests
    · exact h.workers.read hstep
    · exact ⟨h.solvers.shows, h.solvers.rest, h.solvers.recording⟩
    · intro hzero
      exact (h.untouched hzero).step hstep nofun
  | system b =>
    obtain ⟨hready, system, hsystem, rfl⟩ := systemStep_cases hstep
    constructor
    · exact (requests_figuresBehind b).trans h.requests
    · cases System.step_cases hsystem with
      | daemon _ _ hdaemon => exact h.workers.daemonStep hready hok.1 hdaemon
      | session _ _ _ _ => exact h.workers.sessionStep rfl
    · cases System.step_cases hsystem with
      | daemon _ _ _ => exact h.solvers.daemonStep
      | session _ _ hsess hsession =>
        exact h.solvers.sessionStep hguarded (hok _ hsess) hsess hsession
    · intro hzero
      have hconn : b ≠ .daemon (.accept .conn) := by
        rintro rfl
        cases hzero
      have hbefore : s.accepted = 0 := by
        simpa only [behind, hconn, if_false] using hzero
      exact (h.untouched hbefore).step hstep fun heq => hconn (Action.system.inj heq)

/-- Seen without its figures, a run is a run of the system. -/
theorem run_system {ok : Load → Action → Prop}
    (hrun : Run (step maxthreads jobs) ok (init appstate rblist) w t) :
    ∃ v, Run (System.step maxthreads jobs) (fun _ _ => True) (System.init appstate rblist) v
      t.system := by
  refine hrun.simulate Load.system ?_
  intro s a s' _ hstep
  cases a with
  | read =>
    obtain ⟨-, -, rfl⟩ := readStep_cases hstep
    exact .inl rfl
  | system b =>
    obtain ⟨-, system, hsystem, rfl⟩ := systemStep_cases hstep
    exact .inr ⟨b, trivial, hsystem⟩

theorem told_run (hrun : Run (step maxthreads jobs) Creates (init appstate rblist) w t) :
    Told t := by
  induction hrun with
  | nil => exact told_init appstate rblist
  | snoc hrun hok hstep ih =>
    obtain ⟨v, hsystem⟩ := run_system hrun
    exact ih.step (System.guarded_run hsystem .solverMgr) hok hstep

/-- In every run whose creations succeed and every state of it in which no creation and no exit
is in progress the figures are the real load as long as no connection has been accepted. Each
of them is right: the requests as long as there were none; the present number of workers, or of
solvers, as long as none has left since a count was passed on last; the largest number of
workers when the server found the manager with so many; the largest number of solvers always. -/
theorem agrees_iff (hrun : Run (step maxthreads jobs) Creates (init appstate rblist) w t)
    (hquiet : t.system.Quiet) :
    (t.Agrees ↔ t.accepted = 0) ∧
      (t.figures.requests = t.accepted ↔ t.accepted = 0) ∧
      (t.figures.workers.now = t.system.workerCount ↔ t.workers.left = 0) ∧
      (t.figures.solvers.now = threadCount t.solvermgr ↔ t.solvers.left = 0) ∧
      (t.figures.workers.max = t.workers.peak ↔ t.workers.seen = true) ∧
      t.figures.solvers.max = t.solvers.peak := by
  have h := told_run hrun
  obtain ⟨hnum, hentered⟩ := h.workers.entered_eq_zero hquiet
  obtain ⟨hpassed, hseen⟩ := h.solvers.rest_of_quiet hquiet
  have hworkers := h.workers.shows
  simp only [pendingWorkers, hnum] at hworkers
  have hrequests : t.figures.requests = t.accepted ↔ t.accepted = 0 := by
    rw [h.requests]
    omega
  have hnow := hworkers.now_eq_iff hentered
  have hnowSolvers := h.solvers.shows.now_eq_iff hpassed
  have hmax := hworkers.largest_eq_iff
  have hmaxSolvers := h.solvers.shows.largest_eq_iff.mpr hseen
  refine ⟨⟨fun hagrees => hrequests.mp hagrees.1, fun hzero => ?_⟩, hrequests, hnow, hnowSolvers,
    hmax, hmaxSolvers⟩
  have huntouched := h.untouched hzero
  refine ⟨hrequests.mpr hzero, hnow.mpr ?_, hnowSolvers.mpr ?_, hmax.mpr ?_, hmaxSolvers⟩
  · rw [huntouched.workers]
    rfl
  · rw [huntouched.solvers]
    rfl
  · rw [huntouched.workers]
    rfl

/-! ### Runs with a worker -/

/-- The steps in which the server accepts a connection and registers the first worker for it. -/
def registered : List Action :=
  (Daemon.firstWorker.take 13).map fun a => .system (.daemon a)

/-- The server passes the count on and returns to its loop. -/
def reported : List Action := .read :: List.replicate 3 (.system (.daemon (.server true)))

/-- A worker and its two solvers do their work, and the solvers exit. -/
def answered : List Session.Action :=
  Session.sampleRun ++ List.replicate 4 (.worker true) ++ List.replicate 6 (.solver 0 true) ++
    List.replicate 6 (.solver 1 true)

/-- The first worker handles its request and exits. -/
def finished : List Action :=
  answered.map (fun a => .system (.session 0 a)) ++
    List.replicate 4 (.system (.daemon (.worker 0)))

/-- When everybody is gone the figures have neither the request nor the exits. -/
theorem agrees_iff_finished :
    ∃ t, Run (step 10 fun _ => Session.sampleJob) Creates (init .run [])
        (registered ++ reported ++ finished) t ∧ t.accepted = 1 ∧
      t.figures.workers.max = 1 ∧ t.workers.peak = 1 ∧ t.figures.solvers.max = 2 ∧ ¬ t.Agrees := by
  have hexec : (exec (step 10 fun _ => Session.sampleJob) Creates (init .run [])
      (registered ++ reported ++ finished)).any (fun t => t.system.Quiet ∧ t.accepted = 1 ∧
        t.figures.workers.max = 1 ∧ t.workers.peak = 1 ∧ t.figures.solvers.max = 2) = true := by
    decide +kernel
  obtain ⟨t, hrun, hquiet, hone, hpeaks⟩ := exists_run_of_exec hexec
  have hagrees := (agrees_iff hrun hquiet).1
  rw [hone] at hagrees
  exact ⟨t, hrun, hone, hpeaks.1, hpeaks.2.1, hpeaks.2.2, fun h => nomatch hagrees.mp h⟩

/-- A worker is counted although it has exited, and one that exits in time is not counted. -/
theorem not_agrees_finished :
    (∃ t, Run (step 10 fun _ => Session.sampleJob) Creates (init .run [])
        (registered ++ reported ++ finished) t ∧ t.system.Quiet ∧
      t.figures.requests = 0 ∧ t.accepted = 1 ∧
      t.figures.workers.now = 1 ∧ t.system.workerCount = 0 ∧
      t.figures.solvers.now = 2 ∧ threadCount t.solvermgr = 0 ∧ ¬ t.Agrees) ∧
    ∃ t, Run (step 10 fun _ => Session.sampleJob) Creates (init .run [])
        (registered ++ finished ++ reported) t ∧ t.system.Quiet ∧
      t.figures.workers.max = 0 ∧ t.workers.peak = 1 ∧ ¬ t.Agrees := by
  constructor
  · exact exists_run_of_exec (by decide +kernel)
  · exact exists_run_of_exec (by decide +kernel)

end Load

end Rblpolicyd
