import Rblpolicyd.Config.Read
import Rblpolicyd.Daemon.Manager
import Rblpolicyd.Session.Threads

/-!
# The accept loop and its workers

The server thread accepts connections and creates a worker for each, reloads the
configuration, and leaves its loop when it is told to; `main` frees the list behind
it. Workers run beside it and take themselves out of the manager's list at their
end. A signal may set the state of the daemon between any two steps. What a worker
does before its exit is one phase here.

## Main definitions

* `ServerPc`, `PoolWorker`, `Daemon` — the points of the server thread, a worker, the state
* `Daemon.serverStep`, `Daemon.workerStep` — one step of a thread
* `Daemon.Action`, `Daemon.step` — all steps, with the outcomes of the calls they make
-/

namespace Rblpolicyd

/-- The points of `server` and of `wthread_create` and `thr_waitcomplete` inside it, and of
`main` behind it. -/
inductive ServerPc
  | loop
  | accept
  | dispatch
  | createInitLock
  | createInit
  | createInitUnlock
  | createLock
  | createPoll (err : Nat)
  | createAppstate (err : Nat)
  | createLimit (err : Nat)
  | createThread
  | createRegister (tid : Nat)
  | createCancel
  | createClose
  | createUnlock (res : Int)
  | createStatsLock
  | createStatsUnlock
  | created (res : Int)
  | closeConn
  | direct
  | directUnregister (pc : UnregisterPc)
  | waitManager
  | reloadWait (err : Nat)
  | reloadRead
  | reloadFree (newlist : List Cfgitem)
  | reloadReset
  | returned
  | mainFree
  | ended
  deriving DecidableEq

/-- Where a worker thread is: in `worker_th` in front of `wthread_exit`, in `thr_unregister`,
or gone; a worker that its cancellation ends in `worker_th` never gets to `wthread_exit`. -/
inductive WorkerPhase
  | body
  | unregister (pc : UnregisterPc)
  | terminated
  | killed
  deriving DecidableEq

/-- The thread has ended. -/
def WorkerPhase.gone : WorkerPhase → Bool
  | .terminated | .killed => true
  | .body | .unregister _ => false

/-- The worker has not called `wthread_exit`: it is in `worker_th`, or has ended there. -/
def WorkerPhase.beforeExit : WorkerPhase → Bool
  | .body | .killed => true
  | .unregister _ | .terminated => false

/-- What a worker becomes when its cancellation ends it. -/
def WorkerPhase.ended : WorkerPhase → WorkerPhase
  | .body | .killed => .killed
  | .unregister _ | .terminated => .terminated

/-- A thread that `wthread_create` created. -/
structure PoolWorker where
  tid : Nat
  phase : WorkerPhase
  cancelled : Bool
  deriving DecidableEq

/-- The threads that lock a manager. -/
inductive Thread
  | server
  | worker (i : Nat)
  deriving DecidableEq

/-- The places where the process ends. -/
inductive ExitSite
  | main
  | waitcomplete
  | wthreadExit
  | xalloc
  deriving DecidableEq

/-- The daemon: the server thread, the globals, the owners of `worker_init_mutex` and of the
manager's mutex, and the workers in the order of their creation. -/
structure Daemon where
  pc : ServerPc
  appstate : Appstate
  rblist : List Cfgitem
  workermgr : Option ThrMgr
  initOwner : Option Thread
  mgrOwner : Option Thread
  workers : List PoolWorker
  exited : Option ExitSite
  deriving DecidableEq

namespace Daemon

/-- The daemon when `main` calls `server`, in any state and with the list it has read. -/
def init (appstate : Appstate) (rblist : List Cfgitem) : Daemon where
  pc := .loop
  appstate := appstate
  rblist := rblist
  workermgr := none
  initOwner := none
  mgrOwner := none
  workers := []
  exited := none

/-- The id of the server thread. -/
def serverTid : Nat := 0

/-- The ids of the threads that have not terminated. -/
def liveTids (s : Daemon) : List Nat :=
  serverTid :: (s.workers.filter fun worker => !worker.phase.gone).map PoolWorker.tid

/-- What `accept` returns: a connection, or an error that is `EINTR` or not. -/
inductive AcceptResult
  | conn
  | eintr
  | failed
  deriving DecidableEq

/-- The call of `accept` and what `server` does with its result. -/
def acceptStep (s : Daemon) (res : AcceptResult) : Option Daemon :=
  if s.pc ≠ .accept then none
  else
    match res with
    | .conn => some { s with pc := .dispatch }
    | .eintr => some { s with pc := if s.appstate = .run then .loop else .returned }
    | .failed =>
      some
        { s with
          appstate := if s.appstate = .run then .error else s.appstate
          pc := .returned }

/-- The call of `pthread_create`; the id of the new thread is not that of a live one. -/
def createStep (s : Daemon) (thread : Option Nat) : Option Daemon :=
  if s.pc ≠ .createThread then none
  else
    match thread with
    | none => some { s with pc := .createUnlock (-errThrSyserr) }
    | some tid =>
      if tid ∈ s.liveTids then none
      else
        some
          { s with
            workers := s.workers ++ [⟨tid, .body, false⟩]
            pc := .createRegister tid }

/-- The call of `cfg_read`: the new list, or none. -/
def readStep (s : Daemon) (newlist : Option (List Cfgitem)) : Option Daemon :=
  if s.pc ≠ .reloadRead then none
  else
    match newlist with
    | none => some { s with pc := .reloadReset }
    | some newlist => some { s with pc := .reloadFree newlist }

/-- `pthread_cancel` of the thread that was created last. -/
def cancelLast (workers : List PoolWorker) : List PoolWorker :=
  workers.modify (workers.length - 1) fun worker => { worker with cancelled := true }

/-- One step of the server thread; `ok` is the outcome of the allocation in `thr_register`. -/
def serverStep (maxthreads : Int) (s : Daemon) (ok : Bool) : Option Daemon :=
  match s.pc with
  -- while (appstate != APP_EXIT && appstate != APP_ERROR)
  | .loop =>
    some { s with pc := if s.appstate ≠ .exit ∧ s.appstate ≠ .error then .accept else .returned }
  | .accept => none
  -- switch (appstate)
  | .dispatch =>
    match s.appstate with
    | .run => some { s with pc := if maxthreads > 0 then .createInitLock else .direct }
    | .reload => some { s with pc := .waitManager }
    | .exit | .error => some { s with pc := .loop }
  -- wthread_create
  | .createInitLock =>
    if s.initOwner = none then some { s with initOwner := some .server, pc := .createInit }
    else none
  | .createInit =>
    some { s with workermgr := s.workermgr.or (some ThrMgr.init), pc := .createInitUnlock }
  | .createInitUnlock => some { s with initOwner := none, pc := .createLock }
  | .createLock =>
    if s.mgrOwner = none then some { s with mgrOwner := some .server, pc := .createPoll 20 }
    else none
  | .createPoll err =>
    match s.workermgr with
    | none => none
    | some mgr =>
      -- a round of the loop sleeps with the manager locked
      if err > 0 ∧ mgr.full maxthreads ∧ s.appstate = .run then
        some { s with pc := .createPoll (err - 1) }
      else some { s with pc := .createAppstate err }
  | .createAppstate err =>
    some
      { s with
        pc := if s.appstate ≠ .run then .createUnlock (-errThrAppstate) else .createLimit err }
  | .createLimit err =>
    some { s with pc := if err ≤ 0 then .createUnlock (-errThrToomany) else .createThread }
  | .createThread => none
  | .createRegister tid =>
    match s.workermgr with
    | none => none
    | some mgr =>
      let (res, mgr) := thrRegister ok mgr tid
      some { s with
        workermgr := some mgr, pc := if res ≠ 0 then .createCancel else .createUnlock 0 }
  | .createCancel => some { s with workers := cancelLast s.workers, pc := .createClose }
  | .createClose => some { s with pc := .createUnlock (-errThrSyserr) }
  | .createUnlock res =>
    some { s with mgrOwner := none, pc := if res = 0 then .createStatsLock else .created res }
  | .createStatsLock => some { s with pc := .createStatsUnlock }
  | .createStatsUnlock => some { s with pc := .created 0 }
  | .created res => some { s with pc := if res ≠ 0 then .closeConn else .loop }
  | .closeConn => some { s with pc := .loop }
  -- worker_th in the server thread, and its wthread_exit
  | .direct =>
    match s.workermgr with
    | none => some { s with exited := some .wthreadExit }
    | some _ => some { s with pc := .directUnregister .lock }
  | .directUnregister .lock =>
    if s.mgrOwner = none then
      some { s with mgrOwner := some .server, pc := .directUnregister .search }
    else none
  | .directUnregister .search =>
    match s.workermgr with
    | none => none
    | some mgr =>
      some
        { s with
          workermgr := some (thrUnregister mgr serverTid).2
          pc := .directUnregister .unlock }
  | .directUnregister .unlock => some { s with mgrOwner := none, pc := .loop }
  -- thr_waitcomplete
  | .waitManager =>
    match s.workermgr with
    | none => some { s with exited := some .waitcomplete }
    | some _ => some { s with pc := .reloadWait 400 }
  | .reloadWait err =>
    match s.workermgr with
    | none => none
    | some mgr =>
      if err > 0 ∧ mgr.nthreads ≠ 0 ∧ s.appstate ≠ .exit then
        some { s with pc := .reloadWait (err - 1) }
      else
        -- the rounds that are left are taken for workers that are alive
        some { s with pc := if err ≠ 0 then .reloadReset else .reloadRead }
  | .reloadRead => none
  | .reloadFree newlist => some { s with rblist := newlist, pc := .reloadReset }
  | .reloadReset => some { s with appstate := .run, pc := .loop }
  -- main behind server
  | .returned => some { s with pc := .mainFree }
  | .mainFree => some { s with rblist := [], pc := .ended }
  | .ended => some { s with exited := some .main }

/-- Worker `i` in another phase. -/
def setPhase (s : Daemon) (i : Nat) (worker : PoolWorker) (phase : WorkerPhase) : Daemon :=
  { s with workers := s.workers.set i { worker with phase := phase } }

/-- One step of worker `i`, from its call of `wthread_exit` on. -/
def workerStep (s : Daemon) (i : Nat) : Option Daemon :=
  match s.workers[i]? with
  | none => none
  | some worker =>
    match worker.phase with
    | .body =>
      match s.workermgr with
      | none => some { s with exited := some .wthreadExit }
      | some _ => some (s.setPhase i worker (.unregister .lock))
    | .unregister .lock =>
      if s.mgrOwner = none then
        some { s.setPhase i worker (.unregister .search) with mgrOwner := some (.worker i) }
      else none
    | .unregister .search =>
      match s.workermgr with
      | none => none
      | some mgr =>
        some
          { s.setPhase i worker (.unregister .unlock) with
            workermgr := some (thrUnregister mgr worker.tid).2 }
    | .unregister .unlock => some { s.setPhase i worker .terminated with mgrOwner := none }
    | .terminated | .killed => none

/-- A cancelled worker ends in a call that is a cancellation point: in `worker_th`, or in the
log in front of the unlock of a manager that does not know it. -/
def killStep (s : Daemon) (i : Nat) : Option Daemon :=
  match s.workers[i]? with
  | none => none
  | some worker =>
    if worker.cancelled ∧ (worker.phase = .body ∨ worker.phase = .unregister .unlock) then
      some (s.setPhase i worker worker.phase.ended)
    else none

/-- A thread takes a step; a call returns; a cancelled worker ends; `xmalloc`, `xrealloc` or
`xstrdup` ends the process, in a worker or in the server thread's own call of `worker_th`; a
signal arrives; or a reload is asked for, for which the daemon has no signal yet. -/
inductive Action
  | server (ok : Bool)
  | accept (res : AcceptResult)
  | create (thread : Option Nat)
  | read (newlist : Option (List Cfgitem))
  | worker (i : Nat)
  | kill (i : Nat)
  | xalloc (thread : Thread)
  | sigterm
  | reload
  deriving DecidableEq

/-- The thread is in `worker_th`. -/
def inWorkerTh (s : Daemon) : Thread → Bool
  | .server => s.pc = .direct
  | .worker i => s.workers[i]?.any fun worker => worker.phase = .body

/-- One step of the daemon, while the process runs. -/
def step (maxthreads : Int) (s : Daemon) (a : Action) : Option Daemon :=
  if s.exited ≠ none then none
  else
    match a with
    | .server ok => s.serverStep maxthreads ok
    | .accept res => s.acceptStep res
    | .create thread => s.createStep thread
    | .read newlist => s.readStep newlist
    | .worker i => s.workerStep i
    | .kill i => s.killStep i
    | .xalloc thread => if s.inWorkerTh thread then some { s with exited := some .xalloc } else none
    | .sigterm => some { s with appstate := .exit }
    | .reload => if s.appstate = .run then some { s with appstate := .reload } else none

end Daemon

end Rblpolicyd
