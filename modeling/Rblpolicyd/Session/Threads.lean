import Rblpolicyd.Request.Client
import Rblpolicyd.Verdict.Lookup
import Rblpolicyd.Verdict.Tally
import Rblpolicyd.Config.Read

/-!
# The threads of one request

A connection is handled by a worker thread, which starts a solver thread for every
blacklist and waits for all of them. This module names the points between two
steps of either thread, the calls they make included, and what a worker shares
with its solvers: one record each, the number of solvers that have not
finished, and the mutex and condition variable on the worker's stack.

## Main definitions

* `StatsPc`, `UnregisterPc`, `CreatePc` — the points of the calls both threads make
* `SolverPc`, `WorkerPc` — the points of `solver_th` and `worker_th`
* `Resdata`, `Solver`, `Dispatch` — a record, a thread, and both of one blacklist
* `Job`, `Session` — what a worker works on, and the state of its threads
-/

namespace Rblpolicyd

open Libc

/-- The points of `stats_worker_time` and `stats_solver_time`. -/
inductive StatsPc
  | test
  | initLock
  | initUnlock
  | lock
  | unlock
  deriving DecidableEq

/-- The step behind each point; `initialised` is what the test of `init` finds, and `none`
returns. -/
def StatsPc.next (initialised : Bool) : StatsPc → Option StatsPc
  | .test => some (if initialised then .lock else .initLock)
  | .initLock => some .initUnlock
  | .initUnlock => some .lock
  | .lock => some .unlock
  | .unlock => none

/-- The points of `thr_unregister`. -/
inductive UnregisterPc
  | lock
  | search
  | unlock
  deriving DecidableEq

/-- The step behind each point, `none` returns. -/
def UnregisterPc.next : UnregisterPc → Option UnregisterPc
  | .lock => some .search
  | .search => some .unlock
  | .unlock => none

/-- The points of `rthread_create`. -/
inductive CreatePc
  | initLock
  | initUnlock
  | lock
  | create
  | register
  | cancel
  | statsLock
  | statsUnlock
  | unlock
  deriving DecidableEq

/-- The step behind each point; `ok` is the outcome of `pthread_create` and of the
allocation in `thr_register`, and `none` returns. -/
def CreatePc.next (ok : Bool) : CreatePc → Option CreatePc
  | .initLock => some .initUnlock
  | .initUnlock => some .lock
  | .lock => some .create
  | .create => some (if ok then .register else .unlock)
  | .register => some (if ok then .statsLock else .cancel)
  | .cancel => some .unlock
  | .statsLock => some .statsUnlock
  | .statsUnlock => some .unlock
  | .unlock => none

/-- The points of `solver_th`. -/
inductive SolverPc
  | lookup
  | store
  | lock
  | decrement
  | broadcast
  | unlock
  | stats (pc : StatsPc)
  | unregister (pc : UnregisterPc)
  | returned
  deriving DecidableEq

/-- The points of `worker_th`, to the call of `wthread_exit`. -/
inductive WorkerPc
  | start
  | dispatch
  | lockDispatch
  | record
  | create (pc : CreatePc)
  | unlockDispatch
  | lockJoin
  | testJoin
  | asleep
  | relock
  | tallyTest
  | tallyLock
  | tallyUpdate
  | tallyUnlock
  | freeHostname
  | freeResdata
  | reply
  | cleanup
  | stats (pc : StatsPc)
  | returned
  deriving DecidableEq

/-- `resdata_t`: the blacklist, the name to resolve and the score. The pointers to the
worker's counter, mutex and condition are those of the session. -/
structure Resdata where
  rblitem : Cfgitem
  hostname : Bytes
  score : Int
  hostnameFreed : Bool
  freed : Bool
  deriving DecidableEq

/-- A solver thread. -/
structure Solver where
  pc : SolverPc
  cancelled : Bool
  killed : Bool
  deriving DecidableEq

/-- A record and the solver that was created for it, if it was. -/
structure Dispatch where
  resdata : Resdata
  solver : Option Solver
  deriving DecidableEq

/-- The threads that take `resolvers_`. -/
inductive Party
  | worker
  | solver (j : Nat)
  deriving DecidableEq

/-- What a worker works on: the request on its connection, the list at `rblist`, and the
answer of the resolver to each lookup. -/
structure Job where
  request : ClientRequest
  rblist : List Cfgitem
  answer : Nat → Option Hostent

/-- A worker with its solvers: the worker's locals, the owner of `resolvers_`, and what was
passed to `write`. -/
structure Session where
  pc : WorkerPc
  err : Bool
  client : Bytes
  rdn : Bytes
  rbl : List Cfgitem
  resolvers : Int
  owner : Option Party
  dispatched : List Dispatch
  resdataCnt : Nat
  i : Nat
  tally : Tally
  written : List (Option Bytes)
  deriving DecidableEq

/-- A worker at its start. -/
def Session.init : Session where
  pc := .start
  err := false
  client := []
  rdn := []
  rbl := []
  resolvers := 0
  owner := none
  dispatched := []
  resdataCnt := 0
  i := 0
  tally := Tally.init
  written := []

end Rblpolicyd
