import Rblpolicyd.Session.Threads

/-!
# The steps of a worker and its solvers

One step is the work of one thread between two points. The only blocking steps are
the calls that lock `resolvers_` and the sleep on the condition variable; the
mutexes that are shared with other requests are not part of a session, which thus
runs under every interleaving they allow. The counts of a session are not bounded
here, as the list of a configuration file has far fewer than `INT_MAX` entries.

## Main definitions

* `Session.workerStep`, `Session.solverStep` — one step of a thread
* `Session.Action` — which thread moves, and how the call it makes turns out
* `Session.step` — one step of the session
* `SolverPc.pending`, `WorkerPc.phase` — what the points have in common
-/

namespace Rblpolicyd

open Libc

/-- The solver has still to decrement the counter. -/
def SolverPc.pending : SolverPc → Bool
  | .lookup | .store | .lock | .decrement => true
  | _ => false

/-- The solver has `resolvers_` locked. -/
def SolverPc.holds : SolverPc → Bool
  | .decrement | .broadcast | .unlock => true
  | _ => false

/-- The solver has stored what it found. -/
def SolverPc.stored : SolverPc → Bool
  | .lookup | .store => false
  | _ => true

/-- The calls that end a thread when it is cancelled: the resolver, and the log before the
unlock of a manager that does not know the thread. -/
def SolverPc.cancellationPoint : SolverPc → Bool
  | .lookup | .store | .unregister .unlock => true
  | _ => false

/-- The parts of `worker_th`. -/
inductive Phase
  | start
  | dispatching
  | creating
  | joining
  | tallying
  | replying
  deriving DecidableEq

/-- The part of `worker_th` a point belongs to. -/
@[simp]
def WorkerPc.phase : WorkerPc → Phase
  | .start => .start
  | .dispatch | .lockDispatch | .record => .dispatching
  | .create _ | .unlockDispatch => .creating
  | .lockJoin | .testJoin | .asleep | .relock => .joining
  | .tallyTest | .tallyLock | .tallyUpdate | .tallyUnlock | .freeHostname | .freeResdata =>
    .tallying
  | .reply | .cleanup | .stats _ | .returned => .replying

/-- The record with its solver at another point. -/
def Dispatch.moveTo (d : Dispatch) (solver : Solver) (pc : SolverPc) : Dispatch :=
  { d with solver := some { solver with pc := pc } }

/-- The worker has `resolvers_` locked. After its wait it never unlocks it again, and with
an error it never locks it. -/
def WorkerPc.holds (err : Bool) : WorkerPc → Bool
  | .record | .create _ | .unlockDispatch | .testJoin => true
  | .tallyTest | .tallyLock | .tallyUpdate | .tallyUnlock | .freeHostname | .freeResdata => true
  | .reply | .cleanup | .stats _ | .returned => !err
  | .start | .dispatch | .lockDispatch | .lockJoin | .asleep | .relock => false

/-- The solver of the record has `resolvers_` locked. -/
def Dispatch.holds (d : Dispatch) : Bool := d.solver.any fun solver => solver.pc.holds

/-- The record still counts in `resolvers`: it has no solver, or one that has not decremented
the counter. -/
def Dispatch.pending (d : Dispatch) : Bool := d.solver.all fun solver => solver.pc.pending

namespace Session

/-- Solver `j` has `resolvers_` locked. -/
def solverHolds (s : Session) (j : Nat) : Bool :=
  match s.dispatched[j]? with
  | some d => d.holds
  | none => false

/-- A new record or state of the solver behind entry `j`. -/
def put (s : Session) (j : Nat) (d : Dispatch) : Session :=
  { s with dispatched := s.dispatched.set j d }

/-- What a step of `rthread_create` does to the solver: `pthread_create` starts it at once, and
`pthread_cancel` cancels it when its record cannot be allocated. -/
def createEffect (pc : CreatePc) (ok : Bool) (solver : Option Solver) : Option Solver :=
  match pc with
  | .create => if ok then some ⟨.lookup, false, false⟩ else none
  | .cancel => solver.map fun solver => { solver with cancelled := true }
  | _ => solver

/-- The worker's point behind a step of `rthread_create`. -/
def createNext (pc : CreatePc) (ok : Bool) : WorkerPc :=
  match pc.next ok with
  | some pc' => .create pc'
  | none => .unlockDispatch

/-- One step of `rthread_create(resdata[resdata_cnt])`. -/
def createStep (s : Session) (pc : CreatePc) (ok : Bool) : Option Session :=
  match s.dispatched[s.resdataCnt]? with
  | none => none
  | some d =>
    some
      { s.put s.resdataCnt { d with solver := createEffect pc ok d.solver } with
        pc := createNext pc ok }

/-- One step of `worker_th`. -/
def workerStep (job : Job) (s : Session) (ok : Bool) : Option Session :=
  match s.pc with
  | .start =>
    match prepareClient job.request with
    | none => some { s with err := true, pc := .reply }
    | some (client, rdn) =>
      some { s with client := client, rdn := rdn, rbl := job.rblist, pc := .dispatch }
  | .dispatch =>
    some { s with pc := if s.rbl ≠ [] ∧ s.tally.score < 100 then .lockDispatch else .lockJoin }
  | .lockDispatch =>
    if s.owner = none then some { s with owner := some .worker, pc := .record } else none
  | .record =>
    match s.rbl with
    | [] => none
    | rbl :: _ =>
      let resdata : Resdata :=
        { rblitem := rbl, hostname := lookupName s.rdn rbl.rbldomain, score := 0,
          hostnameFreed := false, freed := false }
      some
        { s with
          dispatched := s.dispatched ++ [⟨resdata, none⟩]
          resolvers := s.resolvers + 1
          pc := .create .initLock }
  -- the result of `rthread_create` is not looked at
  | .create pc => s.createStep pc ok
  | .unlockDispatch =>
    some
      { s with
        owner := none, resdataCnt := s.resdataCnt + 1, rbl := s.rbl.tail, pc := .dispatch }
  | .lockJoin =>
    if s.owner = none then some { s with owner := some .worker, pc := .testJoin } else none
  | .testJoin =>
    -- `pthread_cond_wait` unlocks and sleeps in one step
    if s.resolvers ≠ 0 then some { s with owner := none, pc := .asleep }
    else some { s with tally := { s.tally with score := 0 }, i := 0, pc := .tallyTest }
  | .asleep => none
  | .relock =>
    if s.owner = none then some { s with owner := some .worker, pc := .testJoin } else none
  | .tallyTest => some { s with pc := if s.i < s.resdataCnt then .tallyLock else .reply }
  | .tallyLock => some { s with pc := .tallyUpdate }
  | .tallyUpdate =>
    match s.dispatched[s.i]? with
    | none => none
    | some d =>
      some
        { s with
          tally := tallyItem s.tally d.resdata.rblitem.rbldomain d.resdata.score
          pc := .tallyUnlock }
  | .tallyUnlock => some { s with pc := .freeHostname }
  | .freeHostname =>
    match s.dispatched[s.i]? with
    | none => none
    | some d =>
      some
        { s.put s.i { d with resdata := { d.resdata with hostnameFreed := true } } with
          pc := .freeResdata }
  | .freeResdata =>
    match s.dispatched[s.i]? with
    | none => none
    | some d =>
      some
        { s.put s.i { d with resdata := { d.resdata with freed := true } } with
          i := s.i + 1, pc := .tallyTest }
  | .reply => some { s with written := replyWrites s.err s.tally, pc := .cleanup }
  | .cleanup => some { s with pc := .stats .test }
  | .stats pc =>
    some { s with pc := match pc.next ok with | some pc' => .stats pc' | none => .returned }
  | .returned => none

/-- The worker wakes up without a broadcast. -/
def wakeStep (s : Session) : Option Session :=
  if s.pc = .asleep then some { s with pc := .relock } else none

/-- One step of `solver_th` for the record `d` with number `j`. -/
def solverPcStep (job : Job) (s : Session) (j : Nat) (d : Dispatch) (solver : Solver) (ok : Bool) :
    Option Session :=
  match solver.pc with
  | .lookup => some (s.put j (d.moveTo solver .store))
  | .store =>
    let score := solverScore d.resdata.rblitem.weight (job.answer j)
    some (s.put j { d.moveTo solver .lock with resdata := { d.resdata with score := score } })
  | .lock =>
    if s.owner = none then
      some { s.put j (d.moveTo solver .decrement) with owner := some (.solver j) }
    else none
  | .decrement =>
    some { s.put j (d.moveTo solver .broadcast) with resolvers := s.resolvers - 1 }
  | .broadcast =>
    let pc := if s.pc = .asleep then .relock else s.pc
    some { s.put j (d.moveTo solver .unlock) with pc := pc }
  | .unlock => some { s.put j (d.moveTo solver (.stats .test)) with owner := none }
  | .stats pc =>
    some (s.put j (d.moveTo solver (match pc.next ok with
      | some pc' => .stats pc'
      | none => .unregister .lock)))
  | .unregister pc =>
    some (s.put j (d.moveTo solver (match pc.next with
      | some pc' => .unregister pc'
      | none => .returned)))
  | .returned => none

/-- One step of solver `j`. -/
def solverStep (job : Job) (s : Session) (j : Nat) (ok : Bool) : Option Session :=
  match s.dispatched[j]? with
  | none => none
  | some d =>
    match d.solver with
    | none => none
    | some solver => if solver.killed then none else s.solverPcStep job j d solver ok

/-- A cancelled solver ends in a call that is a cancellation point. -/
def killStep (s : Session) (j : Nat) : Option Session :=
  match s.dispatched[j]? with
  | none => none
  | some d =>
    match d.solver with
    | none => none
    | some solver =>
      if solver.cancelled ∧ !solver.killed ∧ solver.pc.cancellationPoint then
        some (s.put j { d with solver := some { solver with killed := true } })
      else none

/-- A thread takes a step, with the outcome of the call it makes; or the worker wakes up by
itself, or a cancelled solver ends. -/
inductive Action
  | worker (ok : Bool)
  | wake
  | solver (j : Nat) (ok : Bool)
  | kill (j : Nat)
  deriving DecidableEq

/-- One step of the session. -/
def step (job : Job) (s : Session) : Action → Option Session
  | .worker ok => s.workerStep job ok
  | .wake => s.wakeStep
  | .solver j ok => s.solverStep job j ok
  | .kill j => s.killStep j

end Session

end Rblpolicyd
