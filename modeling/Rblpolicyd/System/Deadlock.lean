import Rblpolicyd.Daemon.ListLifetime
import Rblpolicyd.Daemon.Requests
import Rblpolicyd.Semantics.WaitsFor
import Rblpolicyd.System.Coherence

/-!
# No deadlock

A thread of the system waits for a mutex, or for the wake-up on its condition variable,
which the solvers of its session hold between them. Ranked from the wake-up over the
`resolvers_` of a session and the mutexes of the managers to those of the list and the
statistics, every thread waits only for what ranks above all it holds. So whenever a
worker or a solver has not finished, some thread can go on.

## Main definitions

* `Resource`, `Resource.rank` — what threads wait for, and its place in the order
* `System.Waits`, `System.Holds` — who is blocked on a resource, who keeps it from others
* `System.Live` — the threads that have not finished, and a creation in progress

## Main results

* `System.Coherent.rankOrdered` — threads wait upwards only
* `System.deadlockFree` — some unfinished thread has a step
-/

namespace Rblpolicyd

open Semantics

/-- What threads wait for: the wake-up of worker `i`, the `resolvers_` of its session, and the
mutexes. -/
inductive Resource
  | ready (i : Nat)
  | resolvers (i : Nat)
  | workerInit
  | workerMgr
  | shared (m : Mutex)
  deriving DecidableEq

/-- The place of a shared mutex in the order: the managers, then the list and the statistics. -/
def Mutex.rank : Mutex → Nat
  | .solverInit | .solverMgr => 2
  | .rblist | .workerThr | .workerTime | .solverThr | .solverTime => 3

/-- The place of a resource in the order. -/
def Resource.rank : Resource → Nat
  | .ready _ => 0
  | .resolvers _ => 1
  | .workerInit | .workerMgr => 2
  | .shared m => m.rank

/-- The points of a call of `wthread_create` in progress. -/
def ServerPc.creating : ServerPc → Bool
  | .createInitLock | .createInit | .createInitUnlock | .createLock => true
  | .createPoll _ | .createAppstate _ | .createLimit _ | .createThread | .createRegister _ => true
  | .createCancel | .createClose | .createUnlock _ | .createStatsLock | .createStatsUnlock => true
  | _ => false

/-- A thread of the daemon as a thread of the system. -/
def Thread.tid : Thread → Tid
  | .server => .server
  | .worker i => .worker i

namespace System

variable {maxthreads : Int} {jobs : Nat → Job} {s t : System} {i j : Nat} {p : Tid} {r : Resource}
  {sess : Session} {d : Dispatch} {solver : Solver} {worker : PoolWorker} {m : Mutex}
  {w : List Action}

/-- The thread is blocked on the resource. -/
inductive Waits (s : System) : Tid → Resource → Prop
  | init (hpc : s.daemon.pc = .createInitLock) (hbusy : s.daemon.initOwner ≠ none) :
      Waits s .server .workerInit
  | serverMgr (hpc : s.daemon.pc = .createLock) (hbusy : s.daemon.mgrOwner ≠ none) :
      Waits s .server .workerMgr
  | serverShared {m : Mutex} (hop : s.daemon.pc.lockOp = .lock m) (hbusy : s.owners m ≠ none) :
      Waits s .server (.shared m)
  | ready {i : Nat} {sess : Session} (hsess : s.sessions[i]? = some sess)
      (hpc : sess.pc = .asleep) : Waits s (.worker i) (.ready i)
  | workerResolvers {i : Nat} {sess : Session} (hsess : s.sessions[i]? = some sess)
      (hpc : sess.pc.locks = true) (hbusy : sess.owner ≠ none) :
      Waits s (.worker i) (.resolvers i)
  | workerMgr {i : Nat} {worker : PoolWorker} (hworker : s.daemon.workers[i]? = some worker)
      (hphase : worker.phase = .unregister .lock) (hbusy : s.daemon.mgrOwner ≠ none) :
      Waits s (.worker i) .workerMgr
  | workerShared {i : Nat} {sess : Session} {m : Mutex} (hsess : s.sessions[i]? = some sess)
      (hop : sess.pc.lockOp = .lock m) (hbusy : s.owners m ≠ none) :
      Waits s (.worker i) (.shared m)
  | solverResolvers {i j : Nat} {sess : Session} (hsess : s.sessions[i]? = some sess)
      (hpc : s.solverPc i j = some .lock) (hbusy : sess.owner ≠ none) :
      Waits s (.solver i j) (.resolvers i)
  | solverShared {i j : Nat} {pc : SolverPc} {m : Mutex} (hpc : s.solverPc i j = some pc)
      (hop : pc.lockOp = .lock m) (hbusy : s.owners m ≠ none) :
      Waits s (.solver i j) (.shared m)

/-- The thread keeps the resource from others. -/
inductive Holds (s : System) : Tid → Resource → Prop
  | ready {i j : Nat} {pc : SolverPc} (hpc : s.solverPc i j = some pc)
      (hwaker : pc.pending = true ∨ pc = .broadcast) : Holds s (.solver i j) (.ready i)
  | workerResolvers {i : Nat} {sess : Session} (hsess : s.sessions[i]? = some sess)
      (hholds : sess.pc.holds sess.err = true) : Holds s (.worker i) (.resolvers i)
  | solverResolvers {i j : Nat} {pc : SolverPc} (hpc : s.solverPc i j = some pc)
      (hholds : pc.holds = true) : Holds s (.solver i j) (.resolvers i)
  | init {thread : Thread} (hholds : s.daemon.HoldsInit thread) : Holds s thread.tid .workerInit
  | mgr {thread : Thread} (hholds : s.daemon.HoldsMgr thread) : Holds s thread.tid .workerMgr
  | shared {p : Tid} {m : Mutex} (hholds : s.HoldsMutex m p) : Holds s p (.shared m)

/-- The threads that have not finished; of the server, a call of `wthread_create` only. -/
def Live (s : System) : Tid → Prop
  | .server => s.daemon.pc.creating = true
  | .worker i => ∃ worker, s.daemon.workers[i]? = some worker ∧ worker.phase.gone = false
  | .solver i j => ∃ pc, s.solverPc i j = some pc ∧ pc ≠ .returned

/-- The process runs, and some worker or solver has not finished. -/
def Unfinished (s : System) : Prop :=
  s.daemon.exited = none ∧ ∃ p, p ≠ .server ∧ s.Live p

/-- The thread can take a step in which threads can be created and memory is found. -/
def Enabled (maxthreads : Int) (jobs : Nat → Job) (s : System) (p : Tid) : Prop :=
  ∃ a t, a.thread = some p ∧ s.Succeeds a ∧ s.step maxthreads jobs a = some t

/-! ### The points of a solver -/

theorem solverPc_eq (hsess : s.sessions[i]? = some sess) (hd : sess.dispatched[j]? = some d)
    (hsolver : d.solver = some solver) : s.solverPc i j = some solver.pc := by
  simp [solverPc, hsess, hd, hsolver]

theorem exists_of_solverPc {pc : SolverPc} (h : s.solverPc i j = some pc) :
    ∃ (sess : Session) (d : Dispatch) (solver : Solver), s.sessions[i]? = some sess ∧
      sess.dispatched[j]? = some d ∧ d.solver = some solver ∧ solver.pc = pc := by
  obtain ⟨sess, hsess, h⟩ := Option.bind_eq_some_iff.mp h
  obtain ⟨d, hd, h⟩ := Option.bind_eq_some_iff.mp h
  obtain ⟨solver, hsolver, h⟩ := Option.bind_eq_some_iff.mp h
  exact ⟨sess, d, solver, hsess, hd, hsolver, Option.some.inj h⟩

/-! ### Who holds a resource has not finished -/

theorem Coherent.exists_session (h : Coherent maxthreads jobs s)
    (hworker : s.daemon.workers[i]? = some worker) : ∃ sess, s.sessions[i]? = some sess := by
  have hlt := (List.getElem?_eq_some_iff.mp hworker).1
  rw [← h.length] at hlt
  exact ⟨_, List.getElem?_eq_getElem hlt⟩

/-- A session that has not returned has a worker in its body. -/
theorem Coherent.exists_worker (h : Coherent maxthreads jobs s)
    (hsess : s.sessions[i]? = some sess) (hpc : sess.pc ≠ .returned) :
    ∃ worker, s.daemon.workers[i]? = some worker ∧ worker.phase = .body := by
  have hlt := (List.getElem?_eq_some_iff.mp hsess).1
  rw [h.length] at hlt
  refine ⟨_, List.getElem?_eq_getElem hlt, ?_⟩
  by_contra hphase
  exact hpc (h.returned i _ sess (List.getElem?_eq_getElem hlt) hsess hphase)

theorem Coherent.live_of_session (h : Coherent maxthreads jobs s)
    (hsess : s.sessions[i]? = some sess) (hpc : sess.pc ≠ .returned) : s.Live (.worker i) := by
  obtain ⟨worker, hworker, hphase⟩ := h.exists_worker hsess hpc
  refine ⟨worker, hworker, ?_⟩
  rw [hphase]
  rfl

theorem Coherent.live_of_holdsMgr (h : Coherent maxthreads jobs s) (hmax : 0 < maxthreads)
    {thread : Thread} (hholds : s.daemon.HoldsMgr thread) : s.Live thread.tid := by
  cases thread with
  | server =>
    have hworks := h.pool.locking.disabled
    change s.daemon.pc.holdsMgr = true at hholds
    change s.daemon.pc.creating = true
    generalize s.daemon.pc = pc at *
    cases pc with
    | directUnregister pc => exact absurd hmax (hworks rfl)
    | _ => first | rfl | cases hholds
  | worker i =>
    obtain ⟨worker, hworker, hphase⟩ := (Option.any_eq_true _ _).mp hholds
    refine ⟨worker, hworker, ?_⟩
    generalize worker.phase = phase at hphase
    cases phase <;> first | rfl | cases hphase

theorem Coherent.live_of_holdsMutex (h : Coherent maxthreads jobs s)
    (hholds : s.HoldsMutex m p) : s.Live p := by
  cases p with
  | server =>
    change s.daemon.pc.holdsMutex m = true at hholds
    change s.daemon.pc.creating = true
    generalize s.daemon.pc = pc at *
    cases pc <;> first | rfl | cases hholds
  | worker i =>
    obtain ⟨sess, hsess, hmutex⟩ := (Option.any_eq_true _ _).mp hholds
    apply h.live_of_session hsess
    intro hpc
    rw [hpc] at hmutex
    cases hmutex
  | solver i j =>
    obtain ⟨sess, hsess, hmutex⟩ := (Option.any_eq_true _ _).mp hholds
    obtain ⟨d, hd, hmutex⟩ := (Option.any_eq_true _ _).mp hmutex
    obtain ⟨solver, hsolver, hmutex⟩ := (Option.any_eq_true _ _).mp hmutex
    refine ⟨solver.pc, solverPc_eq hsess hd hsolver, ?_⟩
    intro hpc
    rw [hpc] at hmutex
    cases hmutex

/-- A sleeping worker waits for one of its solvers. -/
theorem Coherent.exists_waker (h : Coherent maxthreads jobs s)
    (hsess : s.sessions[i]? = some sess) (hasleep : sess.pc = .asleep) :
    ∃ q, s.Live q ∧ s.Holds q (.ready i) := by
  obtain ⟨j, d, solver, hd, hsolver, hwaker⟩ := (h.healthy i sess hsess).exists_waker hasleep
  have hpc := solverPc_eq hsess hd hsolver
  refine ⟨.solver i j, ⟨solver.pc, hpc, ?_⟩, .ready hpc hwaker⟩
  intro hreturned
  rw [hreturned] at hwaker
  rcases hwaker with hwaker | hwaker <;> cases hwaker

/-- The owner of `resolvers_` has not finished while it keeps another thread waiting. -/
theorem Coherent.exists_owner (h : Coherent maxthreads jobs s)
    (hsess : s.sessions[i]? = some sess) (hbusy : sess.owner ≠ none)
    (hlive : sess.Holds .worker → sess.pc ≠ .returned) :
    ∃ q, s.Live q ∧ s.Holds q (.resolvers i) := by
  obtain ⟨party, howner⟩ := Option.ne_none_iff_exists'.mp hbusy
  have hholds := ((h.healthy i sess hsess).inv.locking.guarded party).mp howner
  cases party with
  | worker =>
    exact ⟨.worker i, h.live_of_session hsess (hlive hholds), .workerResolvers hsess hholds⟩
  | solver k =>
    have hinside : sess.solverHolds k = true := hholds
    unfold Session.solverHolds at hinside
    split at hinside
    · rename_i d hd
      obtain ⟨solver, hsolver, hinside⟩ := (Option.any_eq_true _ _).mp hinside
      have hpc := solverPc_eq hsess hd hsolver
      refine ⟨.solver i k, ⟨solver.pc, hpc, ?_⟩, .solverResolvers hpc hinside⟩
      intro hreturned
      rw [hreturned] at hinside
      cases hinside
    · cases hinside

/-- Whoever waits for a resource waits for a thread that has not finished. -/
theorem Coherent.held_of_waits (h : Coherent maxthreads jobs s) (hmax : 0 < maxthreads)
    (hwaits : s.Waits p r) : ∃ q, s.Live q ∧ s.Holds q r := by
  -- every mutex that is taken is held by a thread whose point is inside
  have hmgr : s.daemon.mgrOwner ≠ none → ∃ q, s.Live q ∧ s.Holds q .workerMgr := by
    intro hbusy
    obtain ⟨thread, howner⟩ := Option.ne_none_iff_exists'.mp hbusy
    have hholds := (h.pool.locking.guarded thread).mp howner
    exact ⟨thread.tid, h.live_of_holdsMgr hmax hholds, .mgr hholds⟩
  have hshared : ∀ m, s.owners m ≠ none → ∃ q, s.Live q ∧ s.Holds q (.shared m) := by
    intro m hbusy
    obtain ⟨q, howner⟩ := Option.ne_none_iff_exists'.mp hbusy
    have hholds := (h.guarded m q).mp howner
    exact ⟨q, h.live_of_holdsMutex hholds, .shared hholds⟩
  cases hwaits with
  | init hpc hbusy => exact absurd (h.pool.locking.initOwner_eq_none (by rw [hpc]; rfl)) hbusy
  | serverMgr _ hbusy => exact hmgr hbusy
  | serverShared _ hbusy => exact hshared _ hbusy
  | ready hsess hasleep => exact h.exists_waker hsess hasleep
  | workerResolvers hsess hpc hbusy =>
    refine h.exists_owner hsess hbusy fun _ hreturned => ?_
    rw [hreturned] at hpc
    cases hpc
  | workerMgr _ _ hbusy => exact hmgr hbusy
  | workerShared _ _ hbusy => exact hshared _ hbusy
  | solverResolvers hsess hpc hbusy =>
    obtain ⟨sess', d, solver, hsess', hd, hsolver, hlock⟩ := exists_of_solverPc hpc
    obtain rfl := Option.some.inj (hsess.symm.trans hsess')
    refine h.exists_owner hsess hbusy fun _ hreturned => ?_
    -- the tally is not reached before this solver has decremented the counter
    have hphase := (h.healthy _ _ hsess).phase_of_pending hd hsolver (by rw [hlock]; rfl)
    rw [hreturned] at hphase
    exact hphase.2 rfl
  | solverShared _ _ hbusy => exact hshared _ hbusy

/-! ### The order -/

/-- What `rthread_create` locks ranks above what it has locked. -/
theorem CreatePc.rank_lt {pc : CreatePc} {m m' : Mutex} (hop : pc.lockOp = .lock m')
    (hholds : pc.holdsMutex m = true) : m.rank < m'.rank := by
  cases pc with
  | statsLock =>
    obtain rfl := LockOp.lock.inj hop
    obtain rfl : Mutex.solverMgr = m := by simpa [CreatePc.holdsMutex] using hholds
    decide
  | _ => first | cases hholds | cases hop

theorem WorkerPc.rank_lt {pc : WorkerPc} {m m' : Mutex} (hop : pc.lockOp = .lock m')
    (hholds : pc.holdsMutex m = true) : m.rank < m'.rank := by
  cases pc with
  | create pc => exact CreatePc.rank_lt hop hholds
  | stats pc => cases pc <;> first | cases hholds | cases hop
  | _ => first | cases hholds | cases hop

/-- A worker in front of `resolvers_` has nothing locked. -/
theorem WorkerPc.outside_of_locks {pc : WorkerPc} (h : pc.locks = true) :
    (∀ err, pc.holds err = false) ∧ ∀ m, pc.holdsMutex m = false := by
  cases pc <;> first | exact ⟨fun _ => rfl, fun _ => rfl⟩ | cases h

theorem one_lt_rank (m : Mutex) : 1 < m.rank := by
  cases m <;> decide

/-- The server has nothing locked where it waits. -/
theorem not_holds_server (hwaits : s.Waits .server r) :
    s.daemon.pc.holdsInit = false ∧ s.daemon.pc.holdsMgr = false ∧
      ∀ m, s.daemon.pc.holdsMutex m = false := by
  cases hwaits with
  | init hpc _ => rw [hpc]; exact ⟨rfl, rfl, fun _ => rfl⟩
  | serverMgr hpc _ => rw [hpc]; exact ⟨rfl, rfl, fun _ => rfl⟩
  | serverShared hop _ =>
    generalize s.daemon.pc = pc at hop
    cases pc with
    | createStatsLock => exact ⟨rfl, rfl, fun _ => rfl⟩
    | _ => cases hop

/-- A worker that has left its body waits for the manager only, and has `resolvers_` locked at
most. -/
theorem Coherent.outside_of_holdsMgr (h : Coherent maxthreads jobs s)
    (hholds : s.daemon.HoldsMgr (.worker i)) (hwaits : s.Waits (.worker i) r) : False := by
  obtain ⟨worker, hworker, hinside⟩ := (Option.any_eq_true _ _).mp hholds
  have hphase : worker.phase ≠ .body := by
    intro hphase
    rw [hphase] at hinside
    cases hinside
  have hreturned : ∀ {sess}, s.sessions[i]? = some sess → sess.pc = .returned :=
    fun hsess => h.returned i worker _ hworker hsess hphase
  cases hwaits with
  | ready hsess hasleep => cases (hreturned hsess).symm.trans hasleep
  | workerResolvers hsess hpc _ =>
    rw [hreturned hsess] at hpc
    cases hpc
  | workerMgr hworker' hlock _ =>
    obtain rfl := Option.some.inj (hworker.symm.trans hworker')
    rw [hlock] at hinside
    cases hinside
  | workerShared hsess hop _ =>
    rw [hreturned hsess] at hop
    cases hop

theorem Coherent.rank_lt_worker (h : Coherent maxthreads jobs s) {r' : Resource}
    (hholds : s.Holds (.worker i) r) (hwaits : s.Waits (.worker i) r') : r.rank < r'.rank := by
  have hsame : ∀ {sess sess'}, s.sessions[i]? = some sess → s.sessions[i]? = some sess' →
      sess = sess' := fun hsess hsess' => Option.some.inj (hsess.symm.trans hsess')
  generalize hp : Tid.worker i = p at hholds
  cases hholds with
  | ready _ _ => cases hp
  | solverResolvers _ _ => cases hp
  | @init thread hin =>
    cases thread with
    | server => cases hp
    | worker k => cases hin
  | @mgr thread hin =>
    cases thread with
    | server => cases hp
    | worker k =>
      obtain rfl := Tid.worker.inj hp
      exact absurd hwaits fun hwaits => h.outside_of_holdsMgr hin hwaits
  -- `resolvers_` stays locked from the wait on, under all that is locked later
  | workerResolvers hsess hin =>
    obtain rfl := Tid.worker.inj hp
    cases hwaits with
    | ready hsess' hasleep =>
      rw [hsame hsess hsess', hasleep] at hin
      cases hin
    | workerResolvers hsess' hpc _ =>
      rw [hsame hsess hsess', (WorkerPc.outside_of_locks hpc).1] at hin
      cases hin
    | workerMgr _ _ _ => exact Nat.lt_succ_self 1
    | workerShared _ _ _ => exact one_lt_rank _
  -- with a shared mutex the worker only waits inside `rthread_create`
  | @shared _ m hin =>
    subst hp
    obtain ⟨sess, hsess, hmutex⟩ := (Option.any_eq_true _ _).mp hin
    cases hwaits with
    | ready hsess' hasleep =>
      rw [hsame hsess hsess', hasleep] at hmutex
      cases hmutex
    | workerResolvers hsess' hpc _ =>
      rw [hsame hsess hsess', (WorkerPc.outside_of_locks hpc).2] at hmutex
      cases hmutex
    | workerMgr hworker hlock _ =>
      have hreturned := h.returned i _ sess hworker hsess (by rw [hlock]; nofun)
      rw [hreturned] at hmutex
      cases hmutex
    | workerShared hsess' hop _ =>
      rw [hsame hsess hsess'] at hmutex
      exact WorkerPc.rank_lt hop hmutex

theorem rank_lt_solver {r' : Resource} (hholds : s.Holds (.solver i j) r)
    (hwaits : s.Waits (.solver i j) r') : r.rank < r'.rank := by
  -- a solver waits in front of its lock, or behind its unlock with nothing locked
  have hpoints : ∀ {pc}, s.solverPc i j = some pc → pc.holds = false ∧
      (∀ m, pc.holdsMutex m = false) ∧
        (pc.pending = true ∨ pc = .broadcast → r' = .resolvers i) := by
    intro pc hpc
    cases hwaits with
    | solverResolvers _ hlock _ =>
      obtain rfl := Option.some.inj (hpc.symm.trans hlock)
      exact ⟨rfl, fun _ => rfl, fun _ => rfl⟩
    | solverShared hpc' hop _ =>
      obtain rfl := Option.some.inj (hpc.symm.trans hpc')
      cases pc with
      | stats pc =>
        refine ⟨rfl, fun _ => ?_, nofun⟩
        cases pc <;> first | rfl | cases hop
      | unregister pc =>
        refine ⟨rfl, fun _ => ?_, nofun⟩
        cases pc <;> first | rfl | cases hop
      | _ => cases hop
  generalize hp : Tid.solver i j = p at hholds
  cases hholds with
  | ready hpc hwaker =>
    cases hp
    rw [(hpoints hpc).2.2 hwaker]
    exact Nat.lt_succ_self 0
  | solverResolvers hpc hin =>
    cases hp
    rw [(hpoints hpc).1] at hin
    cases hin
  | workerResolvers _ _ => cases hp
  | @init thread _ => cases thread <;> cases hp
  | @mgr thread _ => cases thread <;> cases hp
  | @shared _ m hin =>
    subst hp
    obtain ⟨sess, hsess, hmutex⟩ := (Option.any_eq_true _ _).mp hin
    obtain ⟨d, hd, hmutex⟩ := (Option.any_eq_true _ _).mp hmutex
    obtain ⟨solver, hsolver, hmutex⟩ := (Option.any_eq_true _ _).mp hmutex
    rw [(hpoints (solverPc_eq hsess hd hsolver)).2.1] at hmutex
    cases hmutex

/-- Threads wait upwards only. -/
theorem Coherent.rankOrdered (h : Coherent maxthreads jobs s) :
    RankOrdered s.Live s.Waits s.Holds Resource.rank := by
  intro p r r' _ hholds hwaits
  cases p with
  | server =>
    obtain ⟨hinit, hmgr, hshared⟩ := not_holds_server hwaits
    generalize hp : Tid.server = p at hholds
    cases hholds with
    | ready _ _ => cases hp
    | workerResolvers _ _ => cases hp
    | solverResolvers _ _ => cases hp
    | @init thread hin =>
      cases thread with
      | server => rw [Daemon.HoldsInit, hinit] at hin; cases hin
      | worker k => cases hp
    | @mgr thread hin =>
      cases thread with
      | server => rw [Daemon.HoldsMgr, hmgr] at hin; cases hin
      | worker k => cases hp
    | @shared _ m hin =>
      subst hp
      rw [HoldsMutex, hshared m] at hin
      cases hin
  | worker i => exact h.rank_lt_worker hholds hwaits
  | solver i j => exact rank_lt_solver hholds hwaits

/-! ### Who does not wait can go on -/

/-- A thread that waits for no shared mutex gets past it. -/
theorem ownersStep_enabled {a : Action} (hthread : a.thread = some p)
    (hfree : ∀ m, s.lockOp a = .lock m → s.owners m = none) :
    ∃ owners, s.ownersStep a = some owners := by
  unfold ownersStep
  rw [hthread]
  cases hop : s.lockOp a with
  | keep => exact ⟨_, rfl⟩
  | lock m => exact ⟨_, if_pos (hfree m hop)⟩
  | unlock m => exact ⟨_, rfl⟩

theorem step_daemon {a : Daemon.Action} {owners : Mutex → Option Tid} {daemon : Daemon}
    (hruns : s.daemon.exited = none) (howners : s.ownersStep (.daemon a) = some owners)
    (hreturned : s.bodyReturned a = true) (hstep : s.daemon.step maxthreads a = some daemon) :
    s.step maxthreads jobs (.daemon a) = some ⟨daemon, s.sessions ++ newSessions a, owners⟩ := by
  simp [step, hruns, howners, hreturned, hstep]

theorem step_session {a : Session.Action} {owners : Mutex → Option Tid} {sess' : Session}
    (hruns : s.daemon.exited = none) (howners : s.ownersStep (.session i a) = some owners)
    (hsess : s.sessions[i]? = some sess) (hin : s.sessionRuns i a = true)
    (hstep : sess.step (jobs i) a = some sess') :
    s.step maxthreads jobs (.session i a) =
      some { s with sessions := s.sessions.set i sess', owners := owners } := by
  simp [step, hruns, howners, hsess, hin, hstep]

/-- A server that creates a worker is handling a connection. -/
theorem handling_of_creating {daemon : Daemon} (h : daemon.pc.creating = true) :
    daemon.Handling := by
  unfold Daemon.Handling
  generalize daemon.pc = pc at h ⊢
  cases pc <;> first | (cases h; done) | exact ⟨rfl, fun hpc => by cases hpc⟩

theorem Coherent.server_enabled (h : Coherent maxthreads jobs s) (hmax : 0 < maxthreads)
    (hruns : s.daemon.exited = none) (hlive : s.Live .server) (hfree : ∀ r, ¬ s.Waits .server r) :
    s.Enabled maxthreads jobs .server := by
  have howners : ∀ a, a.thread = some .server → ∃ owners, s.ownersStep a = some owners := by
    intro a hthread
    refine ownersStep_enabled hthread fun m hop => ?_
    by_contra hbusy
    cases a with
    | daemon a =>
      cases a with
      | server ok => exact hfree _ (.serverShared hop hbusy)
      | _ => cases hop
    | session i a => cases a <;> cases hthread
  by_cases hcreate : s.daemon.pc = .createThread
  -- a new thread gets an id that no live thread has
  · obtain ⟨tid, htid⟩ := Infinite.exists_notMem_finset s.daemon.liveTids.toFinset
    rw [List.mem_toFinset] at htid
    obtain ⟨owners, howners⟩ := howners (.daemon (.create (some tid))) rfl
    have hstep : ∃ daemon, s.daemon.step maxthreads (.create (some tid)) = some daemon := by
      simp [Daemon.step, hruns, Daemon.createStep, hcreate, htid]
    obtain ⟨daemon, hstep⟩ := hstep
    refine ⟨.daemon (.create (some tid)), _, rfl, ?_, step_daemon hruns howners rfl hstep⟩
    exact ⟨trivial, rfl⟩
  · have hlock : s.daemon.pc = .createLock → s.daemon.mgrOwner = none := by
      intro hpc
      by_contra hbusy
      exact hfree _ (.serverMgr hpc hbusy)
    obtain ⟨daemon, hstep⟩ :=
      h.pool.locking.serverStep_enabled hmax (handling_of_creating hlive) hcreate hlock
    have hstep : s.daemon.step maxthreads (.server true) = some daemon := by
      simp [Daemon.step, hruns, hstep]
    obtain ⟨owners, howners⟩ := howners (.daemon (.server true)) rfl
    refine ⟨.daemon (.server true), _, rfl, ?_, step_daemon hruns howners rfl hstep⟩
    exact ⟨fun _ => rfl, rfl⟩

/-- A worker at the end of its body, or behind it. -/
theorem Coherent.leaving_enabled (h : Coherent maxthreads jobs s) (hruns : s.daemon.exited = none)
    (hworker : s.daemon.workers[i]? = some worker) (hphase : worker.phase.gone = false)
    (hreturned : s.bodyReturned (.worker i) = true) (hfree : ∀ r, ¬ s.Waits (.worker i) r) :
    s.Enabled maxthreads jobs (.worker i) := by
  have hmanager := h.pool.locking.manager (.inl (Daemon.workers_ne_nil hworker))
  obtain ⟨mgr, hmgr⟩ := Option.ne_none_iff_exists'.mp hmanager
  have hstep : ∃ daemon, s.daemon.workerStep i = some daemon := by
    cases hpc : worker.phase with
    | body => simp [Daemon.workerStep, hworker, hpc, hmgr]
    | terminated => simp [hpc, WorkerPhase.gone] at hphase
    | killed => simp [hpc, WorkerPhase.gone] at hphase
    | unregister pc =>
      cases pc with
      | lock =>
        have hlock : s.daemon.mgrOwner = none := by
          by_contra hbusy
          exact hfree _ (.workerMgr hworker hpc hbusy)
        simp [Daemon.workerStep, hworker, hpc, hlock]
      | search => simp [Daemon.workerStep, hworker, hpc, hmgr]
      | unlock => simp [Daemon.workerStep, hworker, hpc]
  obtain ⟨daemon, hstep⟩ := hstep
  have hstep : s.daemon.step maxthreads (.worker i) = some daemon := by
    simp [Daemon.step, hruns, hstep]
  refine ⟨.daemon (.worker i), _, rfl, ?_, step_daemon hruns rfl hreturned hstep⟩
  exact ⟨trivial, rfl⟩

theorem Coherent.worker_enabled (h : Coherent maxthreads jobs s) (hruns : s.daemon.exited = none)
    (hlive : s.Live (.worker i)) (hfree : ∀ r, ¬ s.Waits (.worker i) r) :
    s.Enabled maxthreads jobs (.worker i) := by
  obtain ⟨worker, hworker, hphase⟩ := hlive
  obtain ⟨sess, hsess⟩ := h.exists_session hworker
  -- in its body the worker takes the steps of its session
  by_cases hbody : worker.phase = .body
  · have hin : s.daemon.inWorkerTh (.worker i) = true := by
      simp [Daemon.inWorkerTh, hworker, hbody]
    by_cases hpc : sess.pc = .returned
    · exact h.leaving_enabled hruns hworker hphase (by simp [bodyReturned, hsess, hpc]) hfree
    · have hasleep : sess.pc ≠ .asleep := fun hpc => hfree _ (.ready hsess hpc)
      have hlock : sess.pc.locks = true → sess.owner = none := by
        intro hlocks
        by_contra hbusy
        exact hfree _ (.workerResolvers hsess hlocks hbusy)
      obtain ⟨sess', hstep⟩ := (h.healthy i sess hsess).worker_enabled hasleep hpc hlock
      have hop : s.lockOp (.session i (.worker true)) = sess.pc.lockOp := by
        simp only [lockOp, hsess, Option.map_some, Option.getD_some]
      obtain ⟨owners, howners⟩ := ownersStep_enabled (a := .session i (.worker true)) rfl
        fun m hm => by
          by_contra hbusy
          exact hfree _ (.workerShared hsess (hop ▸ hm) hbusy)
      refine ⟨_, _, rfl, ?_, step_session hruns howners hsess hin hstep⟩
      exact fun _ _ _ => rfl
  -- behind its body it unregisters
  · have hreturned : s.bodyReturned (.worker i) = true := by
      simp [bodyReturned, Daemon.inWorkerTh, hworker, hbody]
    exact h.leaving_enabled hruns hworker hphase hreturned hfree

theorem Coherent.solver_enabled (h : Coherent maxthreads jobs s) (hruns : s.daemon.exited = none)
    (hlive : s.Live (.solver i j)) (hfree : ∀ r, ¬ s.Waits (.solver i j) r) :
    s.Enabled maxthreads jobs (.solver i j) := by
  obtain ⟨pc, hpc, hreturned⟩ := hlive
  obtain ⟨sess, d, solver, hsess, hd, hsolver, rfl⟩ := exists_of_solverPc hpc
  have hlock : solver.pc = .lock → sess.owner = none := by
    intro hlock
    by_contra hbusy
    exact hfree _ (.solverResolvers hsess (hlock ▸ hpc) hbusy)
  obtain ⟨sess', hstep⟩ := (h.healthy i sess hsess).solver_enabled hd hsolver hreturned hlock
  have hop : s.lockOp (.session i (.solver j true)) = solver.pc.lockOp := by
    simp only [lockOp, hpc, Option.map_some, Option.getD_some]
  obtain ⟨owners, howners⟩ := ownersStep_enabled (a := .session i (.solver j true)) rfl
    fun m hm => by
      by_contra hbusy
      exact hfree _ (.solverShared hpc (hop ▸ hm) hbusy)
  refine ⟨_, _, rfl, ?_, step_session hruns howners hsess rfl hstep⟩
  exact fun _ _ => trivial

theorem Coherent.enabled (h : Coherent maxthreads jobs s) (hmax : 0 < maxthreads)
    (hruns : s.daemon.exited = none) (hlive : s.Live p) (hfree : ∀ r, ¬ s.Waits p r) :
    s.Enabled maxthreads jobs p := by
  cases p with
  | server => exact h.server_enabled hmax hruns hlive hfree
  | worker i => exact h.worker_enabled hruns hlive hfree
  | solver i j => exact h.solver_enabled hruns hlive hfree

theorem rank_le (r : Resource) : r.rank ≤ 3 := by
  cases r with
  | shared m => cases m <;> decide
  | _ => exact Nat.le_of_ble_eq_true rfl

/-- In every run in which threads can be created and memory is found, as long as a worker or a
solver has not finished, one of these or the creation of a worker has a step; and a worker that
sleeps although its counter is at zero has a solver that is about to wake it up. -/
theorem deadlockFree (hmax : 0 < maxthreads) (jobs : Nat → Job) (appstate : Appstate)
    (rblist : List Cfgitem)
    (hrun : Run (step maxthreads jobs) Succeeds (init appstate rblist) w t) :
    (t.Unfinished → ∃ p, t.Live p ∧ t.Enabled maxthreads jobs p) ∧
      ∀ (i : Nat) (sess : Session), t.sessions[i]? = some sess → sess.Wakes := by
  have h : Coherent maxthreads jobs t := .run hmax hrun
  refine ⟨?_, fun i sess hsess => (h.healthy i sess hsess).inv.wakes⟩
  rintro ⟨hruns, p, -, hlive⟩
  obtain ⟨q, hq, hfree⟩ := exists_not_waiting rank_le
    (fun p r _ hwaits => h.held_of_waits hmax hwaits) h.rankOrdered hlive
  exact ⟨q, hq, h.enabled hmax hruns hq hfree⟩

/-- One worker is created, and dispatches its solvers until it sleeps. -/
def sleepingRun : List Action :=
  Daemon.firstWorker.map .daemon ++ (Session.sampleRun.take 28).map (.session 0)

/-- While the worker sleeps some thread can go on. -/
theorem deadlockFree_sleepingRun :
    ∃ t, Run (step 10 fun _ => Session.sampleJob) Succeeds (init .run []) sleepingRun t ∧
      t.sessions.map Session.pc = [.asleep] ∧
      ∃ p, t.Live p ∧ t.Enabled 10 (fun _ => Session.sampleJob) p := by
  have hexec : (exec (step 10 fun _ => Session.sampleJob) Succeeds (init .run []) sleepingRun).any
      (fun t => t.sessions.map Session.pc = [.asleep] ∧ t.daemon.exited = none ∧
        t.daemon.workers = [⟨1, .body, false⟩]) = true := by decide +kernel
  obtain ⟨t, hrun, hasleep, hruns, hworkers⟩ := exists_run_of_exec hexec
  have hlive : t.Live (.worker 0) := ⟨⟨1, .body, false⟩, by rw [hworkers]; rfl, rfl⟩
  have hsome := (deadlockFree (by decide) _ .run [] hrun).1 ⟨hruns, .worker 0, nofun, hlive⟩
  exact ⟨t, hrun, hasleep, hsome⟩

end System

end Rblpolicyd
