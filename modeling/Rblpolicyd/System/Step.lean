import Rblpolicyd.Daemon.Pool
import Rblpolicyd.System.Mutexes

/-!
# The daemon with all its requests

The server thread with its pool of workers, a session for each worker, and the
mutexes they share. The body of a worker is the session of its request: the worker
goes on to `wthread_exit` when its session has returned, and its solvers go on
beside it. Seen through either component a run of the system is a run of that
component, so that all that holds of the daemon and of a session holds here. A session
works on the list of its job; when this is the list in force, and the server does not
free it under the sessions, is stated with the results that depend on it.

## Main definitions

* `Tid`, `System` — the threads, the state
* `System.Action`, `System.step` — one step of a thread, with what it does to the mutexes
* `System.Succeeds` — threads and memory are available in this step

## Main results

* `System.run_daemon` — a run of the system is a run of the daemon
* `System.run_session` — and of each session
-/

namespace Rblpolicyd

open Semantics

/-- The threads: the server, the workers in the order of their creation, and their solvers. -/
inductive Tid
  | server
  | worker (i : Nat)
  | solver (i j : Nat)
  deriving DecidableEq

/-- The daemon, the session of each worker, and the owners of the shared mutexes. -/
structure System where
  daemon : Daemon
  sessions : List Session
  owners : Mutex → Option Tid

namespace System

/-- The system when `main` calls `server`. -/
def init (appstate : Appstate) (rblist : List Cfgitem) : System where
  daemon := Daemon.init appstate rblist
  sessions := []
  owners _ := none

/-- A step of the daemon, or of the session of worker `i`. -/
inductive Action
  | daemon (a : Daemon.Action)
  | session (i : Nat) (a : Session.Action)
  deriving DecidableEq

/-- The thread that takes the step; `none` stands for what comes from outside: a connection,
a file that is read, a signal, a wake-up without a broadcast, the end of a cancelled thread. -/
def Action.thread : Action → Option Tid
  | .daemon (.server _) | .daemon (.create _) => some .server
  | .daemon (.worker i) => some (.worker i)
  | .session i (.worker _) => some (.worker i)
  | .session i (.solver j _) => some (.solver i j)
  | _ => none

/-- The points of the solver behind record `j` of session `i`. -/
def solverPc (s : System) (i j : Nat) : Option SolverPc := do
  let sess ← s.sessions[i]?
  let d ← sess.dispatched[j]?
  let solver ← d.solver
  some solver.pc

/-- What a step does to the shared mutexes. -/
def lockOp (s : System) : Action → LockOp Mutex
  | .daemon (.server _) => s.daemon.pc.lockOp
  | .session i (.worker _) => (s.sessions[i]?.map fun sess => sess.pc.lockOp).getD .keep
  | .session i (.solver j _) => ((s.solverPc i j).map SolverPc.lockOp).getD .keep
  | _ => .keep

/-- The owners of the shared mutexes behind a step, unless its thread is blocked. -/
def ownersStep (s : System) (a : Action) : Option (Mutex → Option Tid) :=
  match a.thread with
  | none => some s.owners
  | some thread => (s.lockOp a).apply thread s.owners

/-- A worker that is in its body leaves it when its session has returned. -/
def bodyReturned (s : System) : Daemon.Action → Bool
  | .worker i =>
    !s.daemon.inWorkerTh (.worker i) || s.sessions[i]?.any fun sess => sess.pc = .returned
  | _ => true

/-- A new worker has a new session. -/
def newSessions : Daemon.Action → List Session
  | .create (some _) => [Session.init]
  | _ => []

/-- A worker that was cancelled and has ended is not in its session any more. -/
def sessionRuns (s : System) (i : Nat) : Session.Action → Bool
  | .worker _ | .wake => s.daemon.inWorkerTh (.worker i)
  | .solver _ _ | .kill _ => true

/-- One step of the system, while the process runs; `jobs` has the work of each worker. -/
def step (maxthreads : Int) (jobs : Nat → Job) (s : System) (a : Action) : Option System :=
  if s.daemon.exited ≠ none then none
  else
    match s.ownersStep a with
    | none => none
    | some owners =>
      match a with
      | .daemon a =>
        if s.bodyReturned a then
          (s.daemon.step maxthreads a).map fun daemon =>
            ⟨daemon, s.sessions ++ newSessions a, owners⟩
        else none
      | .session i a =>
        match s.sessions[i]? with
        | none => none
        | some sess =>
          if s.sessionRuns i a then
            (sess.step (jobs i) a).map fun sess =>
              { s with sessions := s.sessions.set i sess, owners := owners }
          else none

/-- A worker cannot be created, or `xmalloc`, `xrealloc` or `xstrdup` finds no memory. -/
def fails : Daemon.Action → Bool
  | .create none | .xalloc _ => true
  | _ => false

/-- Threads can be created, and memory is found, in this step. -/
def Succeeds (s : System) : Action → Prop
  | .daemon a => s.daemon.RecordsAllocated a ∧ fails a = false
  | .session i a => ∀ sess ∈ s.sessions[i]?, sess.Succeeds a

instance (s : System) : (a : Action) → Decidable (s.Succeeds a)
  | .daemon a => inferInstanceAs (Decidable (s.daemon.RecordsAllocated a ∧ fails a = false))
  | .session i a => inferInstanceAs (Decidable (∀ sess ∈ s.sessions[i]?, sess.Succeeds a))

variable {maxthreads : Int} {jobs : Nat → Job} {s s' t : System} {a : Action} {i : Nat}
  {sess : Session} {w : List Action} {appstate : Appstate} {rblist : List Cfgitem}

/-- What a step of the system is a step of. -/
inductive SystemStep (maxthreads : Int) (jobs : Nat → Job) (s : System) : Action → System → Prop
  | daemon {a : Daemon.Action} {daemon : Daemon} {owners : Mutex → Option Tid}
      (howners : s.ownersStep (.daemon a) = some owners) (hreturned : s.bodyReturned a = true)
      (hstep : s.daemon.step maxthreads a = some daemon) :
      SystemStep maxthreads jobs s (.daemon a) ⟨daemon, s.sessions ++ newSessions a, owners⟩
  | session {i : Nat} {a : Session.Action} {sess sess' : Session} {owners : Mutex → Option Tid}
      (howners : s.ownersStep (.session i a) = some owners) (hruns : s.sessionRuns i a = true)
      (hsess : s.sessions[i]? = some sess) (hstep : sess.step (jobs i) a = some sess') :
      SystemStep maxthreads jobs s (.session i a)
        { s with sessions := s.sessions.set i sess', owners := owners }

theorem step_cases (h : s.step maxthreads jobs a = some s') :
    SystemStep maxthreads jobs s a s' := by
  obtain ⟨-, h⟩ := Option.ite_none_left_eq_some.mp h
  split at h
  · cases h
  · cases a with
    | daemon a =>
      obtain ⟨hreturned, h⟩ := Option.ite_none_right_eq_some.mp h
      obtain ⟨daemon, hstep, rfl⟩ := Option.map_eq_some_iff.mp h
      exact .daemon ‹_› hreturned hstep
    | session i a =>
      simp only at h
      split at h
      · cases h
      · obtain ⟨hruns, h⟩ := Option.ite_none_right_eq_some.mp h
        obtain ⟨sess, hstep, rfl⟩ := Option.map_eq_some_iff.mp h
        exact .session ‹_› hruns ‹_› hstep

/-! ### The components of a run -/

/-- Seen through the daemon, a run of the system is a run of the daemon. -/
theorem run_daemon {ok : System → Action → Prop} {okDaemon : Daemon → Daemon.Action → Prop}
    (hok : ∀ s a, ok s (.daemon a) → okDaemon s.daemon a)
    (hrun : Run (step maxthreads jobs) ok (init appstate rblist) w t) :
    ∃ v, Run (Daemon.step maxthreads) okDaemon (Daemon.init appstate rblist) v t.daemon := by
  refine hrun.simulate System.daemon ?_
  intro s a s' hok' hstep
  cases step_cases hstep with
  | @daemon a _ _ _ _ hdaemon => exact .inr ⟨a, hok s a hok', hdaemon⟩
  | session _ _ _ _ => exact .inl rfl

theorem getElem?_set (hsess : s.sessions[i]? = some sess) (sess' : Session) (k : Nat) :
    (s.sessions.set i sess')[k]? = if i = k then some sess' else s.sessions[k]? := by
  have hlt : i < s.sessions.length := (List.getElem?_eq_some_iff.mp hsess).1
  rw [List.getElem?_set, if_pos hlt]

theorem eq_init_of_mem_newSessions {a : Daemon.Action} (h : sess ∈ newSessions a) :
    sess = Session.init := by
  unfold newSessions at h
  split at h
  · exact List.mem_singleton.mp h
  · cases h

/-- The sessions behind a creation: those before it, and a new one. -/
theorem getElem?_newSessions {a : Daemon.Action}
    (hsess : (s.sessions ++ newSessions a)[i]? = some sess) :
    s.sessions[i]? = some sess ∨ sess = Session.init := by
  rw [List.getElem?_append] at hsess
  split_ifs at hsess with hi
  · exact .inl hsess
  · exact .inr (eq_init_of_mem_newSessions (List.mem_of_getElem? hsess))

/-- Seen through one of its sessions, a run of the system is a run of that session. -/
theorem run_session {ok : System → Action → Prop} {okSession : Session → Session.Action → Prop}
    (hok : ∀ s i a sess, ok s (.session i a) → s.sessions[i]? = some sess → okSession sess a)
    (hrun : Run (step maxthreads jobs) ok (init appstate rblist) w t) (i : Nat) (sess : Session)
    (hsess : t.sessions[i]? = some sess) :
    ∃ v, Run (Session.step (jobs i)) okSession Session.init v sess := by
  induction hrun generalizing i sess with
  | nil => cases hsess
  | snoc hrun hok' hstep ih =>
    cases step_cases hstep with
    | daemon _ _ _ =>
      rcases getElem?_newSessions hsess with hold | rfl
      · exact ih i sess hold
      · exact ⟨[], .nil⟩
    | @session k a before after _ _ _ hbefore hsession =>
      rw [getElem?_set hbefore] at hsess
      split_ifs at hsess with hk
      · subst hk
        obtain rfl := Option.some.inj hsess
        obtain ⟨v, hrun⟩ := ih k before hbefore
        exact ⟨v ++ [a], hrun.snoc (hok _ k a before hok' hbefore) hsession⟩
      · exact ih i sess hsess

end System

end Rblpolicyd
