import Rblpolicyd.Daemon.Transitions
import Rblpolicyd.Semantics.Mutex
import Rblpolicyd.Semantics.Run

/-!
# The mutexes of the pool

The manager is made under `worker_init_mutex` before the first worker is, and its own
mutex is owned by the thread whose code is in front of the unlock. A thread that is
cancelled there would keep it for good; a thread that ends anywhere else does not.

## Main definitions

* `Daemon.KillsOutside` — a cancelled worker does not end inside the critical section
* `Daemon.HoldsMgr`, `Daemon.HoldsInit` — the thread is inside the critical section
* `Daemon.Locking` — the mutexes and the points agree, and workers have a manager

## Main results

* `Daemon.Locking.step`, `Daemon.Locking.run` — every step, and every run, preserves it
-/

namespace Rblpolicyd

open Semantics

/-- The server has the manager's mutex locked. -/
def ServerPc.holdsMgr : ServerPc → Bool
  | .createPoll _ | .createAppstate _ | .createLimit _ | .createThread | .createRegister _ => true
  | .createCancel | .createClose | .createUnlock _ => true
  | .directUnregister .search | .directUnregister .unlock => true
  | _ => false

/-- The server has `worker_init_mutex` locked. -/
def ServerPc.holdsInit : ServerPc → Bool
  | .createInit | .createInitUnlock => true
  | _ => false

/-- The points behind the initialisation of the manager, up to the unlock. -/
def ServerPc.initialized : ServerPc → Bool
  | .createInitUnlock | .createLock | .directUnregister _ => true
  | pc => pc.holdsMgr

/-- The points of the server thread's own call of `worker_th`. -/
def ServerPc.runsWorkerTh : ServerPc → Bool
  | .direct | .directUnregister _ => true
  | _ => false

/-- The worker has the manager's mutex locked. -/
def WorkerPhase.holdsMgr : WorkerPhase → Bool
  | .unregister .search | .unregister .unlock => true
  | _ => false

namespace Daemon

variable {maxthreads : Int} {s s' t : Daemon} {a : Action} {ok : Bool} {i : Nat} {w : List Action}
  {worker : PoolWorker} {pc : ServerPc} {phase : WorkerPhase}

/-- A cancelled worker does not end with the manager's mutex locked. -/
def KillsOutside (s : Daemon) : Action → Prop
  | .kill i => s.workers[i]?.all (fun worker => !worker.phase.holdsMgr) = true
  | _ => True

/-- The thread has the manager's mutex locked. -/
def HoldsMgr (s : Daemon) : Thread → Prop
  | .server => s.pc.holdsMgr = true
  | .worker i => s.workers[i]?.any (fun worker => worker.phase.holdsMgr) = true

/-- The thread has `worker_init_mutex` locked. -/
def HoldsInit (s : Daemon) : Thread → Prop
  | .server => s.pc.holdsInit = true
  | .worker _ => False

/-- The owners of the mutexes are the threads inside, no worker is without a manager, and the
server calls `worker_th` only without worker threads. -/
structure Locking (maxthreads : Int) (s : Daemon) : Prop where
  guarded : Guarded s.mgrOwner s.HoldsMgr
  initGuarded : Guarded s.initOwner s.HoldsInit
  manager : s.workers ≠ [] ∨ s.pc.initialized = true → s.workermgr ≠ none
  disabled : s.pc.runsWorkerTh = true → ¬ 0 < maxthreads

theorem locking_init (appstate : Appstate) (rblist : List Cfgitem) :
    Locking maxthreads (init appstate rblist) where
  guarded thread := by cases thread <;> simp [init, HoldsMgr, ServerPc.holdsMgr]
  initGuarded thread := by cases thread <;> simp [init, HoldsInit, ServerPc.holdsInit]
  manager h := by rcases h with h | h <;> simp [init, ServerPc.initialized, ServerPc.holdsMgr] at h
  disabled h := by cases h

/-! ### A worker in another phase -/

theorem getElem?_setPhase (hworker : s.workers[i]? = some worker) (k : Nat) :
    (s.setPhase i worker phase).workers[k]? =
      if i = k then some { worker with phase := phase } else s.workers[k]? := by
  have hlt : i < s.workers.length := (List.getElem?_eq_some_iff.mp hworker).1
  rw [setPhase, List.getElem?_set, if_pos hlt]

/-- A worker has the manager's mutex exactly where its phase says so. -/
theorem holdsMgr_of_getElem? (hworker : s.workers[i]? = some worker) :
    s.HoldsMgr (.worker i) ↔ worker.phase.holdsMgr = true := by
  rw [HoldsMgr, hworker, Option.any_some]

theorem holdsMgr_setPhase_self (hworker : s.workers[i]? = some worker) (phase : WorkerPhase) :
    (s.setPhase i worker phase).HoldsMgr (.worker i) ↔ phase.holdsMgr = true := by
  rw [HoldsMgr, getElem?_setPhase hworker, if_pos rfl, Option.any_some]

/-- The step of a worker leaves all other threads in or out of the critical section. -/
theorem holdsMgr_setPhase (hworker : s.workers[i]? = some worker) {thread : Thread}
    (hne : thread ≠ .worker i) :
    (s.setPhase i worker phase).HoldsMgr thread ↔ s.HoldsMgr thread := by
  cases thread with
  | server => rfl
  | worker k =>
    have hik : i ≠ k := by
      rintro rfl
      exact hne rfl
    rw [HoldsMgr, getElem?_setPhase hworker, if_neg hik, HoldsMgr]

theorem workers_ne_nil (hworker : s.workers[i]? = some worker) : s.workers ≠ [] :=
  List.ne_nil_of_mem (List.mem_of_getElem? hworker)

/-! ### The steps of the server -/

/-- A step that only moves the server does not get it in or out of a critical section. -/
theorem ServerMoves.holds_eq (h : ServerMoves maxthreads s pc) :
    pc.holdsMgr = s.pc.holdsMgr ∧ pc.holdsInit = s.pc.holdsInit := by
  cases h <;> simp [ServerPc.holdsMgr, ServerPc.holdsInit, *]

theorem ServerMoves.initialized (h : ServerMoves maxthreads s pc) (hpc : pc.initialized = true) :
    s.pc.initialized = true ∨ s.workermgr ≠ none := by
  cases h <;> simp_all [ServerPc.initialized, ServerPc.holdsMgr]

theorem ServerMoves.disabled (h : ServerMoves maxthreads s pc) (hpc : pc.runsWorkerTh = true) :
    s.pc.runsWorkerTh = true ∨ ¬ 0 < maxthreads := by
  cases h with
  | direct _ _ hnone => exact .inr hnone
  | directExit hdirect _ => exact .inl (by rw [hdirect]; rfl)
  | _ => cases hpc

/-- What a step of the server does to the manager's mutex. -/
theorem ServerStep.lockStep (h : ServerStep maxthreads s ok s') :
    LockStep Thread.server s.mgrOwner s'.mgrOwner (s.HoldsMgr .server) (s'.HoldsMgr .server) := by
  have hkeep : s'.pc.holdsMgr = s.pc.holdsMgr → (s'.HoldsMgr .server ↔ s.HoldsMgr .server) := by
    intro heq
    rw [HoldsMgr, HoldsMgr, heq]
  cases h with
  | move hmove => exact .keep rfl (hkeep hmove.holds_eq.1)
  | lock _ hfree => exact .acquire hfree rfl rfl
  | lockDirect _ hfree => exact .acquire hfree rfl rfl
  | @unlock _ res hpc =>
    refine .release ?_ rfl ?_
    · rw [HoldsMgr, hpc]
      rfl
    · by_cases hres : res = 0
      · simp [HoldsMgr, hres, ServerPc.holdsMgr]
      · simp [HoldsMgr, hres, ServerPc.holdsMgr]
  | unlockDirect hpc =>
    refine .release ?_ rfl nofun
    rw [HoldsMgr, hpc]
    rfl
  | exitDirect _ _ => exact .keep rfl (hkeep rfl)
  | exitWait _ _ => exact .keep rfl (hkeep rfl)
  | exitMain _ => exact .keep rfl (hkeep rfl)
  | lockInit hpc _ => exact .keep rfl (hkeep (by rw [hpc]; rfl))
  | initManager hpc => exact .keep rfl (hkeep (by rw [hpc]; rfl))
  | unlockInit hpc => exact .keep rfl (hkeep (by rw [hpc]; rfl))
  | register hpc _ => exact .keep rfl (hkeep (by rw [hpc]; rfl))
  | registerFails hpc _ => exact .keep rfl (hkeep (by rw [hpc]; rfl))
  | cancel hpc => exact .keep rfl (hkeep (by rw [hpc]; rfl))
  | searchDirect hpc _ => exact .keep rfl (hkeep (by rw [hpc]; rfl))
  | free hpc => exact .keep rfl (hkeep (by rw [hpc]; rfl))
  | reset hpc => exact .keep rfl (hkeep (by rw [hpc]; rfl))
  | mainFree hpc => exact .keep rfl (hkeep (by rw [hpc]; rfl))

/-- What a step of the server does to `worker_init_mutex`. -/
theorem ServerStep.initStep (h : ServerStep maxthreads s ok s') :
    LockStep Thread.server s.initOwner s'.initOwner (s.HoldsInit .server)
      (s'.HoldsInit .server) := by
  have hkeep : s'.pc.holdsInit = s.pc.holdsInit → (s'.HoldsInit .server ↔ s.HoldsInit .server) := by
    intro heq
    rw [HoldsInit, HoldsInit, heq]
  cases h with
  | move hmove => exact .keep rfl (hkeep hmove.holds_eq.2)
  | lockInit _ hfree => exact .acquire hfree rfl rfl
  | unlockInit hpc =>
    refine .release ?_ rfl nofun
    rw [HoldsInit, hpc]
    rfl
  | @unlock _ res hpc =>
    refine .keep rfl (hkeep ?_)
    by_cases hres : res = 0
    · simp [hpc, hres, ServerPc.holdsInit]
    · simp [hpc, hres, ServerPc.holdsInit]
  | exitDirect _ _ => exact .keep rfl (hkeep rfl)
  | exitWait _ _ => exact .keep rfl (hkeep rfl)
  | exitMain _ => exact .keep rfl (hkeep rfl)
  | initManager hpc => exact .keep rfl (hkeep (by rw [hpc]; rfl))
  | lock hpc _ => exact .keep rfl (hkeep (by rw [hpc]; rfl))
  | lockDirect hpc _ => exact .keep rfl (hkeep (by rw [hpc]; rfl))
  | unlockDirect hpc => exact .keep rfl (hkeep (by rw [hpc]; rfl))
  | register hpc _ => exact .keep rfl (hkeep (by rw [hpc]; rfl))
  | registerFails hpc _ => exact .keep rfl (hkeep (by rw [hpc]; rfl))
  | cancel hpc => exact .keep rfl (hkeep (by rw [hpc]; rfl))
  | searchDirect hpc _ => exact .keep rfl (hkeep (by rw [hpc]; rfl))
  | free hpc => exact .keep rfl (hkeep (by rw [hpc]; rfl))
  | reset hpc => exact .keep rfl (hkeep (by rw [hpc]; rfl))
  | mainFree hpc => exact .keep rfl (hkeep (by rw [hpc]; rfl))

theorem holdsMgr_cancelLast (workers : List PoolWorker) (i : Nat) :
    (cancelLast workers)[i]?.any (fun worker => worker.phase.holdsMgr) =
      workers[i]?.any fun worker => worker.phase.holdsMgr := by
  rw [cancelLast, List.getElem?_modify]
  split_ifs
  · cases workers[i]? <;> rfl
  · cases workers[i]? <;> rfl

/-- The steps of the server leave the workers in or out of the critical section. -/
theorem ServerStep.holdsMgr_worker (h : ServerStep maxthreads s ok s') (i : Nat) :
    s'.HoldsMgr (.worker i) ↔ s.HoldsMgr (.worker i) := by
  cases h with
  | cancel _ => rw [HoldsMgr, HoldsMgr, holdsMgr_cancelLast]
  | _ => rfl

theorem Locking.manager_serverStep (h : Locking maxthreads s)
    (hstep : ServerStep maxthreads s ok s')
    (hor : s'.workers ≠ [] ∨ s'.pc.initialized = true) : s'.workermgr ≠ none := by
  cases hstep with
  | move hmove =>
    rcases hor with hne | hpc
    · exact h.manager (.inl hne)
    · exact (hmove.initialized hpc).elim (fun hpc => h.manager (.inr hpc)) id
  -- this is the step that makes the manager
  | initManager _ => cases s.workermgr <;> nofun
  | unlockInit hpc => exact h.manager (.inr (by rw [hpc]; rfl))
  | lock hpc _ => exact h.manager (.inr (by rw [hpc]; rfl))
  | register _ _ => nofun
  | registerFails _ _ => nofun
  | searchDirect _ _ => nofun
  | cancel hpc => exact h.manager (.inr (by rw [hpc]; rfl))
  | unlock hpc => exact h.manager (.inr (by rw [hpc]; rfl))
  | lockDirect hpc _ => exact h.manager (.inr (by rw [hpc]; rfl))
  | exitDirect _ _ => exact h.manager hor
  | exitWait _ _ => exact h.manager hor
  | exitMain _ => exact h.manager hor
  | _ =>
    rcases hor with hne | hpc
    · exact h.manager (.inl hne)
    · cases hpc

theorem Locking.disabled_serverStep (h : Locking maxthreads s)
    (hstep : ServerStep maxthreads s ok s') (hruns : s'.pc.runsWorkerTh = true) :
    ¬ 0 < maxthreads := by
  cases hstep with
  | move hmove => exact (hmove.disabled hruns).elim h.disabled id
  | lockDirect hpc _ => exact h.disabled (by rw [hpc]; rfl)
  | searchDirect hpc _ => exact h.disabled (by rw [hpc]; rfl)
  | exitDirect _ _ => exact h.disabled hruns
  | exitWait _ _ => exact h.disabled hruns
  | exitMain _ => exact h.disabled hruns
  | @unlock _ res _ =>
    by_cases hres : res = 0
    · simp [hres, ServerPc.runsWorkerTh] at hruns
    · simp [hres, ServerPc.runsWorkerTh] at hruns
  | _ => cases hruns

theorem Locking.serverStep (h : Locking maxthreads s) (hstep : ServerStep maxthreads s ok s') :
    Locking maxthreads s' where
  guarded := by
    refine h.guarded.step hstep.lockStep fun thread hne => ?_
    cases thread with
    | server => exact absurd rfl hne
    | worker i => exact hstep.holdsMgr_worker i
  initGuarded := by
    refine h.initGuarded.step hstep.initStep fun thread hne => ?_
    cases thread with
    | server => exact absurd rfl hne
    | worker i => rfl
  manager := h.manager_serverStep hstep
  disabled := h.disabled_serverStep hstep

/-! ### The steps of a worker -/

/-- A worker in another phase, with what its step does to the manager's mutex. -/
theorem Locking.setPhase {owner : Option Thread} {workermgr : Option ThrMgr}
    (h : Locking maxthreads s) (hworker : s.workers[i]? = some worker) (phase : WorkerPhase)
    (hlock : LockStep (Thread.worker i) s.mgrOwner owner (worker.phase.holdsMgr = true)
      (phase.holdsMgr = true)) (hmgr : workermgr ≠ none) :
    Locking maxthreads
      { s.setPhase i worker phase with mgrOwner := owner, workermgr := workermgr } where
  guarded := by
    refine h.guarded.step (p := Thread.worker i) ?_ fun thread hne =>
      holdsMgr_setPhase hworker hne
    rw [← propext (holdsMgr_of_getElem? hworker),
      ← propext (holdsMgr_setPhase_self hworker phase)] at hlock
    exact hlock
  initGuarded := h.initGuarded
  manager _ := hmgr
  disabled := h.disabled

theorem Locking.workerStep (h : Locking maxthreads s) (hworker : s.workers[i]? = some worker)
    (hstep : WorkerStep s i worker s') : Locking maxthreads s' := by
  have hmanager := h.manager (.inl (workers_ne_nil hworker))
  cases hstep with
  | exitUninitialized _ hnone => exact absurd hnone hmanager
  | finish hphase _ =>
    exact h.setPhase hworker (.unregister .lock) (.keep rfl (by rw [hphase]; rfl)) hmanager
  | lock _ hfree =>
    exact h.setPhase hworker (.unregister .search) (.acquire hfree rfl rfl) hmanager
  | search hphase _ =>
    exact h.setPhase hworker (.unregister .unlock) (.keep rfl (by rw [hphase]; rfl)) nofun
  | unlock hphase =>
    exact h.setPhase hworker .terminated (.release (by rw [hphase]; rfl) rfl nofun) hmanager

theorem holdsMgr_ended (phase : WorkerPhase) : phase.ended.holdsMgr = false := by
  cases phase <;> rfl

/-- A worker that ends outside of the critical section. -/
theorem Locking.kill (h : Locking maxthreads s) (hworker : s.workers[i]? = some worker)
    (hok : s.KillsOutside (.kill i)) : Locking maxthreads (s.setPhase i worker worker.phase.ended) := by
  have hmanager := h.manager (.inl (workers_ne_nil hworker))
  have houtside : worker.phase.holdsMgr = false := by
    simpa [KillsOutside, hworker] using hok
  exact h.setPhase hworker _ (.keep rfl (by rw [houtside, holdsMgr_ended])) hmanager

/-! ### All steps -/

/-- A worker that starts has not locked the manager. -/
theorem holdsMgr_append (workers : List PoolWorker) (tid i : Nat) :
    (workers ++ [⟨tid, .body, false⟩])[i]?.any (fun worker => worker.phase.holdsMgr) =
      workers[i]?.any fun worker => worker.phase.holdsMgr := by
  rcases lt_trichotomy i workers.length with hi | rfl | hi
  · rw [List.getElem?_append_left hi]
  · simp [WorkerPhase.holdsMgr]
  · rw [List.getElem?_eq_none (by simpa using hi), List.getElem?_eq_none hi.le]

/-- A step of the server in which it keeps its mutexes. -/
theorem Locking.frame (h : Locking maxthreads s) (howner : s'.mgrOwner = s.mgrOwner)
    (hinit : s'.initOwner = s.initOwner) (hmgr : s'.workermgr = s.workermgr)
    (hworkers : ∀ i, s'.HoldsMgr (.worker i) ↔ s.HoldsMgr (.worker i))
    (hpc : s'.pc.holdsMgr = s.pc.holdsMgr ∧ s'.pc.holdsInit = s.pc.holdsInit)
    (hmanager : s'.workers ≠ [] ∨ s'.pc.initialized = true → s.workermgr ≠ none)
    (hdisabled : s'.pc.runsWorkerTh = true → ¬ 0 < maxthreads) : Locking maxthreads s' where
  guarded thread := by
    rw [howner, h.guarded thread]
    cases thread with
    | server => rw [HoldsMgr, HoldsMgr, hpc.1]
    | worker i => exact (hworkers i).symm
  initGuarded thread := by
    rw [hinit, h.initGuarded thread]
    cases thread with
    | server => rw [HoldsInit, HoldsInit, hpc.2]
    | worker i => rfl
  manager hor := hmgr ▸ hmanager hor
  disabled := hdisabled

/-- `pthread_create` is called with the manager locked, and returns with it locked. -/
theorem Locking.created (h : Locking maxthreads s) (hpc : s.pc = .createThread) (tid : Nat) :
    Locking maxthreads
      { s with workers := s.workers ++ [⟨tid, .body, false⟩], pc := .createRegister tid } := by
  have hmanager := h.manager (.inr (by rw [hpc]; rfl))
  refine h.frame rfl rfl rfl ?_ ?_ (fun _ => hmanager) nofun
  · intro i
    rw [HoldsMgr, HoldsMgr, holdsMgr_append]
  · rw [hpc]
    exact ⟨rfl, rfl⟩

theorem Locking.createFails (h : Locking maxthreads s) (hpc : s.pc = .createThread) :
    Locking maxthreads { s with pc := .createUnlock (-errThrSyserr) } := by
  have hmanager := h.manager (.inr (by rw [hpc]; rfl))
  refine h.frame rfl rfl rfl (fun _ => .rfl) ?_ (fun _ => hmanager) nofun
  rw [hpc]
  exact ⟨rfl, rfl⟩

/-- The server at another point outside of all critical sections. -/
theorem Locking.outside (h : Locking maxthreads s) (appstate : Appstate)
    (hout : s.pc.holdsMgr = false ∧ s.pc.holdsInit = false)
    (hpc : pc.holdsMgr = false ∧ pc.holdsInit = false) (hinit : pc.initialized = false)
    (hruns : pc.runsWorkerTh = false) :
    Locking maxthreads { s with appstate := appstate, pc := pc } := by
  refine h.frame rfl rfl rfl (fun _ => .rfl) ?_ ?_ ?_
  · exact ⟨hpc.1.trans hout.1.symm, hpc.2.trans hout.2.symm⟩
  · rintro (hne | hpc)
    · exact h.manager (.inl hne)
    · rw [hinit] at hpc
      cases hpc
  · intro hpc
    rw [hruns] at hpc
    cases hpc

theorem Locking.step (h : Locking maxthreads s) (hok : s.KillsOutside a)
    (hstep : s.step maxthreads a = some s') : Locking maxthreads s' := by
  have haccept : s.pc = .accept → s.pc.holdsMgr = false ∧ s.pc.holdsInit = false := by
    intro hpc
    rw [hpc]
    exact ⟨rfl, rfl⟩
  have hread : s.pc = .reloadRead → s.pc.holdsMgr = false ∧ s.pc.holdsInit = false := by
    intro hpc
    rw [hpc]
    exact ⟨rfl, rfl⟩
  cases step_cases hstep with
  | server h' => exact h.serverStep h'
  | accepted hpc => exact h.outside _ (haccept hpc) ⟨rfl, rfl⟩ rfl rfl
  | interrupted hpc _ => exact h.outside _ (haccept hpc) ⟨rfl, rfl⟩ rfl rfl
  | stopped hpc _ => exact h.outside _ (haccept hpc) ⟨rfl, rfl⟩ rfl rfl
  | acceptFails hpc => exact h.outside _ (haccept hpc) ⟨rfl, rfl⟩ rfl rfl
  | createFails hpc => exact h.createFails hpc
  | created hpc _ => exact h.created hpc _
  | readFails hpc => exact h.outside _ (hread hpc) ⟨rfl, rfl⟩ rfl rfl
  | read hpc => exact h.outside _ (hread hpc) ⟨rfl, rfl⟩ rfl rfl
  | worker hworker h' => exact h.workerStep hworker h'
  | kill hworker _ _ => exact h.kill hworker hok
  | xalloc => exact h.frame rfl rfl rfl (fun _ => .rfl) ⟨rfl, rfl⟩ h.manager h.disabled
  | sigterm => exact h.frame rfl rfl rfl (fun _ => .rfl) ⟨rfl, rfl⟩ h.manager h.disabled
  | reload => exact h.frame rfl rfl rfl (fun _ => .rfl) ⟨rfl, rfl⟩ h.manager h.disabled

theorem Locking.run {appstate : Appstate} {rblist : List Cfgitem}
    (hrun : Run (Daemon.step maxthreads) KillsOutside (init appstate rblist) w t) :
    Locking maxthreads t :=
  hrun.invariant (locking_init appstate rblist) fun _ _ _ h hok hstep => h.step hok hstep

/-- While workers can be created, no thread finds that it has no manager to leave. -/
theorem Locking.exited_ne (h : Locking maxthreads s) (hmax : 0 < maxthreads)
    (hstep : s.step maxthreads a = some s') : s'.exited ≠ some .wthreadExit := by
  intro hexited
  have hexit := exitStep_of_step hstep
  rw [hexited] at hexit
  cases hexit with
  | wthreadExit hmgr hthread =>
    rcases hthread with hpc | hworkers
    · exact h.disabled (by rw [hpc]; rfl) hmax
    · exact h.manager (.inl hworkers) hmgr

end Daemon

end Rblpolicyd
