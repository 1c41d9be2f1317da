import Rblpolicyd.Daemon.Locking
import Rblpolicyd.Semantics.Progress

/-!
# The handling of a connection

With worker threads the server hands a connection to a new worker and goes on to the
next one: it waits for nobody but a worker that is about to leave the manager. Without
them it calls `worker_th` itself, whose `wthread_exit` ends the process, as only the
creation of a worker makes the manager.

## Main definitions

* `Daemon.Undisturbed` — no allocation and no cancellation is fatal in this step
* `Daemon.Handling`, `Daemon.Returns` — a connection is handled, its handling returns
* `Daemon.HandlesRequests` — no request ends the daemon

## Main results

* `Daemon.Locking.returns` — with worker threads the handling returns
* `Daemon.stuck_of_kill` — but not behind a worker that was cancelled with the mutex locked
* `Daemon.handlesRequests_iff` — requests are handled exactly with worker threads
-/

namespace Rblpolicyd

open Semantics

/-- The points of the handling of a connection. -/
def ServerPc.handling : ServerPc → Bool
  | .dispatch | .createInitLock | .createInit | .createInitUnlock | .createLock => true
  | .createPoll _ | .createAppstate _ | .createLimit _ | .createThread | .createRegister _ => true
  | .createCancel | .createClose | .createUnlock _ | .createStatsLock | .createStatsUnlock => true
  | .created _ | .closeConn | .direct | .directUnregister _ => true
  | _ => false

/-- The points of the handling up to the manager's mutex. -/
def ServerPc.beforeLock : ServerPc → Bool
  | .dispatch | .createInitLock | .createInit | .createInitUnlock | .createLock => true
  | _ => false

/-- A bound on the steps of the server to the next round of its loop, with those of the worker
that it creates on the way. -/
def ServerPc.remaining : ServerPc → Nat
  | .dispatch => 41
  | .createInitLock => 40
  | .createInit => 39
  | .createInitUnlock => 38
  | .createLock => 37
  | .createPoll err => 16 + err
  | .createAppstate _ => 15
  | .createLimit _ => 14
  | .createThread => 13
  | .createRegister _ => 8
  | .createCancel => 7
  | .createClose => 6
  | .createUnlock _ => 5
  | .createStatsLock => 4
  | .createStatsUnlock => 3
  | .created _ => 2
  | .closeConn => 1
  | _ => 0

/-- The number of steps of a worker to its end. -/
def WorkerPhase.remaining : WorkerPhase → Nat
  | .body => 4
  | .unregister .lock => 3
  | .unregister .search => 2
  | .unregister .unlock => 1
  | .terminated | .killed => 0

namespace Daemon

variable {maxthreads : Int} {s s' t : Daemon} {a : Action} {ok : Bool} {i : Nat} {w : List Action}
  {worker : PoolWorker} {phase : WorkerPhase} {pc : ServerPc}

/-- `xmalloc`, `xrealloc` and `xstrdup` find memory, and a worker that is cancelled does not end
with the manager's mutex locked. -/
def Undisturbed (s : Daemon) (a : Action) : Prop :=
  (∀ thread, a ≠ .xalloc thread) ∧ s.KillsOutside a

instance (s : Daemon) (a : Action) : Decidable (s.KillsOutside a) :=
  match a with
  | .kill _ => inferInstanceAs (Decidable (_ = true))
  | .server _ | .accept _ | .create _ | .read _ | .worker _ | .xalloc _ | .sigterm | .reload =>
    inferInstanceAs (Decidable True)

/-- The process was ended by the handling of a request. -/
def EndedByRequest (s : Daemon) : Prop := s.exited = some .wthreadExit ∨ s.exited = some .xalloc

/-- The server handles a connection that was accepted in the state `APP_RUN`. -/
def Handling (s : Daemon) : Prop :=
  s.pc.handling = true ∧ (s.pc = .dispatch → s.appstate = .run)

/-- The steps of the threads, cancelled ones included. -/
def ThreadStep (s : Daemon) : Action → Prop
  | .server _ | .create _ | .worker _ => True
  | .kill i => s.KillsOutside (.kill i)
  | _ => False

/-- The steps of the server, and those of a worker that has the manager's mutex locked. -/
def ServerStepOrUnlock (s : Daemon) : Action → Prop
  | .server _ | .create _ => True
  | .worker i => s.HoldsMgr (.worker i)
  | _ => False

/-- The handling of the connection comes back to the loop of the server. -/
def Returns (maxthreads : Int) (s : Daemon) : Prop :=
  Leads (step maxthreads) ThreadStep ServerStepOrUnlock
    (fun t => t.pc = .loop ∧ t.exited = none) s

/-- No request ends the process, and the handling of every connection returns. -/
def HandlesRequests (maxthreads : Int) : Prop :=
  ∀ (appstate : Appstate) (rblist : List Cfgitem) (w : List Action) (t : Daemon),
    Run (step maxthreads) Undisturbed (init appstate rblist) w t →
      ¬ t.EndedByRequest ∧ (t.exited = none → t.Handling → t.Returns maxthreads)

/-- A bound on the steps of all threads until the server is back in its loop. -/
def remaining (s : Daemon) : Nat :=
  s.pc.remaining + (s.workers.map fun worker => worker.phase.remaining).sum

/-! ### The measure -/

theorem remaining_setPhase (hworker : s.workers[i]? = some worker)
    (hlt : phase.remaining < worker.phase.remaining) :
    (s.setPhase i worker phase).remaining < s.remaining := by
  obtain ⟨hi, rfl⟩ := List.getElem?_eq_some_iff.mp hworker
  obtain ⟨pre, post, hbefore, -, hafter⟩ := List.exists_of_set hi
  rw [remaining, remaining, setPhase, hafter]
  conv_rhs => rw [hbefore]
  simp only [List.map_append, List.map_cons, List.sum_append, List.sum_cons]
  omega

theorem remaining_ended (hlive : phase.gone = false) :
    phase.ended.remaining < phase.remaining := by
  cases phase with
  | body => decide
  | unregister pc => cases pc <;> decide
  | terminated => cases hlive
  | killed => cases hlive

theorem remaining_append {tid : Nat} (hworkers : s'.workers = s.workers ++ [⟨tid, .body, false⟩])
    (hlt : s'.pc.remaining + 4 < s.pc.remaining) : s'.remaining < s.remaining := by
  simp only [remaining, hworkers, List.map_append, List.map_cons, List.map_nil, List.sum_append,
    List.sum_cons, List.sum_nil, WorkerPhase.remaining]
  omega

theorem remaining_cancelLast (workers : List PoolWorker) :
    (cancelLast workers).map (fun worker => worker.phase.remaining) =
      workers.map fun worker => worker.phase.remaining := by
  apply List.ext_getElem?
  intro k
  rw [List.getElem?_map, List.getElem?_map, cancelLast, List.getElem?_modify]
  split_ifs
  · cases workers[k]? <;> rfl
  · cases workers[k]? <;> rfl

/-! ### The handling of a connection with worker threads -/

/-- What the steps of the threads keep until the server is back in its loop. -/
structure InHandling (maxthreads : Int) (s : Daemon) : Prop where
  locking : Locking maxthreads s
  runs : s.exited = none
  handling : s.pc = .loop ∨ s.Handling

theorem ServerMoves.handles (h : ServerMoves maxthreads s pc) (hmax : 0 < maxthreads)
    (hpc : s.Handling) (hworks : s.pc.runsWorkerTh = false) :
    (pc = .loop ∨ pc.handling = true ∧ pc ≠ .dispatch) ∧ pc.remaining < s.pc.remaining := by
  obtain ⟨hhandling, hrun⟩ := hpc
  cases h with
  | direct _ _ hnone => exact absurd hmax hnone
  | reload hpc hstate => cases (hrun hpc).symm.trans hstate
  | skip hpc hstate => rcases hstate with h | h <;> cases (hrun hpc).symm.trans h
  | directExit hpc _ => rw [hpc] at hworks; cases hworks
  | poll hpc _ hwait =>
    obtain ⟨hpos, -⟩ := hwait
    rw [hpc]
    refine ⟨.inr ⟨rfl, nofun⟩, ?_⟩
    simp only [ServerPc.remaining]
    omega
  | polled hpc _ _ =>
    rw [hpc]
    refine ⟨.inr ⟨rfl, nofun⟩, ?_⟩
    simp only [ServerPc.remaining]
    omega
  | _ => simp_all [ServerPc.handling, ServerPc.remaining]

theorem remaining_of_pc (hworkers : s'.workers.map (fun worker => worker.phase.remaining) =
    s.workers.map fun worker => worker.phase.remaining) (hlt : s'.pc.remaining < s.pc.remaining) :
    s'.remaining < s.remaining := by
  rw [remaining, remaining, hworkers]
  exact Nat.add_lt_add_right hlt _

/-- A step of the server brings it nearer to its loop. -/
theorem ServerStep.handles (h : ServerStep maxthreads s ok s') (hmax : 0 < maxthreads)
    (hlocking : Locking maxthreads s) (hpc : s.Handling) :
    (s'.pc = .loop ∨ s'.pc.handling = true ∧ s'.pc ≠ .dispatch) ∧ s'.remaining < s.remaining ∧
      s'.exited = s.exited := by
  have hworks : s.pc.runsWorkerTh = false := by
    by_contra hruns
    exact hlocking.disabled (by simpa using hruns) hmax
  have hstuck : ∀ {pc}, s.pc = pc → pc.handling = true ∧ pc.runsWorkerTh = false :=
    fun h => ⟨h ▸ hpc.1, h ▸ hworks⟩
  -- the points behind the dispatch, in the order of their steps
  have hnext : ∀ {pc}, s.pc = pc → s'.pc.handling = true → s'.pc ≠ .dispatch →
      s'.workers = s.workers → s'.pc.remaining < pc.remaining → s'.exited = s.exited →
      (s'.pc = .loop ∨ s'.pc.handling = true ∧ s'.pc ≠ .dispatch) ∧ s'.remaining < s.remaining ∧
        s'.exited = s.exited := by
    rintro pc rfl hhandling hne hworkers hlt hexited
    exact ⟨.inr ⟨hhandling, hne⟩, remaining_of_pc (by rw [hworkers]) hlt, hexited⟩
  cases h with
  | move hmove =>
    obtain ⟨hor, hlt⟩ := hmove.handles hmax hpc hworks
    exact ⟨hor, remaining_of_pc rfl hlt, rfl⟩
  | lockInit hpc _ => exact hnext hpc rfl nofun rfl (by simp [ServerPc.remaining]) rfl
  | initManager hpc => exact hnext hpc rfl nofun rfl (by simp [ServerPc.remaining]) rfl
  | unlockInit hpc => exact hnext hpc rfl nofun rfl (by simp [ServerPc.remaining]) rfl
  | lock hpc _ => exact hnext hpc rfl nofun rfl (by simp [ServerPc.remaining]) rfl
  | register hpc _ => exact hnext hpc rfl nofun rfl (by simp [ServerPc.remaining]) rfl
  | registerFails hpc _ => exact hnext hpc rfl nofun rfl (by simp [ServerPc.remaining]) rfl
  | cancel hpc =>
    refine ⟨.inr ⟨rfl, nofun⟩, remaining_of_pc (remaining_cancelLast _) ?_, rfl⟩
    simp [hpc, ServerPc.remaining]
  | @unlock _ res hpc =>
    by_cases hres : res = 0
    · rw [if_pos hres] at hnext ⊢
      exact hnext hpc rfl nofun rfl (by simp [ServerPc.remaining]) rfl
    · rw [if_neg hres] at hnext ⊢
      exact hnext hpc rfl nofun rfl (by simp [ServerPc.remaining]) rfl
  | exitDirect hpc _ => cases (hstuck hpc).2
  | lockDirect hpc _ => cases (hstuck hpc).2
  | searchDirect hpc _ => cases (hstuck hpc).2
  | unlockDirect hpc => cases (hstuck hpc).2
  | exitWait hpc _ => cases (hstuck hpc).1
  | free hpc => cases (hstuck hpc).1
  | reset hpc => cases (hstuck hpc).1
  | mainFree hpc => cases (hstuck hpc).1
  | exitMain hpc => cases (hstuck hpc).1

theorem WorkerStep.handles (h : WorkerStep s i worker s') (hlocking : Locking maxthreads s)
    (hworker : s.workers[i]? = some worker) :
    s'.pc = s.pc ∧ s'.appstate = s.appstate ∧ s'.remaining < s.remaining ∧
      s'.exited = s.exited := by
  have hlt : ∀ phase : WorkerPhase, phase.remaining < worker.phase.remaining →
      (s.setPhase i worker phase).remaining < s.remaining :=
    fun phase => remaining_setPhase hworker
  cases h with
  | exitUninitialized _ hnone =>
    exact absurd hnone (hlocking.manager (.inl (workers_ne_nil hworker)))
  | finish hphase _ => exact ⟨rfl, rfl, hlt _ (by rw [hphase]; decide), rfl⟩
  | lock hphase _ => exact ⟨rfl, rfl, hlt (.unregister .search) (by rw [hphase]; decide), rfl⟩
  | search hphase _ => exact ⟨rfl, rfl, hlt (.unregister .unlock) (by rw [hphase]; decide), rfl⟩
  | unlock hphase => exact ⟨rfl, rfl, hlt .terminated (by rw [hphase]; decide), rfl⟩

/-- Every step of a thread brings the server nearer to its loop. -/
theorem InHandling.step (h : InHandling maxthreads s) (hmax : 0 < maxthreads)
    (hgoal : ¬ (s.pc = .loop ∧ s.exited = none)) (hok : s.ThreadStep a)
    (hstep : s.step maxthreads a = some s') :
    InHandling maxthreads s' ∧ s'.remaining < s.remaining := by
  have hpc : s.Handling := h.handling.resolve_left fun hpc => hgoal ⟨hpc, h.runs⟩
  have hkills : s.KillsOutside a := by
    cases a with
    | kill i => exact hok
    | _ => trivial
  have hlocking := h.locking.step hkills hstep
  cases step_cases hstep with
  | server h' =>
    obtain ⟨hor, hlt, hexited⟩ := h'.handles hmax h.locking hpc
    refine ⟨⟨hlocking, hexited.trans h.runs, ?_⟩, hlt⟩
    exact hor.imp_right fun ⟨hhandling, hne⟩ => ⟨hhandling, fun heq => absurd heq hne⟩
  | createFails hcreate =>
    refine ⟨⟨hlocking, h.runs, .inr ⟨rfl, nofun⟩⟩, remaining_of_pc rfl ?_⟩
    simp [hcreate, ServerPc.remaining]
  | created hcreate _ =>
    refine ⟨⟨hlocking, h.runs, .inr ⟨rfl, nofun⟩⟩, remaining_append rfl ?_⟩
    simp [hcreate, ServerPc.remaining]
  | worker hworker h' =>
    obtain ⟨hsame, hstate, hlt, hexited⟩ := h'.handles h.locking hworker
    refine ⟨⟨hlocking, hexited.trans h.runs, .inr ?_⟩, hlt⟩
    rw [Handling, hsame, hstate]
    exact hpc
  | kill hworker _ hlive =>
    exact ⟨⟨hlocking, h.runs, .inr hpc⟩, remaining_setPhase hworker (remaining_ended hlive)⟩
  | _ => cases hok

/-- Nobody but the server takes `worker_init_mutex`. -/
theorem Locking.initOwner_eq_none (h : Locking maxthreads s) (hpc : s.pc.holdsInit = false) :
    s.initOwner = none := by
  cases howner : s.initOwner with
  | none => rfl
  | some thread =>
    have hin := (h.initGuarded thread).mp howner
    cases thread with
    | server =>
      rw [HoldsInit, hpc] at hin
      cases hin
    | worker i => cases hin

/-- The server is blocked in front of the manager's mutex and nowhere else. -/
theorem Locking.serverStep_enabled (h : Locking maxthreads s) (hmax : 0 < maxthreads)
    (hpc : s.Handling) (hcreate : s.pc ≠ .createThread)
    (hfree : s.pc = .createLock → s.mgrOwner = none) :
    ∃ t, s.serverStep maxthreads true = some t := by
  obtain ⟨hhandling, hrun⟩ := hpc
  have hmgr : s.pc.initialized = true → ∃ mgr, s.workermgr = some mgr :=
    fun hinit => Option.ne_none_iff_exists'.mp (h.manager (.inr hinit))
  have hworks : s.pc.runsWorkerTh = true → ¬ 0 < maxthreads := h.disabled
  have hinit : s.pc.holdsInit = false → s.initOwner = none := h.initOwner_eq_none
  unfold Daemon.serverStep
  generalize s.pc = pc at *
  cases pc with
  | dispatch => rw [hrun rfl]; exact ⟨_, rfl⟩
  | createInitLock => rw [if_pos (hinit rfl)]; exact ⟨_, rfl⟩
  | createLock => rw [if_pos (hfree rfl)]; exact ⟨_, rfl⟩
  | createPoll err =>
    obtain ⟨mgr, hmgr⟩ := hmgr rfl
    rw [hmgr]
    by_cases hwait : err > 0 ∧ mgr.full maxthreads ∧ s.appstate = .run
    · exact ⟨_, if_pos hwait⟩
    · exact ⟨_, if_neg hwait⟩
  | createThread => exact absurd rfl hcreate
  | createRegister tid =>
    obtain ⟨mgr, hmgr⟩ := hmgr rfl
    rw [hmgr]
    exact ⟨_, rfl⟩
  | direct => exact absurd hmax (hworks rfl)
  | directUnregister pc => exact absurd hmax (hworks rfl)
  | _ => first | exact ⟨_, rfl⟩ | cases hhandling

/-- The worker that has the manager's mutex locked is not blocked. -/
theorem Locking.workerStep_enabled (h : Locking maxthreads s) (hin : s.HoldsMgr (.worker i)) :
    ∃ t, s.workerStep i = some t := by
  unfold Daemon.workerStep
  cases hworker : s.workers[i]? with
  | none => simp [HoldsMgr, hworker] at hin
  | some worker =>
    rw [holdsMgr_of_getElem? hworker] at hin
    have hmanager := h.manager (.inl (workers_ne_nil hworker))
    obtain ⟨mgr, hmgr⟩ := Option.ne_none_iff_exists'.mp hmanager
    simp only
    generalize worker.phase = phase at hin
    cases phase with
    | body => cases hin
    | terminated => cases hin
    | killed => cases hin
    | unregister pc =>
      cases pc with
      | lock => cases hin
      | search =>
        rw [hmgr]
        exact ⟨_, rfl⟩
      | unlock => exact ⟨_, rfl⟩

theorem InHandling.enabled (h : InHandling maxthreads s) (hmax : 0 < maxthreads)
    (hgoal : ¬ (s.pc = .loop ∧ s.exited = none)) :
    ∃ a t, s.ServerStepOrUnlock a ∧ s.step maxthreads a = some t := by
  have hpc : s.Handling := h.handling.resolve_left fun hpc => hgoal ⟨hpc, h.runs⟩
  -- the server waits for the outcome of `pthread_create`
  by_cases hcreate : s.pc = .createThread
  · exact ⟨.create none, _, trivial, by simp [Daemon.step, h.runs, createStep, hcreate]; rfl⟩
  · by_cases hblocked : s.pc = .createLock ∧ s.mgrOwner ≠ none
    -- a worker has the manager locked, and that worker can go on
    · obtain ⟨hlock, howner⟩ := hblocked
      obtain ⟨thread, howner⟩ := Option.ne_none_iff_exists'.mp howner
      have hin := (h.locking.guarded thread).mp howner
      cases thread with
      | server =>
        rw [HoldsMgr, hlock] at hin
        cases hin
      | worker i =>
        obtain ⟨t, ht⟩ := h.locking.workerStep_enabled hin
        exact ⟨.worker i, t, hin, by simp [Daemon.step, h.runs, ht]⟩
    -- nothing keeps the server waiting
    · have hfree : s.pc = .createLock → s.mgrOwner = none := by
        intro hlock
        by_contra howner
        exact hblocked ⟨hlock, howner⟩
      obtain ⟨t, ht⟩ := h.locking.serverStep_enabled hmax hpc hcreate hfree
      exact ⟨.server true, t, trivial, by simp [Daemon.step, h.runs, ht]⟩

/-- With worker threads the handling of a connection returns. -/
theorem Locking.returns (h : Locking maxthreads s) (hmax : 0 < maxthreads)
    (hruns : s.exited = none) (hpc : s.Handling) : s.Returns maxthreads := by
  refine leads_of_measure (InHandling maxthreads) remaining ?_ ?_ ⟨h, hruns, .inr hpc⟩
  · intro s h hgoal
    exact h.enabled hmax hgoal
  · intro s a s' h hgoal hok hstep
    exact h.step hmax hgoal hok hstep

/-! ### A worker that ends inside the critical section -/

/-- The manager's mutex is owned, and nobody is about to unlock it. -/
def Abandoned (s : Daemon) : Prop := s.mgrOwner ≠ none ∧ ∀ thread, ¬ s.HoldsMgr thread

/-- A worker that is cancelled inside the critical section leaves the mutex locked. -/
theorem Locking.abandoned (h : Locking maxthreads s) (hkill : ¬ s.KillsOutside a)
    (hstep : s.step maxthreads a = some s') : s'.Abandoned := by
  cases step_cases hstep with
  | @kill i worker hworker _ _ =>
    have hin : s.HoldsMgr (.worker i) := by
      simpa [KillsOutside, holdsMgr_of_getElem? hworker, hworker] using hkill
    have howner : s.mgrOwner = some (.worker i) := (h.guarded (.worker i)).mpr hin
    refine ⟨?_, ?_⟩
    · intro hfree
      cases howner.symm.trans hfree
    · intro thread hholds
      by_cases hthread : thread = .worker i
      · rw [hthread, holdsMgr_setPhase_self hworker, holdsMgr_ended] at hholds
        cases hholds
      · rw [holdsMgr_setPhase hworker hthread] at hholds
        exact hthread (h.guarded.unique hholds hin)
  | _ => exact absurd trivial hkill

/-- The other workers go on, but none of them gets the mutex. -/
theorem Abandoned.setPhase (h : s.Abandoned) (hworker : s.workers[i]? = some worker)
    (hphase : phase.holdsMgr = false) : (s.setPhase i worker phase).Abandoned := by
  refine ⟨h.1, ?_⟩
  intro thread hholds
  by_cases hthread : thread = .worker i
  · rw [hthread, holdsMgr_setPhase_self hworker, hphase] at hholds
    cases hholds
  · rw [holdsMgr_setPhase hworker hthread] at hholds
    exact h.2 thread hholds

/-- A step that leaves the mutex and the workers alone. -/
theorem Abandoned.frame (h : s.Abandoned) (howner : s'.mgrOwner = s.mgrOwner)
    (hworkers : ∀ i, s'.HoldsMgr (.worker i) ↔ s.HoldsMgr (.worker i))
    (hserver : ¬ s'.HoldsMgr .server) : s'.Abandoned := by
  refine ⟨howner ▸ h.1, ?_⟩
  intro thread hholds
  cases thread with
  | server => exact hserver hholds
  | worker i => exact h.2 (.worker i) ((hworkers i).mp hholds)

theorem Abandoned.serverStep (h : s.Abandoned) (hstep : ServerStep maxthreads s ok s') :
    s'.Abandoned := by
  have hlock : s'.mgrOwner = s.mgrOwner ∧ ¬ s'.HoldsMgr .server := by
    cases hstep.lockStep with
    | keep howner hheld => exact ⟨howner, mt hheld.mp (h.2 .server)⟩
    | acquire hfree _ _ => exact absurd hfree h.1
    | release hheld _ _ => exact absurd hheld (h.2 .server)
  exact h.frame hlock.1 hstep.holdsMgr_worker hlock.2

theorem Abandoned.workerStep (h : s.Abandoned) (hworker : s.workers[i]? = some worker)
    (hstep : WorkerStep s i worker s') : s'.Abandoned := by
  have hout : worker.phase.holdsMgr = false := by
    by_contra hin
    exact h.2 (.worker i) ((holdsMgr_of_getElem? hworker).mpr (by simpa using hin))
  cases hstep with
  | exitUninitialized _ _ => exact h
  | finish _ _ => exact h.setPhase hworker rfl
  | lock _ hfree => exact absurd hfree h.1
  | search hphase _ =>
    rw [hphase] at hout
    cases hout
  | unlock hphase =>
    rw [hphase] at hout
    cases hout

/-- An abandoned mutex stays locked. -/
theorem Abandoned.step (h : s.Abandoned) (hstep : s.step maxthreads a = some s') :
    s'.Abandoned := by
  have hserver : s.pc.holdsMgr = false := by
    simpa [HoldsMgr] using h.2 .server
  have hout : ∀ {pc appstate}, pc.holdsMgr = false →
      Abandoned { s with pc := pc, appstate := appstate } := by
    intro pc appstate hpc
    exact h.frame rfl (fun _ => .rfl) (by simp [HoldsMgr, hpc])
  cases step_cases hstep with
  | server hstep => exact h.serverStep hstep
  | worker hworker hstep => exact h.workerStep hworker hstep
  | kill hworker _ _ => exact h.setPhase hworker (holdsMgr_ended _)
  | createFails hpc =>
    rw [hpc] at hserver
    cases hserver
  | created hpc _ =>
    rw [hpc] at hserver
    cases hserver
  | accepted _ => exact hout rfl
  | interrupted _ _ => exact hout rfl
  | stopped _ _ => exact hout rfl
  | acceptFails _ => exact hout rfl
  | readFails _ => exact hout rfl
  | read _ => exact hout rfl
  | xalloc => exact h
  | sigterm => exact h
  | reload => exact h

/-- Threads are created with the mutex locked. -/
theorem Abandoned.not_creates {thread : Option Nat} (h : s.Abandoned) :
    s.step maxthreads (.create thread) ≠ some s' := by
  intro hstep
  have hpc : s.pc = .createThread := by
    cases step_cases hstep with
    | createFails hpc => exact hpc
    | created hpc _ => exact hpc
  apply h.2 .server
  rw [HoldsMgr, hpc]
  rfl

/-- In no run behind an abandoned mutex a thread is created. -/
theorem Abandoned.run {okLater : Daemon → Action → Prop} (h : s.Abandoned)
    (hrun : Run (Daemon.step maxthreads) okLater s w t) :
    t.Abandoned ∧ ∀ thread, .create thread ∉ w := by
  induction hrun with
  | nil => exact ⟨h, fun _ => List.not_mem_nil⟩
  | snoc _ _ hstep ih =>
    refine ⟨ih.1.step hstep, ?_⟩
    intro thread hmem
    rcases List.mem_append.mp hmem with hmem | hmem
    · exact ih.2 thread hmem
    · obtain rfl := List.mem_singleton.mp hmem
      exact ih.1.not_creates hstep

/-- In front of an abandoned mutex the server waits for good. -/
theorem Abandoned.not_returns (h : s.Abandoned) (hmax : 0 < maxthreads)
    (hbefore : s.pc.beforeLock = true) (hrun : s.pc = .dispatch → s.appstate = .run) :
    ¬ s.Returns maxthreads := by
  intro hreturns
  induction hreturns with
  | here hgoal =>
    rw [hgoal.1] at hbefore
    cases hbefore
  | there hwill _ ih =>
    obtain ⟨a, t, hok, hstep⟩ := hwill
    have ht : t.Abandoned := h.step hstep
    cases step_cases hstep with
    | @server ok _ hserver =>
      have hnext := ih (.server ok) _ trivial hstep ht
      -- on its way to the mutex the server stays in front of it
      cases hserver with
      | move hmove =>
        cases hmove with
        | handle _ _ _ => exact hnext rfl nofun
        | direct _ _ hnone => exact hnone hmax
        | reload hpc hstate => cases (hrun hpc).symm.trans hstate
        | skip hpc hstate =>
          rw [hrun hpc] at hstate
          rcases hstate with hstate | hstate <;> cases hstate
        | _ => simp_all [ServerPc.beforeLock]
      | lockInit _ _ => exact hnext rfl nofun
      | initManager _ => exact hnext rfl nofun
      | unlockInit _ => exact hnext rfl nofun
      -- and there it is blocked
      | lock _ hfree => exact h.1 hfree
      | _ => simp_all [ServerPc.beforeLock]
    -- no other thread is bound to take a step
    | @worker i _ _ _ _ => exact h.2 (.worker i) hok
    | createFails hpc =>
      rw [hpc] at hbefore
      cases hbefore
    | created hpc _ =>
      rw [hpc] at hbefore
      cases hbefore
    | _ => exact hok

/-- A worker that cannot be registered is cancelled, and takes the manager's mutex on its way
out. -/
def cancelledRun : List Action :=
  [.server true, .accept .conn] ++ List.replicate 8 (.server true) ++ [.create (some 1)] ++
    [.server false] ++ List.replicate 5 (.server true) ++ List.replicate 3 (.worker 0)

theorem exited_ne_xalloc (hmemory : ∀ thread, a ≠ .xalloc thread)
    (hstep : s.step maxthreads a = some s') : s'.exited ≠ some .xalloc := by
  intro hexited
  have hexit := exitStep_of_step hstep
  rw [hexited] at hexit
  cases hexit with
  | xalloc => exact hmemory _ rfl

/-- In undisturbed runs with worker threads no request ends the process. -/
theorem not_endedByRequest (hmax : 0 < maxthreads) {appstate : Appstate} {rblist : List Cfgitem}
    (hrun : Run (step maxthreads) Undisturbed (init appstate rblist) w t) :
    ¬ t.EndedByRequest := by
  have hboth : Locking maxthreads t ∧ ¬ t.EndedByRequest := by
    refine hrun.invariant (P := fun s => Locking maxthreads s ∧ ¬ s.EndedByRequest)
      ⟨locking_init appstate rblist, ?_⟩ ?_
    · rintro (h | h) <;> cases h
    · rintro s a s' ⟨hlocking, -⟩ ⟨hmemory, hkills⟩ hstep
      refine ⟨hlocking.step hkills hstep, ?_⟩
      rintro (hexited | hexited)
      · exact hlocking.exited_ne hmax hstep hexited
      · exact exited_ne_xalloc hmemory hstep hexited
  exact hboth.2

/-- The actions of the server for its first connection. -/
def firstConnection : List Action := [.server true, .accept .conn, .server true, .server true]

/-- Without worker threads the first connection ends the process. -/
theorem exits_of_disabled (hmax : ¬ 0 < maxthreads) :
    ∃ t, Run (step maxthreads) Undisturbed (init .run []) firstConnection t ∧
      t.exited = some .wthreadExit := by
  have hok : ∀ s ok, Undisturbed s (.server ok) := fun _ _ => ⟨nofun, trivial⟩
  refine ⟨{ init .run [] with pc := .direct, exited := some .wthreadExit }, ?_, rfl⟩
  refine .cons (hok _ _) (t := { init .run [] with pc := .accept }) rfl ?_
  refine .cons ⟨nofun, trivial⟩ (t := { init .run [] with pc := .dispatch }) rfl ?_
  refine .cons (hok _ _) (t := { init .run [] with pc := .direct }) ?_ ?_
  · simp [step, init, serverStep, hmax]
  · exact .cons (hok _ _) rfl .nil

/-- Every request is handled and leaves the daemon running exactly when there are worker
threads. -/
theorem handlesRequests_iff (maxthreads : Int) : HandlesRequests maxthreads ↔ 0 < maxthreads := by
  constructor
  · intro h
    by_contra hmax
    obtain ⟨t, hrun, hexited⟩ := exits_of_disabled hmax
    exact (h .run [] _ t hrun).1 (.inl hexited)
  · intro hmax appstate rblist w t hrun
    refine ⟨not_endedByRequest hmax hrun, fun hruns hpc => ?_⟩
    have hlocking : Locking maxthreads t := .run (hrun.mono fun _ _ hok => hok.2)
    exact hlocking.returns hmax hruns hpc

/-- With the documented value for no threads the daemon ends at its first request. -/
theorem exits_at_first_request :
    ∃ t, Run (step 0) Undisturbed (init .run []) firstConnection t ∧
      t.exited = some .wthreadExit ∧ ¬ HandlesRequests 0 := by
  have hzero : ¬ (0 : Int) < 0 := by decide
  obtain ⟨t, hrun, hexited⟩ := exits_of_disabled hzero
  exact ⟨t, hrun, hexited, fun h => (h .run [] _ t hrun).1 (.inl hexited)⟩

end Daemon

end Rblpolicyd
