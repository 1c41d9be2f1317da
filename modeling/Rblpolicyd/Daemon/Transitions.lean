import Rblpolicyd.Daemon.Server

/-!
# What a step of the daemon can do

The steps of the server thread and of the workers, sorted by what they change. Most
steps of the server only move it to its next point; the others concern the two
mutexes, the manager, the workers, the state of the daemon and the list. The
invariants of the daemon are proved by cases on these relations.

## Main definitions

* `Daemon.ServerMoves`, `Daemon.ServerStep` — the steps of the server thread
* `Daemon.WorkerStep` — the steps of a worker
* `Daemon.DaemonStep` — all steps, the calls that return and the signals among them
* `Daemon.ExitStep` — the steps that end the process

## Main results

* `Daemon.serverStep_cases`, `Daemon.workerStep_cases`, `Daemon.step_cases` — every step is
  among these
-/

namespace Rblpolicyd

namespace Daemon

/-- The steps of the server thread that change nothing but its point. -/
inductive ServerMoves (maxthreads : Int) (s : Daemon) : ServerPc → Prop
  | accept (hpc : s.pc = .loop) (hrun : s.appstate ≠ .exit ∧ s.appstate ≠ .error) :
      ServerMoves maxthreads s .accept
  | leave (hpc : s.pc = .loop) (hstop : ¬ (s.appstate ≠ .exit ∧ s.appstate ≠ .error)) :
      ServerMoves maxthreads s .returned
  | handle (hpc : s.pc = .dispatch) (hstate : s.appstate = .run) (hmax : maxthreads > 0) :
      ServerMoves maxthreads s .createInitLock
  | direct (hpc : s.pc = .dispatch) (hstate : s.appstate = .run) (hmax : ¬ maxthreads > 0) :
      ServerMoves maxthreads s .direct
  | reload (hpc : s.pc = .dispatch) (hstate : s.appstate = .reload) :
      ServerMoves maxthreads s .waitManager
  | skip (hpc : s.pc = .dispatch) (hstate : s.appstate = .exit ∨ s.appstate = .error) :
      ServerMoves maxthreads s .loop
  | poll {err : Nat} {mgr : ThrMgr} (hpc : s.pc = .createPoll err) (hmgr : s.workermgr = some mgr)
      (hwait : err > 0 ∧ mgr.full maxthreads ∧ s.appstate = .run) :
      ServerMoves maxthreads s (.createPoll (err - 1))
  | polled {err : Nat} {mgr : ThrMgr} (hpc : s.pc = .createPoll err)
      (hmgr : s.workermgr = some mgr)
      (hdone : ¬ (err > 0 ∧ mgr.full maxthreads ∧ s.appstate = .run)) :
      ServerMoves maxthreads s (.createAppstate err)
  | stopped {err : Nat} (hpc : s.pc = .createAppstate err) (hstate : s.appstate ≠ .run) :
      ServerMoves maxthreads s (.createUnlock (-errThrAppstate))
  | running {err : Nat} (hpc : s.pc = .createAppstate err) (hstate : s.appstate = .run) :
      ServerMoves maxthreads s (.createLimit err)
  | tooMany {err : Nat} (hpc : s.pc = .createLimit err) (herr : err ≤ 0) :
      ServerMoves maxthreads s (.createUnlock (-errThrToomany))
  | create {err : Nat} (hpc : s.pc = .createLimit err) (herr : ¬ err ≤ 0) :
      ServerMoves maxthreads s .createThread
  | close (hpc : s.pc = .createClose) : ServerMoves maxthreads s (.createUnlock (-errThrSyserr))
  | statsLock (hpc : s.pc = .createStatsLock) : ServerMoves maxthreads s .createStatsUnlock
  | statsUnlock (hpc : s.pc = .createStatsUnlock) : ServerMoves maxthreads s (.created 0)
  | failed {res : Int} (hpc : s.pc = .created res) (hres : res ≠ 0) :
      ServerMoves maxthreads s .closeConn
  | succeeded {res : Int} (hpc : s.pc = .created res) (hres : res = 0) :
      ServerMoves maxthreads s .loop
  | closed (hpc : s.pc = .closeConn) : ServerMoves maxthreads s .loop
  | directExit {mgr : ThrMgr} (hpc : s.pc = .direct) (hmgr : s.workermgr = some mgr) :
      ServerMoves maxthreads s (.directUnregister .lock)
  | wait {mgr : ThrMgr} (hpc : s.pc = .waitManager) (hmgr : s.workermgr = some mgr) :
      ServerMoves maxthreads s (.reloadWait 400)
  | waiting {err : Nat} {mgr : ThrMgr} (hpc : s.pc = .reloadWait err)
      (hmgr : s.workermgr = some mgr)
      (hwait : err > 0 ∧ mgr.nthreads ≠ 0 ∧ s.appstate ≠ .exit) :
      ServerMoves maxthreads s (.reloadWait (err - 1))
  | notReloaded {err : Nat} {mgr : ThrMgr} (hpc : s.pc = .reloadWait err)
      (hmgr : s.workermgr = some mgr) (herr : err ≠ 0) : ServerMoves maxthreads s .reloadReset
  | waited {mgr : ThrMgr} (hpc : s.pc = .reloadWait 0) (hmgr : s.workermgr = some mgr) :
      ServerMoves maxthreads s .reloadRead
  | shutdown (hpc : s.pc = .returned) : ServerMoves maxthreads s .mainFree

/-- The steps of the server thread. -/
inductive ServerStep (maxthreads : Int) (s : Daemon) : Bool → Daemon → Prop
  | move {ok : Bool} {pc : ServerPc} (h : s.ServerMoves maxthreads pc) :
      ServerStep maxthreads s ok { s with pc := pc }
  | lockInit {ok : Bool} (hpc : s.pc = .createInitLock) (hfree : s.initOwner = none) :
      ServerStep maxthreads s ok { s with initOwner := some .server, pc := .createInit }
  | initManager {ok : Bool} (hpc : s.pc = .createInit) :
      ServerStep maxthreads s ok
        { s with workermgr := s.workermgr.or (some ThrMgr.init), pc := .createInitUnlock }
  | unlockInit {ok : Bool} (hpc : s.pc = .createInitUnlock) :
      ServerStep maxthreads s ok { s with initOwner := none, pc := .createLock }
  | lock {ok : Bool} (hpc : s.pc = .createLock) (hfree : s.mgrOwner = none) :
      ServerStep maxthreads s ok { s with mgrOwner := some .server, pc := .createPoll 20 }
  | register {tid : Nat} {mgr : ThrMgr} (hpc : s.pc = .createRegister tid)
      (hmgr : s.workermgr = some mgr) :
      ServerStep maxthreads s true
        { s with workermgr := some ⟨mgr.nthreads + 1, tid :: mgr.tlist⟩, pc := .createUnlock 0 }
  | registerFails {tid : Nat} {mgr : ThrMgr} (hpc : s.pc = .createRegister tid)
      (hmgr : s.workermgr = some mgr) :
      ServerStep maxthreads s false
        { s with workermgr := some ⟨mgr.nthreads + 1, mgr.tlist⟩, pc := .createCancel }
  | cancel {ok : Bool} (hpc : s.pc = .createCancel) :
      ServerStep maxthreads s ok { s with workers := cancelLast s.workers, pc := .createClose }
  | unlock {ok : Bool} {res : Int} (hpc : s.pc = .createUnlock res) :
      ServerStep maxthreads s ok
        { s with mgrOwner := none, pc := if res = 0 then .createStatsLock else .created res }
  | exitDirect {ok : Bool} (hpc : s.pc = .direct) (hmgr : s.workermgr = none) :
      ServerStep maxthreads s ok { s with exited := some .wthreadExit }
  | lockDirect {ok : Bool} (hpc : s.pc = .directUnregister .lock) (hfree : s.mgrOwner = none) :
      ServerStep maxthreads s ok
        { s with mgrOwner := some .server, pc := .directUnregister .search }
  | searchDirect {ok : Bool} {mgr : ThrMgr} (hpc : s.pc = .directUnregister .search)
      (hmgr : s.workermgr = some mgr) :
      ServerStep maxthreads s ok
        { s with
          workermgr := some (thrUnregister mgr serverTid).2
          pc := .directUnregister .unlock }
  | unlockDirect {ok : Bool} (hpc : s.pc = .directUnregister .unlock) :
      ServerStep maxthreads s ok { s with mgrOwner := none, pc := .loop }
  | exitWait {ok : Bool} (hpc : s.pc = .waitManager) (hmgr : s.workermgr = none) :
      ServerStep maxthreads s ok { s with exited := some .waitcomplete }
  | free {ok : Bool} {newlist : List Cfgitem} (hpc : s.pc = .reloadFree newlist) :
      ServerStep maxthreads s ok { s with rblist := newlist, pc := .reloadReset }
  | reset {ok : Bool} (hpc : s.pc = .reloadReset) :
      ServerStep maxthreads s ok { s with appstate := .run, pc := .loop }
  | mainFree {ok : Bool} (hpc : s.pc = .mainFree) :
      ServerStep maxthreads s ok { s with rblist := [], pc := .ended }
  | exitMain {ok : Bool} (hpc : s.pc = .ended) :
      ServerStep maxthreads s ok { s with exited := some .main }

/-- The steps of worker `i`. -/
inductive WorkerStep (s : Daemon) (i : Nat) (worker : PoolWorker) : Daemon → Prop
  | exitUninitialized (hphase : worker.phase = .body) (hmgr : s.workermgr = none) :
      WorkerStep s i worker { s with exited := some .wthreadExit }
  | finish {mgr : ThrMgr} (hphase : worker.phase = .body) (hmgr : s.workermgr = some mgr) :
      WorkerStep s i worker (s.setPhase i worker (.unregister .lock))
  | lock (hphase : worker.phase = .unregister .lock) (hfree : s.mgrOwner = none) :
      WorkerStep s i worker
        { s.setPhase i worker (.unregister .search) with mgrOwner := some (.worker i) }
  | search {mgr : ThrMgr} (hphase : worker.phase = .unregister .search)
      (hmgr : s.workermgr = some mgr) :
      WorkerStep s i worker
        { s.setPhase i worker (.unregister .unlock) with
          workermgr := some (thrUnregister mgr worker.tid).2 }
  | unlock (hphase : worker.phase = .unregister .unlock) :
      WorkerStep s i worker { s.setPhase i worker .terminated with mgrOwner := none }

/-- The steps of the daemon. -/
inductive DaemonStep (maxthreads : Int) (s : Daemon) : Action → Daemon → Prop
  | server {ok : Bool} {s' : Daemon} (h : ServerStep maxthreads s ok s') :
      DaemonStep maxthreads s (.server ok) s'
  | accepted (hpc : s.pc = .accept) :
      DaemonStep maxthreads s (.accept .conn) { s with pc := .dispatch }
  | interrupted (hpc : s.pc = .accept) (hstate : s.appstate = .run) :
      DaemonStep maxthreads s (.accept .eintr) { s with pc := .loop }
  | stopped (hpc : s.pc = .accept) (hstate : s.appstate ≠ .run) :
      DaemonStep maxthreads s (.accept .eintr) { s with pc := .returned }
  | acceptFails (hpc : s.pc = .accept) :
      DaemonStep maxthreads s (.accept .failed)
        { s with appstate := if s.appstate = .run then .error else s.appstate, pc := .returned }
  | createFails (hpc : s.pc = .createThread) :
      DaemonStep maxthreads s (.create none) { s with pc := .createUnlock (-errThrSyserr) }
  | created {tid : Nat} (hpc : s.pc = .createThread) (hfresh : tid ∉ s.liveTids) :
      DaemonStep maxthreads s (.create (some tid))
        { s with workers := s.workers ++ [⟨tid, .body, false⟩], pc := .createRegister tid }
  | readFails (hpc : s.pc = .reloadRead) :
      DaemonStep maxthreads s (.read none) { s with pc := .reloadReset }
  | read {newlist : List Cfgitem} (hpc : s.pc = .reloadRead) :
      DaemonStep maxthreads s (.read (some newlist)) { s with pc := .reloadFree newlist }
  | worker {i : Nat} {worker : PoolWorker} {s' : Daemon} (hworker : s.workers[i]? = some worker)
      (h : WorkerStep s i worker s') : DaemonStep maxthreads s (.worker i) s'
  | kill {i : Nat} {worker : PoolWorker} (hworker : s.workers[i]? = some worker)
      (hcancelled : worker.cancelled = true) (hlive : worker.phase.gone = false) :
      DaemonStep maxthreads s (.kill i) (s.setPhase i worker worker.phase.ended)
  | xalloc {thread : Thread} :
      DaemonStep maxthreads s (.xalloc thread) { s with exited := some .xalloc }
  | sigterm : DaemonStep maxthreads s .sigterm { s with appstate := .exit }
  | reload : DaemonStep maxthreads s .reload { s with appstate := .reload }

variable {maxthreads : Int} {s s' : Daemon} {ok : Bool} {i : Nat} {a : Action}

theorem serverStep_cases (h : s.serverStep maxthreads ok = some s') :
    ServerStep maxthreads s ok s' := by
  unfold serverStep at h
  split at h
  -- the head of the accept loop
  case h_1 hpc =>
    obtain rfl := Option.some.inj h
    split_ifs with hrun
    · exact .move (.accept hpc hrun)
    · exact .move (.leave hpc hrun)
  -- `accept` returns by an action of its own
  case h_2 => cases h
  -- the switch on the state
  case h_3 hpc =>
    split at h
    · obtain rfl := Option.some.inj h
      split_ifs with hmax
      · exact .move (.handle hpc ‹_› hmax)
      · exact .move (.direct hpc ‹_› hmax)
    · obtain rfl := Option.some.inj h
      exact .move (.reload hpc ‹_›)
    · obtain rfl := Option.some.inj h
      exact .move (.skip hpc (.inl ‹_›))
    · obtain rfl := Option.some.inj h
      exact .move (.skip hpc (.inr ‹_›))
  -- the creation of the manager
  case h_4 hpc =>
    obtain ⟨hfree, ⟨⟩⟩ := Option.ite_none_right_eq_some.mp h
    exact .lockInit hpc hfree
  case h_5 hpc =>
    obtain rfl := Option.some.inj h
    exact .initManager hpc
  case h_6 hpc =>
    obtain rfl := Option.some.inj h
    exact .unlockInit hpc
  -- the manager is locked
  case h_7 hpc =>
    obtain ⟨hfree, ⟨⟩⟩ := Option.ite_none_right_eq_some.mp h
    exact .lock hpc hfree
  -- the polling for room
  case h_8 err hpc =>
    split at h
    · cases h
    · split_ifs at h with hwait
      · obtain rfl := Option.some.inj h
        exact .move (.poll hpc ‹_› hwait)
      · obtain rfl := Option.some.inj h
        exact .move (.polled hpc ‹_› hwait)
  -- the two tests behind it
  case h_9 err hpc =>
    obtain rfl := Option.some.inj h
    split_ifs with hstate
    · exact .move (.stopped hpc hstate)
    · exact .move (.running hpc (not_not.mp hstate))
  case h_10 err hpc =>
    obtain rfl := Option.some.inj h
    split_ifs with herr
    · exact .move (.tooMany hpc herr)
    · exact .move (.create hpc herr)
  -- `pthread_create` returns by an action of its own
  case h_11 => cases h
  -- the registration
  case h_12 tid hpc =>
    split at h
    · cases h
    · obtain rfl := Option.some.inj h
      cases ok with
      | true => exact .register hpc ‹_›
      | false => exact .registerFails hpc ‹_›
  -- the way out behind a failed registration
  case h_13 hpc =>
    obtain rfl := Option.some.inj h
    exact .cancel hpc
  case h_14 hpc =>
    obtain rfl := Option.some.inj h
    exact .move (.close hpc)
  -- the unlock
  case h_15 res hpc =>
    obtain rfl := Option.some.inj h
    exact .unlock hpc
  -- the statistics
  case h_16 hpc =>
    obtain rfl := Option.some.inj h
    exact .move (.statsLock hpc)
  case h_17 hpc =>
    obtain rfl := Option.some.inj h
    exact .move (.statsUnlock hpc)
  -- the result of `wthread_create`
  case h_18 res hpc =>
    obtain rfl := Option.some.inj h
    split_ifs with hres
    · exact .move (.failed hpc hres)
    · exact .move (.succeeded hpc (not_not.mp hres))
  case h_19 hpc =>
    obtain rfl := Option.some.inj h
    exact .move (.closed hpc)
  -- `worker_th` in the server thread
  case h_20 hpc =>
    split at h
    · obtain rfl := Option.some.inj h
      exact .exitDirect hpc ‹_›
    · obtain rfl := Option.some.inj h
      exact .move (.directExit hpc ‹_›)
  case h_21 hpc =>
    obtain ⟨hfree, ⟨⟩⟩ := Option.ite_none_right_eq_some.mp h
    exact .lockDirect hpc hfree
  case h_22 hpc =>
    split at h
    · cases h
    · obtain rfl := Option.some.inj h
      exact .searchDirect hpc ‹_›
  case h_23 hpc =>
    obtain rfl := Option.some.inj h
    exact .unlockDirect hpc
  -- the wait of a reload
  case h_24 hpc =>
    split at h
    · obtain rfl := Option.some.inj h
      exact .exitWait hpc ‹_›
    · obtain rfl := Option.some.inj h
      exact .move (.wait hpc ‹_›)
  case h_25 err hpc =>
    split at h
    · cases h
    · split_ifs at h with hwait herr
      · obtain rfl := Option.some.inj h
        exact .move (.waiting hpc ‹_› hwait)
      · obtain rfl := Option.some.inj h
        exact .move (.notReloaded hpc ‹_› herr)
      · obtain rfl := Option.some.inj h
        obtain rfl := not_not.mp herr
        exact .move (.waited hpc ‹_›)
  -- `cfg_read` returns by an action of its own
  case h_26 => cases h
  -- the exchange of the lists
  case h_27 newlist hpc =>
    obtain rfl := Option.some.inj h
    exact .free hpc
  case h_28 hpc =>
    obtain rfl := Option.some.inj h
    exact .reset hpc
  -- `main` behind the loop
  case h_29 hpc =>
    obtain rfl := Option.some.inj h
    exact .move (.shutdown hpc)
  case h_30 hpc =>
    obtain rfl := Option.some.inj h
    exact .mainFree hpc
  case h_31 hpc =>
    obtain rfl := Option.some.inj h
    exact .exitMain hpc

theorem workerStep_cases (h : s.workerStep i = some s') :
    ∃ worker, s.workers[i]? = some worker ∧ WorkerStep s i worker s' := by
  unfold workerStep at h
  split at h
  · cases h
  · rename_i worker hworker
    refine ⟨worker, hworker, ?_⟩
    -- by the phase of the worker
    split at h
    -- it calls `wthread_exit`
    · split at h
      · obtain rfl := Option.some.inj h
        exact .exitUninitialized ‹_› ‹_›
      · obtain rfl := Option.some.inj h
        exact .finish ‹_› ‹_›
    -- it locks the manager
    · obtain ⟨hfree, ⟨⟩⟩ := Option.ite_none_right_eq_some.mp h
      exact .lock ‹_› hfree
    -- it searches its entry
    · split at h
      · cases h
      -- it unlocks the manager
      · obtain rfl := Option.some.inj h
        exact .search ‹_› ‹_›
    · obtain rfl := Option.some.inj h
      exact .unlock ‹_›
    · cases h
    · cases h

theorem WorkerStep.pc_eq {worker : PoolWorker} (hstep : WorkerStep s i worker s') :
    s'.pc = s.pc := by
  cases hstep <;> rfl

theorem acceptStep_cases {res : AcceptResult} (h : s.acceptStep res = some s') :
    DaemonStep maxthreads s (.accept res) s' := by
  obtain ⟨hpc, h⟩ := Option.ite_none_left_eq_some.mp h
  have hpc := not_not.mp hpc
  cases res with
  | conn =>
    obtain rfl := Option.some.inj h
    exact .accepted hpc
  | eintr =>
    obtain rfl := Option.some.inj h
    split_ifs with hstate
    · exact .interrupted hpc hstate
    · exact .stopped hpc hstate
  | failed =>
    obtain rfl := Option.some.inj h
    exact .acceptFails hpc

theorem createStep_cases {thread : Option Nat} (h : s.createStep thread = some s') :
    DaemonStep maxthreads s (.create thread) s' := by
  obtain ⟨hpc, h⟩ := Option.ite_none_left_eq_some.mp h
  have hpc := not_not.mp hpc
  cases thread with
  | none =>
    obtain rfl := Option.some.inj h
    exact .createFails hpc
  | some tid =>
    obtain ⟨hfresh, ⟨⟩⟩ := Option.ite_none_left_eq_some.mp h
    exact .created hpc hfresh

theorem readStep_cases {newlist : Option (List Cfgitem)} (h : s.readStep newlist = some s') :
    DaemonStep maxthreads s (.read newlist) s' := by
  obtain ⟨hpc, h⟩ := Option.ite_none_left_eq_some.mp h
  have hpc := not_not.mp hpc
  cases newlist with
  | none =>
    obtain rfl := Option.some.inj h
    exact .readFails hpc
  | some newlist =>
    obtain rfl := Option.some.inj h
    exact .read hpc

theorem killStep_cases (h : s.killStep i = some s') : DaemonStep maxthreads s (.kill i) s' := by
  unfold killStep at h
  split at h
  · cases h
  · rename_i worker hworker
    obtain ⟨⟨hcancelled, hphase⟩, ⟨⟩⟩ := Option.ite_none_right_eq_some.mp h
    apply DaemonStep.kill hworker hcancelled
    rcases hphase with hphase | hphase <;> rw [hphase] <;> rfl

/-- Steps are only taken while the process runs. -/
theorem runs_of_step (h : s.step maxthreads a = some s') : s.exited = none :=
  not_not.mp (Option.ite_none_left_eq_some.mp h).1

theorem step_cases (h : s.step maxthreads a = some s') : DaemonStep maxthreads s a s' := by
  obtain ⟨-, h⟩ := Option.ite_none_left_eq_some.mp h
  cases a with
  | server ok => exact .server (serverStep_cases h)
  | accept res => exact acceptStep_cases h
  | create thread => exact createStep_cases h
  | read newlist => exact readStep_cases h
  | worker i =>
    obtain ⟨worker, hworker, hcases⟩ := workerStep_cases h
    exact .worker hworker hcases
  | kill i => exact killStep_cases h
  | xalloc thread =>
    obtain ⟨-, ⟨⟩⟩ := Option.ite_none_right_eq_some.mp h
    exact .xalloc
  | sigterm =>
    obtain rfl := Option.some.inj h
    exact .sigterm
  | reload =>
    obtain ⟨-, ⟨⟩⟩ := Option.ite_none_right_eq_some.mp h
    exact .reload

/-- The step ends the process, or does not. -/
inductive ExitStep (s : Daemon) : Action → Option ExitSite → Prop
  | runs {a : Action} : ExitStep s a none
  | main {ok : Bool} (hpc : s.pc = .ended) : ExitStep s (.server ok) (some .main)
  | waitcomplete {ok : Bool} (hpc : s.pc = .waitManager) (hmgr : s.workermgr = none) :
      ExitStep s (.server ok) (some .waitcomplete)
  | wthreadExit {a : Action} (hmgr : s.workermgr = none)
      (hthread : s.pc = .direct ∨ s.workers ≠ []) : ExitStep s a (some .wthreadExit)
  | xalloc {thread : Thread} : ExitStep s (.xalloc thread) (some .xalloc)

theorem exitStep_of_step (hstep : s.step maxthreads a = some s') : ExitStep s a s'.exited := by
  have hsame : s'.exited = s.exited → ExitStep s a s'.exited := by
    intro heq
    rw [heq, runs_of_step hstep]
    exact .runs
  cases step_cases hstep with
  | server h =>
    cases h with
    | exitDirect hpc hmgr => exact .wthreadExit hmgr (.inl hpc)
    | exitWait hpc hmgr => exact .waitcomplete hpc hmgr
    | exitMain hpc => exact .main hpc
    | _ => exact hsame rfl
  | worker hworker h =>
    cases h with
    | exitUninitialized _ hmgr =>
      exact .wthreadExit hmgr (.inr (List.ne_nil_of_mem (List.mem_of_getElem? hworker)))
    | _ => exact hsame rfl
  | xalloc => exact .xalloc
  | _ => exact hsame rfl

end Daemon

end Rblpolicyd
