import Rblpolicyd.Daemon.Transitions
import Rblpolicyd.Semantics.Run

/-!
# When the list is freed

The list of blacklists is freed by `main` behind the accept loop and by a reload, while
workers and their solvers hold pointers into it. The first place waits for nobody. The
second calls `thr_waitcomplete`, whose result is the rounds that are left and not the
workers that are alive, so that a reload goes on exactly when the workers outlast the wait.
Both are safe in the runs in which no worker is left at these points.

## Main definitions

* `Daemon.FreesList` — the next step of the server thread is `cfg_free(&rblist)`
* `Daemon.LeavesIdle` — the step leaves the loop, or runs out of the wait, without workers

## Main results

* `Daemon.freesList_idle` — in runs of such steps the list has no users when it is freed
* `Daemon.not_freesList_of_killed` — and it is not freed behind a worker that was killed
* `Daemon.exists_freesList_in_use` — any other step lets the server free the list in use
-/

namespace Rblpolicyd

/-- The points behind the loop and behind the wait, from which the list is freed. -/
def ServerPc.freesSoon : ServerPc → Bool
  | .returned | .mainFree | .reloadWait 0 | .reloadRead | .reloadFree _ => true
  | _ => false

namespace Daemon

open Semantics

variable {maxthreads : Int} {s s' t : Daemon} {a : Action} {ok : Bool} {i : Nat} {w : List Action}

/-- No worker is between its creation and its call of `wthread_exit`. A worker that has been
killed there counts for good: its solvers may go on. -/
def NoneInBody (s : Daemon) : Prop := ∀ worker ∈ s.workers, worker.phase.beforeExit = false

instance (s : Daemon) : Decidable s.NoneInBody :=
  inferInstanceAs (Decidable (∀ worker ∈ s.workers, worker.phase.beforeExit = false))

/-- The next step of the server thread applies `cfg_free` to the list at `rblist`. -/
def FreesList (s : Daemon) : Prop := s.pc = .mainFree ∨ ∃ newlist, s.pc = .reloadFree newlist

/-- The step leaves the accept loop: a signal has been seen, or `accept` has failed. -/
def leavesLoop (s : Daemon) : Action → Bool
  | .server _ => s.pc = .loop ∧ (s.appstate = .exit ∨ s.appstate = .error)
  | .accept .eintr => s.pc = .accept ∧ s.appstate ≠ .run
  | .accept .failed => s.pc = .accept
  | _ => false

/-- The step ends the last round of the wait for the workers. -/
def waitsOut (s : Daemon) : Action → Bool
  | .server _ =>
    s.pc = .reloadWait 1 ∧ s.workermgr.any (fun mgr => mgr.nthreads ≠ 0) ∧ s.appstate ≠ .exit
  | _ => false

/-- The accept loop is left, and the last round of a reload's wait ends, only while no worker is
between its creation and its exit. -/
def LeavesIdle (s : Daemon) (a : Action) : Prop :=
  s.leavesLoop a ∨ s.waitsOut a → s.NoneInBody

instance (s : Daemon) (a : Action) : Decidable (s.LeavesIdle a) :=
  inferInstanceAs (Decidable (s.leavesLoop a ∨ s.waitsOut a → s.NoneInBody))

/-- Workers only ever leave the part in which they use the list. -/
theorem NoneInBody.setPhase {worker : PoolWorker} (h : s.NoneInBody) (phase : WorkerPhase)
    (hphase : phase.beforeExit = false) : (s.setPhase i worker phase).NoneInBody := by
  intro other hother
  rcases List.mem_or_eq_of_mem_set hother with hother | rfl
  · exact h other hother
  · exact hphase

theorem NoneInBody.workerStep {worker : PoolWorker} (h : s.NoneInBody)
    (hstep : WorkerStep s i worker s') : s'.NoneInBody := by
  cases hstep with
  | exitUninitialized _ _ => exact h
  | finish _ _ => exact h.setPhase _ rfl
  | lock _ _ => exact h.setPhase (.unregister .search) rfl
  | search _ _ => exact h.setPhase (.unregister .unlock) rfl
  | unlock _ => exact h.setPhase .terminated rfl

/-- The steps of the server that bring it near to freeing the list are watched. -/
theorem noneInBody_serverStep (hinv : s.pc.freesSoon = true → s.NoneInBody)
    (hok : s.LeavesIdle (.server ok)) (hstep : ServerStep maxthreads s ok s')
    (hsoon : s'.pc.freesSoon = true) : s'.NoneInBody := by
  cases hstep with
  | move hmove =>
    cases hmove with
    | leave hpc hstop =>
      refine hok (.inl ?_)
      have hstate : s.appstate = .exit ∨ s.appstate = .error := by
        by_contra hrun
        exact hstop (not_or.mp hrun)
      simp [leavesLoop, hpc, hstate]
    | @waiting err mgr hpc hmgr hwait =>
      obtain ⟨hpos, hthreads, hstate⟩ := hwait
      -- only the round that counts down to zero ends the wait
      obtain rfl : err = 1 := by
        rcases err with _ | _ | err
        · cases hpos
        · rfl
        · cases hsoon
      refine hok (.inr ?_)
      simp [waitsOut, hpc, hmgr, hthreads, hstate]
    | waited hpc _ => exact hinv (by rw [hpc]; rfl)
    | shutdown hpc => exact hinv (by rw [hpc]; rfl)
    | _ => cases hsoon
  | exitDirect _ _ => exact hinv hsoon
  | exitWait _ _ => exact hinv hsoon
  | exitMain _ => exact hinv hsoon
  | @unlock _ res _ =>
    by_cases hres : res = 0
    · simp [hres, ServerPc.freesSoon] at hsoon
    · simp [hres, ServerPc.freesSoon] at hsoon
  | _ => cases hsoon

theorem noneInBody_step (hinv : s.pc.freesSoon = true → s.NoneInBody)
    (hok : s.LeavesIdle a) (hstep : s.step maxthreads a = some s')
    (hsoon : s'.pc.freesSoon = true) : s'.NoneInBody := by
  cases step_cases hstep with
  | server h => exact noneInBody_serverStep hinv hok h hsoon
  | stopped hpc hstate => exact hok (.inl (by simp [leavesLoop, hpc, hstate]))
  | acceptFails hpc => exact hok (.inl (by simp [leavesLoop, hpc]))
  | read hpc => exact hinv (by rw [hpc]; rfl)
  | worker _ h => exact (hinv (h.pc_eq ▸ hsoon)).workerStep h
  | @kill i worker hworker _ _ =>
    -- the worker was in `thr_unregister`, for none is in its body
    have hphase := hinv hsoon worker (List.mem_of_getElem? hworker)
    refine (hinv hsoon).setPhase _ ?_
    generalize worker.phase = phase at hphase
    cases phase <;> first | rfl | cases hphase
  | xalloc => exact hinv hsoon
  | sigterm => exact hinv hsoon
  | reload => exact hinv hsoon
  | _ => cases hsoon

/-- On the way from such steps to `cfg_free` no worker is in its body. -/
theorem noneInBody_run {appstate : Appstate} {rblist : List Cfgitem}
    (hrun : Run (step maxthreads) LeavesIdle (init appstate rblist) w t)
    (hsoon : t.pc.freesSoon = true) : t.NoneInBody := by
  refine hrun.invariant (P := fun s => s.pc.freesSoon = true → s.NoneInBody) nofun ?_ hsoon
  intro s a s' hinv hok hstep
  exact noneInBody_step hinv hok hstep

theorem FreesList.freesSoon (h : t.FreesList) : t.pc.freesSoon = true := by
  rcases h with hpc | ⟨newlist, hpc⟩
  · rw [hpc]
    rfl
  · rw [hpc]
    rfl

/-- In every run that leaves the loop and the wait without workers, the list has no users
whenever it is freed. -/
theorem freesList_idle (maxthreads : Int) (appstate : Appstate) (rblist : List Cfgitem)
    (hrun : Run (step maxthreads) LeavesIdle (init appstate rblist) w t) (hfrees : t.FreesList) :
    t.NoneInBody :=
  noneInBody_run hrun hfrees.freesSoon

/-! ### A worker that is killed -/

/-- A worker has been killed in front of its call of `wthread_exit`. -/
def SomeKilled (s : Daemon) : Prop := ∃ worker ∈ s.workers, worker.phase = .killed

theorem SomeKilled.setPhase {worker : PoolWorker} (h : s.SomeKilled)
    (hworker : s.workers[i]? = some worker) (hphase : worker.phase ≠ .killed)
    (phase : WorkerPhase) : (s.setPhase i worker phase).SomeKilled := by
  obtain ⟨other, hmem, hkilled⟩ := h
  obtain ⟨k, hk⟩ := List.getElem?_of_mem hmem
  have hne : i ≠ k := by
    rintro rfl
    obtain rfl := Option.some.inj (hworker.symm.trans hk)
    exact hphase hkilled
  have hkept : (s.setPhase i worker phase).workers[k]? = some other := by
    rw [Daemon.setPhase, List.getElem?_set, if_neg hne]
    exact hk
  exact ⟨other, List.mem_of_getElem? hkept, hkilled⟩

theorem SomeKilled.workerStep {worker : PoolWorker} (h : s.SomeKilled)
    (hworker : s.workers[i]? = some worker) (hstep : WorkerStep s i worker s') : s'.SomeKilled := by
  cases hstep with
  | exitUninitialized _ _ => exact h
  | finish hphase _ => exact h.setPhase hworker (by rw [hphase]; nofun) _
  | lock hphase _ => exact h.setPhase hworker (by rw [hphase]; nofun) (.unregister .search)
  | search hphase _ => exact h.setPhase hworker (by rw [hphase]; nofun) (.unregister .unlock)
  | unlock hphase => exact h.setPhase hworker (by rw [hphase]; nofun) .terminated

/-- It stays as it is. -/
theorem SomeKilled.step (h : s.SomeKilled) (hstep : s.step maxthreads a = some s') :
    s'.SomeKilled := by
  cases step_cases hstep with
  | server hserver =>
    cases hserver with
    | cancel _ =>
      obtain ⟨worker, hmem, hkilled⟩ := h
      obtain ⟨k, hk⟩ := List.getElem?_of_mem hmem
      have hkept : (cancelLast s.workers)[k]? = some
          (if s.workers.length - 1 = k then { worker with cancelled := true } else worker) := by
        rw [cancelLast, List.getElem?_modify, hk]
        split_ifs <;> rfl
      refine ⟨_, List.mem_of_getElem? hkept, ?_⟩
      split_ifs <;> exact hkilled
    | _ => exact h
  | created _ _ =>
    obtain ⟨worker, hmem, hkilled⟩ := h
    exact ⟨worker, List.mem_append_left _ hmem, hkilled⟩
  | worker hworker hexit => exact h.workerStep hworker hexit
  | kill hworker _ hlive =>
    refine h.setPhase hworker ?_ _
    intro hphase
    rw [hphase] at hlive
    cases hlive
  | _ => exact h

/-- A worker that its cancellation ends in its body keeps the list in use for good: in no run of
such steps is it freed behind that worker. -/
theorem not_freesList_of_killed {appstate : Appstate} {rblist : List Cfgitem} {v : List Action}
    (hrun : Run (step maxthreads) LeavesIdle (init appstate rblist) w s) (hkilled : s.SomeKilled)
    (hlater : Run (step maxthreads) LeavesIdle s v t) : ¬ t.FreesList := by
  intro hfrees
  obtain ⟨worker, hmem, hphase⟩ := hlater.invariant hkilled fun _ _ _ h _ hstep => h.step hstep
  have hexited := noneInBody_run (hrun.append hlater) hfrees.freesSoon worker hmem
  rw [hphase] at hexited
  cases hexited

/-! ### What the other steps allow -/

/-- Behind the loop the server frees the list without a look at the workers. -/
theorem exists_freesList_of_returned (hpc : s.pc = .returned) (hruns : s.exited = none) :
    Run (step maxthreads) (fun _ _ => True) s [.server true] { s with pc := .mainFree } := by
  refine .cons trivial ?_ .nil
  simp [step, hruns, serverStep, hpc]

/-- Behind the last round of the wait the server frees the list when it can read a new one. -/
theorem exists_freesList_of_waited {mgr : ThrMgr} (hpc : s.pc = .reloadWait 0)
    (hmgr : s.workermgr = some mgr) (hruns : s.exited = none) (newlist : List Cfgitem) :
    Run (step maxthreads) (fun _ _ => True) s [.server true, .read (some newlist)]
      { s with pc := .reloadFree newlist } := by
  have hwaited : s.step maxthreads (.server true) = some { s with pc := .reloadRead } := by
    simp [step, hruns, serverStep, hpc, hmgr]
  refine .cons trivial hwaited (.cons trivial ?_ .nil)
  simp [step, hruns, readStep]

theorem returned_of_leavesLoop (hstep : s.step maxthreads a = some s')
    (hleaves : s.leavesLoop a = true) :
    s'.pc = .returned ∧ s'.exited = none ∧ s'.workers = s.workers := by
  have hruns := runs_of_step hstep
  cases step_cases hstep with
  | @server ok _ _ =>
    obtain ⟨hpc, hstate⟩ : s.pc = .loop ∧ (s.appstate = .exit ∨ s.appstate = .error) := by
      simpa [leavesLoop] using hleaves
    have hstop : ¬ (s.appstate ≠ .exit ∧ s.appstate ≠ .error) :=
      fun hrun => hstate.elim hrun.1 hrun.2
    have hleft : s.step maxthreads (.server ok) = some { s with pc := .returned } := by
      simp only [step, hruns, ne_eq, not_true_eq_false, if_false, serverStep, hpc, if_neg hstop]
    obtain rfl := Option.some.inj (hleft.symm.trans hstep)
    exact ⟨rfl, hruns, rfl⟩
  | interrupted _ hstate =>
    have hboth : s.pc = .accept ∧ s.appstate ≠ .run := by simpa [leavesLoop] using hleaves
    exact absurd hstate hboth.2
  | stopped _ _ => exact ⟨rfl, hruns, rfl⟩
  | acceptFails _ => exact ⟨rfl, hruns, rfl⟩
  | _ => cases hleaves

theorem waited_of_waitsOut (hstep : s.step maxthreads a = some s') (hwaits : s.waitsOut a = true) :
    s'.pc = .reloadWait 0 ∧ s'.exited = none ∧ s'.workers = s.workers ∧
      ∃ mgr, s'.workermgr = some mgr := by
  have hruns := runs_of_step hstep
  cases a with
  | server ok =>
    cases hmgr : s.workermgr with
    | none => simp [waitsOut, hmgr] at hwaits
    | some mgr =>
      obtain ⟨hpc, hthreads, hstate⟩ :
          s.pc = .reloadWait 1 ∧ mgr.nthreads ≠ 0 ∧ s.appstate ≠ .exit := by
        simpa [waitsOut, hmgr] using hwaits
      have hwait : s.step maxthreads (.server ok) = some { s with pc := .reloadWait 0 } := by
        simp [step, hruns, serverStep, hpc, hmgr, hthreads, hstate]
      obtain rfl := Option.some.inj (hwait.symm.trans hstep)
      exact ⟨rfl, hruns, rfl, mgr, hmgr⟩
  | _ => cases hwaits

/-- A step that leaves the loop or the wait while a worker is in its body lets the server
thread go on to free the list with that worker still there. -/
theorem exists_freesList_in_use (hstep : s.step maxthreads a = some s')
    (hbad : ¬ s.LeavesIdle a) :
    ∃ v u, Run (step maxthreads) (fun _ _ => True) s' v u ∧ u.FreesList ∧ ¬ u.NoneInBody := by
  obtain ⟨hleaves, hbusy⟩ := Classical.not_imp.mp hbad
  rcases hleaves with hloop | hwait
  · obtain ⟨hpc, hruns, hworkers⟩ := returned_of_leavesLoop hstep hloop
    refine ⟨_, _, exists_freesList_of_returned hpc hruns, .inl rfl, fun hnone => hbusy ?_⟩
    exact fun worker hworker => hnone worker (hworkers ▸ hworker)
  · obtain ⟨hpc, hruns, hworkers, mgr, hmgr⟩ := waited_of_waitsOut hstep hwait
    refine ⟨_, _, exists_freesList_of_waited hpc hmgr hruns [], .inr ⟨[], rfl⟩,
      fun hnone => hbusy ?_⟩
    exact fun worker hworker => hnone worker (hworkers ▸ hworker)

/-! ### Shutdown with and without workers -/

/-- The steps in which the server accepts a connection and creates the first worker for it. -/
def firstWorker : List Action :=
  [.server true, .accept .conn] ++ List.replicate 8 (.server true) ++ [.create (some 1)] ++
    List.replicate 5 (.server true)

/-- A worker ends before the signal arrives. -/
def idleShutdown : List Action :=
  firstWorker ++ List.replicate 4 (.worker 0) ++ [.sigterm, .server true, .server true]

/-- A signal arrives while a worker waits for its solvers. -/
def busyShutdown : List Action := firstWorker ++ [.sigterm, .server true, .server true]

/-- When the worker has ended before the signal, the list is freed without users. -/
theorem freesList_idle_idleShutdown :
    ∃ t, Run (step 10) LeavesIdle (init .run []) idleShutdown t ∧
      t.workers.map PoolWorker.phase = [.terminated] ∧ t.FreesList ∧ t.NoneInBody := by
  have hexec : (exec (step 10) LeavesIdle (init .run []) idleShutdown).any
      (fun t => t.workers.map PoolWorker.phase = [.terminated] ∧ t.pc = .mainFree) = true := by
    decide +kernel
  obtain ⟨t, hrun, hworkers, hpc⟩ := exists_run_of_exec hexec
  exact ⟨t, hrun, hworkers, .inl hpc, freesList_idle 10 .run [] hrun (.inl hpc)⟩

/-- A signal during a request makes `main` free the list that the worker uses. -/
theorem freesList_in_use_busyShutdown :
    ∃ t, Run (step 10) (fun _ _ => True) (init .run []) busyShutdown t ∧ t.FreesList ∧
      t.workers.map PoolWorker.phase = [.body] ∧ ¬ t.NoneInBody := by
  have hexec : (exec (step 10) (fun _ _ => True) (init .run []) busyShutdown).any
      (fun t => t.pc = .mainFree ∧ t.workers.map PoolWorker.phase = [.body] ∧
        ¬ t.NoneInBody) = true := by decide +kernel
  obtain ⟨t, hrun, hpc, hworkers, hbusy⟩ := exists_run_of_exec hexec
  exact ⟨t, hrun, .inl hpc, hworkers, hbusy⟩

end Daemon

end Rblpolicyd
