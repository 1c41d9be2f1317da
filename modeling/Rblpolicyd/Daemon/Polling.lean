import Rblpolicyd.Daemon.ListLifetime
import Rblpolicyd.Daemon.Locking

/-!
# Waiting for a free slot

When as many workers are registered as may be, `wthread_create` looks at their number up to
twenty times, with a pause in between. It has the manager locked all the while, and a worker
that ends has to lock the manager before it can take itself out. So no worker leaves during
the wait, the call gives up after its last look, and the workers leave behind it.

## Main definitions

* `Daemon.InCall` — a step during the call, while the state of the daemon is `APP_RUN`
* `Daemon.Waits` — the call has found the manager full and is on its way to its error

## Main results

* `Daemon.owned_run` — a thread inside the critical section owns the manager's mutex
* `Daemon.waiting_fails` — no interleaving makes a call succeed that has to wait
-/

namespace Rblpolicyd

open Semantics

/-- The call of `wthread_create` has returned. -/
def ServerPc.isCreated : ServerPc → Bool
  | .created _ => true
  | _ => false

/-- The points on the way to the error of a call that finds no room. -/
def ServerPc.givesUp : ServerPc → Prop
  | .createPoll _ => True
  | .createAppstate err | .createLimit err => err = 0
  | .createUnlock res | .created res => res = -errThrToomany
  | _ => False

namespace Daemon

variable {maxthreads : Int} {s s' t : Daemon} {a : Action} {ok : Bool} {i : Nat} {w v : List Action}
  {worker : PoolWorker} {mgr : ThrMgr}

/-! ### The owner of the manager's mutex -/

theorem owned_workerStep (h : Owned s.mgrOwner s.HoldsMgr) (hworker : s.workers[i]? = some worker)
    (hstep : WorkerStep s i worker s') : Owned s'.mgrOwner s'.HoldsMgr := by
  have hstays : ∀ (phase : WorkerPhase) (owner : Option Thread) (workermgr : Option ThrMgr),
      LockStep (Thread.worker i) s.mgrOwner owner (worker.phase.holdsMgr = true)
        (phase.holdsMgr = true) →
      Owned owner
        { s.setPhase i worker phase with mgrOwner := owner, workermgr := workermgr }.HoldsMgr := by
    intro phase owner workermgr hlock
    refine h.step (p := Thread.worker i) ?_ fun thread hne => (holdsMgr_setPhase hworker hne).mp
    rw [← propext (holdsMgr_of_getElem? hworker),
      ← propext (holdsMgr_setPhase_self hworker phase)] at hlock
    exact hlock
  cases hstep with
  | exitUninitialized _ _ => exact h
  | finish hphase _ =>
    exact hstays (.unregister .lock) _ s.workermgr (.keep rfl (by rw [hphase]; rfl))
  | lock _ hfree => exact hstays (.unregister .search) _ s.workermgr (.acquire hfree rfl rfl)
  | search hphase _ =>
    exact hstays (.unregister .unlock) _ _ (.keep rfl (by rw [hphase]; rfl))
  | unlock hphase =>
    exact hstays .terminated none s.workermgr (.release (by rw [hphase]; rfl) rfl nofun)

theorem owned_step (h : Owned s.mgrOwner s.HoldsMgr) (hstep : s.step maxthreads a = some s') :
    Owned s'.mgrOwner s'.HoldsMgr := by
  cases step_cases hstep with
  | server hserver =>
    refine h.step hserver.lockStep fun thread hne => ?_
    cases thread with
    | server => exact absurd rfl hne
    | worker i => exact (hserver.holdsMgr_worker i).mp
  | worker hworker h' => exact owned_workerStep h hworker h'
  | @kill i worker hworker _ _ =>
    refine h.mono fun thread hholds => ?_
    by_cases hself : thread = .worker i
    · subst hself
      have hinside := (holdsMgr_setPhase_self hworker worker.phase.ended).mp hholds
      rw [holdsMgr_ended] at hinside
      cases hinside
    · exact (holdsMgr_setPhase hworker hself).mp hholds
  | created hpc _ =>
    refine h.mono fun thread hholds => ?_
    cases thread with
    | server =>
      rw [HoldsMgr, hpc]
      rfl
    | worker i =>
      rw [HoldsMgr, holdsMgr_append] at hholds
      exact hholds
  | createFails hpc =>
    refine h.mono fun thread hholds => ?_
    cases thread with
    | server =>
      rw [HoldsMgr, hpc]
      rfl
    | worker i => exact hholds
  | _ =>
    refine h.mono fun thread hholds => ?_
    cases thread with
    | server => first | exact hholds | cases hholds
    | worker i => exact hholds

theorem owned_run {ok : Daemon → Action → Prop} {appstate : Appstate} {rblist : List Cfgitem}
    (hrun : Run (Daemon.step maxthreads) ok (init appstate rblist) w t) :
    Owned t.mgrOwner t.HoldsMgr := by
  refine hrun.invariant (P := fun s => Owned s.mgrOwner s.HoldsMgr) ?_ ?_
  · intro thread hholds
    cases thread with
    | server => cases hholds
    | worker i => simp [init, HoldsMgr] at hholds
  · exact fun _ _ _ h _ hstep => owned_step h hstep

/-! ### A call that has to wait -/

/-- A step that is taken during the call, with the daemon in the state `APP_RUN`. -/
def InCall (s : Daemon) (_ : Action) : Prop := s.appstate = .run ∧ s.pc.isCreated = false

instance (s : Daemon) (a : Action) : Decidable (s.InCall a) :=
  inferInstanceAs (Decidable (s.appstate = .run ∧ s.pc.isCreated = false))

/-- The call of `wthread_create` that found the manager full in the state `s` has changed neither
the manager nor the workers, and will return that there are too many threads. -/
structure Waits (s u : Daemon) : Prop where
  pc : u.pc.givesUp
  manager : u.workermgr = s.workermgr
  tids : u.workers.map PoolWorker.tid = s.workers.map PoolWorker.tid
  owned : Owned u.mgrOwner u.HoldsMgr
  locked : u.pc.isCreated = false → u.mgrOwner = some .server

theorem Waits.not_holds {u : Daemon} (h : Waits s u) (hcall : u.InCall a) (i : Nat) :
    ¬ u.HoldsMgr (.worker i) := by
  intro hholds
  have howner := h.owned (.worker i) hholds
  rw [h.locked hcall.2] at howner
  cases howner

theorem Waits.serverStep {u u' : Daemon} (h : Waits s u) (hcall : u.InCall a)
    (hmgr : s.workermgr = some mgr) (hfull : mgr.full maxthreads)
    (hstep : ServerStep maxthreads u ok u') :
    u'.pc.givesUp ∧ u'.workermgr = u.workermgr ∧ u'.workers = u.workers ∧
      (u'.pc.isCreated = false → u'.mgrOwner = u.mgrOwner) := by
  have hpc := h.pc
  have hmanager := h.manager.trans hmgr
  obtain ⟨hrun, hinside⟩ := hcall
  cases hstep with
  | move hmove =>
    refine ⟨?_, rfl, rfl, fun _ => rfl⟩
    cases hmove with
    | poll _ _ _ => exact trivial
    -- the manager stays full, so the wait ends with its last round
    | @polled err mgr' _ hmgr' hdone =>
      obtain rfl : mgr' = mgr := Option.some.inj (hmgr'.symm.trans hmanager)
      by_contra herr
      exact hdone ⟨Nat.pos_of_ne_zero herr, hfull, hrun⟩
    | stopped _ hstate => exact absurd hrun hstate
    | running hat _ => simpa [hat, ServerPc.givesUp] using hpc
    | tooMany _ _ => rfl
    | create hat herr =>
      rw [hat] at hpc
      simp [ServerPc.givesUp] at hpc
      omega
    | failed hat _ => simp [hat, ServerPc.isCreated] at hinside
    | succeeded hat _ => simp [hat, ServerPc.isCreated] at hinside
    | _ => simp_all [ServerPc.givesUp]
  | @unlock _ res hat =>
    rw [hat] at hpc
    obtain rfl : res = -errThrToomany := hpc
    exact ⟨rfl, rfl, rfl, nofun⟩
  | _ => simp_all [ServerPc.givesUp]

theorem map_tid_setPhase (hworker : s.workers[i]? = some worker) (phase : WorkerPhase) :
    (s.setPhase i worker phase).workers.map PoolWorker.tid = s.workers.map PoolWorker.tid := by
  apply List.ext_getElem?
  intro k
  rw [List.getElem?_map, List.getElem?_map, getElem?_setPhase hworker]
  split_ifs with hk
  · subst hk
    simp [hworker]
  · rfl

theorem Waits.step {u u' : Daemon} (h : Waits s u) (hcall : u.InCall a)
    (hmgr : s.workermgr = some mgr) (hfull : mgr.full maxthreads)
    (hstep : u.step maxthreads a = some u') : Waits s u' := by
  have howned := owned_step h.owned hstep
  have hpc := h.pc
  cases step_cases hstep with
  | server hserver =>
    obtain ⟨hpc, hmanager, hworkers, howner⟩ := h.serverStep hcall hmgr hfull hserver
    refine ⟨hpc, hmanager.trans h.manager, hworkers ▸ h.tids, howned, fun hinside => ?_⟩
    exact (howner hinside).trans (h.locked hcall.2)
  | @worker i worker _ hworker hstep =>
    have houtside := h.not_holds hcall i
    rw [holdsMgr_of_getElem? hworker] at houtside
    cases hstep with
    | exitUninitialized _ _ => exact ⟨hpc, h.manager, h.tids, howned, h.locked⟩
    | finish _ _ =>
      exact ⟨hpc, h.manager, (map_tid_setPhase hworker _).trans h.tids, howned, h.locked⟩
    -- the manager is locked
    | lock _ hfree => simp [h.locked hcall.2] at hfree
    | search hphase _ => simp [hphase, WorkerPhase.holdsMgr] at houtside
    | unlock hphase => simp [hphase, WorkerPhase.holdsMgr] at houtside
  | kill hworker _ _ =>
    exact ⟨hpc, h.manager, (map_tid_setPhase hworker _).trans h.tids, howned, h.locked⟩
  | xalloc => exact ⟨hpc, h.manager, h.tids, howned, h.locked⟩
  | sigterm => exact ⟨hpc, h.manager, h.tids, howned, h.locked⟩
  | reload => exact ⟨hpc, h.manager, h.tids, howned, h.locked⟩
  | _ => simp_all [ServerPc.givesUp]

/-- The rounds of the wait, taken one after the other. -/
theorem run_createPoll (err : Nat) (hmgr : s.workermgr = some mgr) (hfull : mgr.full maxthreads)
    (hrun : s.appstate = .run) (hruns : s.exited = none) :
    Run (Daemon.step maxthreads) InCall { s with pc := .createPoll err }
      (List.replicate (err + 4) (.server true))
      { s with mgrOwner := none, pc := .created (-errThrToomany) } := by
  induction err with
  | zero =>
    have hpoll : Daemon.step maxthreads { s with pc := .createPoll 0 } (.server true) =
        some { s with pc := .createAppstate 0 } := by
      simp [Daemon.step, hruns, Daemon.serverStep, hmgr]
    have happstate : Daemon.step maxthreads { s with pc := .createAppstate 0 } (.server true) =
        some { s with pc := .createLimit 0 } := by
      simp [Daemon.step, hruns, Daemon.serverStep, hrun]
    have hlimit : Daemon.step maxthreads { s with pc := .createLimit 0 } (.server true) =
        some { s with pc := .createUnlock (-errThrToomany) } := by
      simp [Daemon.step, hruns, Daemon.serverStep]
    refine .cons ⟨hrun, rfl⟩ hpoll (.cons ⟨hrun, rfl⟩ happstate (.cons ⟨hrun, rfl⟩ hlimit
      (.cons ⟨hrun, rfl⟩ ?_ .nil)))
    simp [Daemon.step, hruns, Daemon.serverStep, errThrToomany]
  | succ err ih =>
    have hround : Daemon.step maxthreads { s with pc := .createPoll (err + 1) } (.server true) =
        some { s with pc := .createPoll err } := by
      simp [Daemon.step, hruns, Daemon.serverStep, hmgr, hfull, hrun]
    rw [Nat.succ_add, List.replicate_succ]
    exact .cons ⟨hrun, rfl⟩ hround ih

/-- A call of `wthread_create` that finds as many workers as there may be, while the daemon stays
in the state `APP_RUN`, returns that there are too many threads and has not changed the manager,
in every interleaving with the workers; and whichever worker calls `wthread_exit` first, there is
such an interleaving. -/
theorem waiting_fails (maxthreads : Int) (appstate : Appstate) (rblist : List Cfgitem)
    (hmax : 0 < maxthreads) (hreach : Run (Daemon.step maxthreads) (fun _ _ => True)
      (init appstate rblist) v s)
    (hcall : s.pc = .createPoll 20) (hmgr : s.workermgr = some mgr)
    (hfull : maxthreads ≤ mgr.nthreads) :
    (∀ w t res, Run (Daemon.step maxthreads) InCall s w t → t.pc = .created res →
      res = -errThrToomany ∧ t.workermgr = s.workermgr ∧
        t.workers.map PoolWorker.tid = s.workers.map PoolWorker.tid) ∧
      ∀ (i : Nat) (worker : PoolWorker), s.workers[i]? = some worker → worker.phase = .body →
        s.appstate = .run → s.exited = none →
        ∃ w t, Run (Daemon.step maxthreads) InCall s (.worker i :: w) t ∧
          t.pc = .created (-errThrToomany) := by
  have hfull' : mgr.full maxthreads := by
    unfold ThrMgr.full
    omega
  constructor
  · intro w t res hrun hpc
    have hwaits : Waits s t := by
      refine hrun.invariant ⟨?_, rfl, rfl, owned_run hreach, fun _ => ?_⟩ fun _ _ _ h hok hstep =>
        h.step hok hmgr hfull' hstep
      · rw [hcall]
        exact trivial
      · refine owned_run hreach .server ?_
        rw [HoldsMgr, hcall]
        rfl
    have hres := hwaits.pc
    rw [hpc] at hres
    exact ⟨hres, hwaits.manager, hwaits.tids⟩
  · intro i worker hworker hphase hrun hruns
    have hexit : s.step maxthreads (.worker i) =
        some (s.setPhase i worker (.unregister .lock)) := by
      simp [Daemon.step, hruns, workerStep, hworker, hphase, hmgr]
    have hwait := run_createPoll (s := s.setPhase i worker (.unregister .lock)) 20 hmgr hfull' hrun
      hruns
    have hpc : { s.setPhase i worker (.unregister .lock) with pc := .createPoll 20 } =
        s.setPhase i worker (.unregister .lock) := by
      rw [← hcall]
      rfl
    rw [hpc] at hwait
    refine ⟨_, _, .cons ⟨hrun, ?_⟩ hexit hwait, rfl⟩
    rw [hcall]
    rfl

/-- The steps up to the wait of the call for a second connection, when one worker is allowed. -/
def secondRequest : List Action :=
  firstWorker ++ [.server true, .accept .conn] ++ List.replicate 5 (.server true)

/-- The second of two connections waits in vain for the worker of the first. -/
theorem waiting_fails_secondRequest :
    ∃ s, Run (Daemon.step 1) (fun _ _ => True) (init .run []) secondRequest s ∧
      s.workermgr = some ⟨1, [1]⟩ ∧
      ∃ w t, Run (Daemon.step 1) InCall s (.worker 0 :: w) t ∧
        t.pc = .created (-errThrToomany) := by
  have hexec : (exec (Daemon.step 1) (fun _ _ => True) (init .run []) secondRequest).any
      (fun s => s.pc = .createPoll 20 ∧ s.workermgr = some ⟨1, [1]⟩ ∧
        s.workers = [⟨1, .body, false⟩] ∧ s.appstate = .run ∧ s.exited = none) = true := by
    decide +kernel
  obtain ⟨s, hrun, hpc, hmgr, hworkers, hstate, hruns⟩ := exists_run_of_exec hexec
  have hworker : s.workers[0]? = some ⟨1, .body, false⟩ := by
    rw [hworkers]
    rfl
  obtain ⟨-, hfails⟩ := waiting_fails 1 .run [] (by decide) hrun hpc hmgr (by decide)
  exact ⟨s, hrun, hmgr, hfails 0 _ hworker rfl hstate hruns⟩

/-- The worker of the first connection calls `wthread_exit` in front of the first of twenty looks,
and the call for the second connection returns that there are too many threads. -/
theorem waiting_not_used :
    ∃ s t, Run (Daemon.step 1) (fun _ _ => True) (init .run []) secondRequest s ∧
      s.pc = .createPoll 20 ∧ s.workermgr = some ⟨1, [1]⟩ ∧ s.workers = [⟨1, .body, false⟩] ∧
      Run (Daemon.step 1) InCall s (.worker 0 :: List.replicate 24 (.server true)) t ∧
      t.pc = .created (-errThrToomany) ∧ t.workers = [⟨1, .unregister .lock, false⟩] := by
  have hexec : (exec (Daemon.step 1) (fun _ _ => True) (init .run []) secondRequest).any
      (fun s => s.pc = .createPoll 20 ∧ s.workermgr = some ⟨1, [1]⟩ ∧
        s.workers = [⟨1, .body, false⟩] ∧
        (exec (Daemon.step 1) InCall s (.worker 0 :: List.replicate 24 (.server true))).any
          (fun t => t.pc = .created (-errThrToomany) ∧
            t.workers = [⟨1, .unregister .lock, false⟩]) = true) = true := by decide +kernel
  obtain ⟨s, hrun, hpc, hmgr, hworkers, hrest⟩ := exists_run_of_exec hexec
  obtain ⟨t, hcall, hreturned⟩ := exists_run_of_exec hrest
  exact ⟨s, t, hrun, hpc, hmgr, hworkers, hcall, hreturned⟩

end Daemon

end Rblpolicyd
