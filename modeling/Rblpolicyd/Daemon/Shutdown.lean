import Rblpolicyd.Daemon.Reload

/-!
# Whether a shutdown is lost

The handler of `SIGTERM` and `SIGINT` sets the state of the daemon to `APP_EXIT` between
any two steps, and the accept loop leaves when it sees that. The branch of a reload ends by
setting the state to `APP_RUN`, whatever it has become since the branch was entered; the
wait in front of it even returns at once for a signal. Everywhere else the state is kept.

## Main definitions

* `Daemon.InReload` — the server is in the branch of a reload and will reset the state
* `Daemon.SignalsOutsideReload` — no signal arrives there
* `Daemon.TakesRequest` — the step hands a connection to a worker

## Main results

* `Daemon.shutdown_kept` — behind a signal outside the branch no request is taken
* `Daemon.exists_lost_of_inReload` — behind a signal in the branch one can be
-/

namespace Rblpolicyd

open Semantics

namespace Daemon

variable {maxthreads : Int} {s s' t : Daemon} {a : Action} {ok : Bool} {w : List Action}

/-- The server is in the branch of a reload. Without a manager the branch ends the process. -/
def InReload (s : Daemon) : Prop := s.pc.reloads = true ∧ s.workermgr ≠ none

instance (s : Daemon) : Decidable s.InReload :=
  inferInstanceAs (Decidable (s.pc.reloads = true ∧ s.workermgr ≠ none))

/-- No signal arrives in the branch of a reload. -/
def SignalsOutsideReload (s : Daemon) : Action → Prop
  | .sigterm => ¬ s.InReload
  | _ => True

instance (s : Daemon) (a : Action) : Decidable (s.SignalsOutsideReload a) := by
  cases a <;> unfold SignalsOutsideReload <;> infer_instance

/-- The step hands an accepted connection to `wthread_create` or to `worker_th`. -/
def TakesRequest (s s' : Daemon) : Prop :=
  s.pc = .dispatch ∧ (s'.pc = .createInitLock ∨ s'.pc = .direct)

instance (s s' : Daemon) : Decidable (TakesRequest s s') :=
  inferInstanceAs (Decidable (s.pc = .dispatch ∧ (s'.pc = .createInitLock ∨ s'.pc = .direct)))

/-- Behind the test of `thr_waitcomplete` there is a manager. -/
def Managed (s : Daemon) : Prop :=
  s.pc.reloads = true → s.pc ≠ .waitManager → s.workermgr ≠ none

theorem Managed.serverStep (h : s.Managed) (hstep : ServerStep maxthreads s ok s') :
    s'.Managed := by
  intro hreloads hpast
  cases hstep with
  | move hmove =>
    cases hmove with
    | reload _ _ => exact absurd rfl hpast
    | wait _ hmgr => simp [hmgr]
    | waiting _ hmgr _ => simp [hmgr]
    | notReloaded _ hmgr _ => simp [hmgr]
    | waited _ hmgr => simp [hmgr]
    | _ => cases hreloads
  | exitDirect _ _ => exact h hreloads hpast
  | exitWait _ _ => exact h hreloads hpast
  | exitMain _ => exact h hreloads hpast
  | free hpc => exact h (by rw [hpc]; rfl) (by simp [hpc])
  | @unlock _ res _ =>
    by_cases hres : res = 0
    · simp [hres, ServerPc.reloads] at hreloads
    · simp [hres, ServerPc.reloads] at hreloads
  | _ => cases hreloads

theorem Managed.step (h : s.Managed) (hstep : s.step maxthreads a = some s') : s'.Managed := by
  intro hreloads hpast
  cases step_cases hstep with
  | server hserver => exact h.serverStep hserver hreloads hpast
  | readFails hpc => exact h (by rw [hpc]; rfl) (by simp [hpc])
  | read hpc => exact h (by rw [hpc]; rfl) (by simp [hpc])
  | worker _ hworker =>
    cases hworker with
    | search _ _ => simp
    | _ => exact h hreloads hpast
  | kill _ _ _ => exact h hreloads hpast
  | xalloc => exact h hreloads hpast
  | sigterm => exact h hreloads hpast
  | reload => exact h hreloads hpast
  | _ => cases hreloads

theorem managed_run {ok : Daemon → Action → Prop} {appstate : Appstate} {rblist : List Cfgitem}
    (hrun : Run (step maxthreads) ok (init appstate rblist) w t) : t.Managed :=
  hrun.invariant (P := Managed) nofun fun _ _ _ h _ hstep => h.step hstep

/-- The daemon has been told to exit, and no branch is under way that forgets it. -/
structure Exiting (s : Daemon) : Prop where
  appstate : s.appstate = .exit
  outside : ¬ s.InReload
  managed : s.Managed

/-- Only the switch of a daemon that reloads enters the branch. -/
theorem Exiting.serverStep (h : s.Exiting) (hstep : ServerStep maxthreads s ok s') :
    s'.appstate = .exit ∧ ¬ s'.InReload := by
  have hexit := h.appstate
  have hbranch : s.pc.reloads = true → s.workermgr = none := by
    intro hreloads
    by_contra hmgr
    exact h.outside ⟨hreloads, hmgr⟩
  cases hstep with
  | move hmove =>
    refine ⟨hexit, ?_⟩
    cases hmove with
    | reload _ hstate => simp [hexit] at hstate
    | wait hpc hmgr => simp [hbranch (by rw [hpc]; rfl)] at hmgr
    | waiting hpc hmgr _ => simp [hbranch (by rw [hpc]; rfl)] at hmgr
    | notReloaded hpc hmgr _ => simp [hbranch (by rw [hpc]; rfl)] at hmgr
    | waited hpc hmgr => simp [hbranch (by rw [hpc]; rfl)] at hmgr
    | _ => simp [InReload, ServerPc.reloads]
  | exitDirect _ _ => exact ⟨hexit, h.outside⟩
  | exitWait _ _ => exact ⟨hexit, h.outside⟩
  | exitMain _ => exact ⟨hexit, h.outside⟩
  | @unlock _ res _ =>
    refine ⟨hexit, ?_⟩
    by_cases hres : res = 0
    · simp [InReload, hres, ServerPc.reloads]
    · simp [InReload, hres, ServerPc.reloads]
  | free hpc =>
    refine ⟨hexit, ?_⟩
    simp [InReload, hbranch (by rw [hpc]; rfl)]
  -- the reset is behind the test for a manager
  | reset hpc =>
    have hreloads : s.pc.reloads = true := by
      rw [hpc]
      rfl
    exact absurd (hbranch hreloads) (h.managed hreloads (by simp [hpc]))
  | _ => exact ⟨hexit, by simp [InReload, ServerPc.reloads]⟩

theorem Exiting.step (h : s.Exiting) (hok : s.SignalsOutsideReload a)
    (hstep : s.step maxthreads a = some s') : s'.Exiting := by
  suffices hkept : s'.appstate = .exit ∧ ¬ s'.InReload from
    ⟨hkept.1, hkept.2, h.managed.step hstep⟩
  have hexit := h.appstate
  have hread : s.pc = .reloadRead → s.workermgr = none := by
    intro hpc
    by_contra hmgr
    exact h.outside ⟨by rw [hpc]; rfl, hmgr⟩
  cases step_cases hstep with
  | server hserver => exact h.serverStep hserver
  | acceptFails _ => exact ⟨by simp [hexit], by simp [InReload, ServerPc.reloads]⟩
  | readFails hpc => exact ⟨hexit, by simp [InReload, hread hpc]⟩
  | read hpc => exact ⟨hexit, by simp [InReload, hread hpc]⟩
  | @worker i _ _ _ hworker =>
    cases hworker with
    | search _ hmgr =>
      refine ⟨hexit, fun hreload => h.outside ⟨hreload.1, ?_⟩⟩
      simp [hmgr]
    | _ => exact ⟨hexit, h.outside⟩
  | kill _ _ _ => exact ⟨hexit, h.outside⟩
  | xalloc => exact ⟨hexit, h.outside⟩
  | sigterm => exact ⟨rfl, hok⟩
  -- a reload is only asked for while the daemon runs
  | reload =>
    obtain ⟨-, hstep⟩ := Option.ite_none_left_eq_some.mp hstep
    obtain ⟨hrun, -⟩ := Option.ite_none_right_eq_some.mp hstep
    simp [hexit] at hrun
  | _ => exact ⟨hexit, by simp [InReload, ServerPc.reloads]⟩

/-- A daemon that has been told to exit takes no request. -/
theorem Exiting.not_takesRequest (h : s.Exiting) (hstep : s.step maxthreads a = some s') :
    ¬ TakesRequest s s' := by
  rintro ⟨hpc, htakes⟩
  have hexit := h.appstate
  cases step_cases hstep with
  | server hserver =>
    cases hserver with
    | move hmove =>
      cases hmove with
      | handle _ hstate _ => simp [hexit] at hstate
      | direct _ hstate _ => simp [hexit] at hstate
      | _ => simp_all
    | _ => simp_all
  | worker _ hworker => simp [hworker.pc_eq, hpc] at htakes
  | _ => simp_all [setPhase]

/-- In every run of the server loop, from any state of the daemon, without a signal in the branch
of a reload: once a signal has arrived the state of the daemon stays `APP_EXIT`, and no connection
is handed to a worker any more. -/
theorem shutdown_kept (maxthreads : Int) (appstate : Appstate) (rblist : List Cfgitem)
    (hrun : Run (Daemon.step maxthreads) SignalsOutsideReload (init appstate rblist) w t)
    (hsignal : .sigterm ∈ w) :
    t.appstate = .exit ∧ ∀ a t', t.step maxthreads a = some t' → ¬ TakesRequest t t' := by
  suffices hexiting : t.Exiting from
    ⟨hexiting.appstate, fun _ _ hstep => hexiting.not_takesRequest hstep⟩
  induction hrun with
  | nil => cases hsignal
  | @snoc w s s' a hrun hok hstep ih =>
    rcases List.mem_append.mp hsignal with hbefore | hlast
    · exact (ih hbefore).step hok hstep
    · obtain rfl : .sigterm = a := List.mem_singleton.mp hlast
      have hmanaged : s.Managed := managed_run hrun
      obtain ⟨-, ⟨⟩⟩ := Option.ite_none_left_eq_some.mp hstep
      exact ⟨rfl, hok, hmanaged⟩

/-! ### What a signal in the branch of a reload allows -/

/-- Behind the reset the server takes the next connection. -/
theorem exists_takesRequest_of_reset (hpc : s.pc = .reloadReset) (hruns : s.exited = none) :
    ∃ w t t', Run (Daemon.step maxthreads) (fun _ _ => True) s w t ∧ t.appstate = .run ∧
      t.step maxthreads (.server true) = some t' ∧ TakesRequest t t' := by
  have hreset : s.step maxthreads (.server true) =
      some { s with appstate := .run, pc := .loop } := by
    simp [Daemon.step, hruns, Daemon.serverStep, hpc]
  have hloop : Daemon.step maxthreads { s with appstate := .run, pc := .loop } (.server true) =
      some { s with appstate := .run, pc := .accept } := by
    simp [Daemon.step, hruns, Daemon.serverStep]
  have haccept : Daemon.step maxthreads { s with appstate := .run, pc := .accept } (.accept .conn) =
      some { s with appstate := .run, pc := .dispatch } := by
    simp [Daemon.step, hruns, acceptStep]
  have hrun : Run (Daemon.step maxthreads) (fun _ _ => True) s
      [.server true, .server true, .accept .conn] { s with appstate := .run, pc := .dispatch } :=
    .cons trivial hreset (.cons trivial hloop (.cons trivial haccept .nil))
  refine ⟨_, _, { s with
    appstate := .run
    pc := if maxthreads > 0 then .createInitLock else .direct }, hrun, rfl, ?_, rfl, ?_⟩
  · simp [Daemon.step, hruns, Daemon.serverStep]
  · by_cases hmax : maxthreads > 0
    · simp [hmax]
    · simp [hmax]

/-- A daemon that has been told to exit in the branch of a reload goes on to its reset. -/
theorem exists_reset_of_inReload (hreload : s.InReload) (hexit : s.appstate = .exit)
    (hruns : s.exited = none) :
    ∃ w t, Run (Daemon.step maxthreads) (fun _ _ => True) s w t ∧ t.pc = .reloadReset ∧
      t.exited = none := by
  obtain ⟨hpc, hmgr⟩ := hreload
  obtain ⟨mgr, hmgr⟩ := Option.ne_none_iff_exists'.mp hmgr
  -- the rounds that are left decide whether `cfg_read` is called
  have hwait : ∀ u : Daemon, ∀ err, u.pc = .reloadWait err → u.workermgr = some mgr →
      u.appstate = .exit → u.exited = none →
      ∃ w t, Run (Daemon.step maxthreads) (fun _ _ => True) u w t ∧ t.pc = .reloadReset ∧
        t.exited = none := by
    intro u err hpc hmgr hexit hruns
    by_cases herr : err = 0
    · have hread : u.step maxthreads (.server true) = some { u with pc := .reloadRead } := by
        simp [Daemon.step, hruns, Daemon.serverStep, hpc, hmgr, hexit, herr]
      refine ⟨[.server true, .read none], { u with pc := .reloadReset },
        .cons trivial hread (.cons trivial ?_ .nil), rfl, hruns⟩
      simp [Daemon.step, hruns, readStep]
    · refine ⟨[.server true], { u with pc := .reloadReset }, .cons trivial ?_ .nil, rfl, hruns⟩
      simp [Daemon.step, hruns, Daemon.serverStep, hpc, hmgr, hexit, herr]
  cases hat : s.pc with
  | waitManager =>
    have hstep : s.step maxthreads (.server true) = some { s with pc := .reloadWait 400 } := by
      simp [Daemon.step, hruns, Daemon.serverStep, hat, hmgr]
    obtain ⟨w, t, hrun, ht⟩ := hwait { s with pc := .reloadWait 400 } 400 rfl hmgr hexit hruns
    exact ⟨_, t, .cons trivial hstep hrun, ht⟩
  | reloadWait err => exact hwait s err hat hmgr hexit hruns
  | reloadRead =>
    refine ⟨[.read none], { s with pc := .reloadReset }, .cons trivial ?_ .nil, rfl, hruns⟩
    simp [Daemon.step, hruns, readStep, hat]
  | reloadFree newlist =>
    refine ⟨[.server true], { s with rblist := newlist, pc := .reloadReset },
      .cons trivial ?_ .nil, rfl, hruns⟩
    simp [Daemon.step, hruns, Daemon.serverStep, hat]
  | reloadReset => exact ⟨[], s, .nil, hat, hruns⟩
  | _ => simp [hat, ServerPc.reloads] at hpc

/-- A signal in the branch of a reload lets the server go on to its next request. -/
theorem exists_lost_of_inReload (hreload : s.InReload)
    (hstep : s.step maxthreads .sigterm = some s') :
    ∃ w t t', Run (Daemon.step maxthreads) (fun _ _ => True) s' w t ∧ t.appstate = .run ∧
      t.step maxthreads (.server true) = some t' ∧ TakesRequest t t' := by
  have hruns := runs_of_step hstep
  obtain ⟨-, ⟨⟩⟩ := Option.ite_none_left_eq_some.mp hstep
  obtain ⟨v, u, hrun, hpc, hu⟩ := exists_reset_of_inReload
    (s := { s with appstate := .exit }) hreload rfl hruns
  obtain ⟨w, t, t', hrest, htakes⟩ := exists_takesRequest_of_reset hpc hu
  exact ⟨v ++ w, t, t', hrun.append hrest, htakes⟩

/-- A signal in front of the switch that would have entered the branch is kept. -/
theorem shutdown_kept_before_switch :
    ∃ w t, Run (Daemon.step 10) SignalsOutsideReload (init .run []) w t ∧ .sigterm ∈ w ∧
      t.appstate = .exit ∧ t.pc = .returned := by
  have hexec : (exec (Daemon.step 10) SignalsOutsideReload (init .run [])
      (firstWorker ++ [.reload, .server true, .accept .conn, .sigterm, .server true,
        .server true])).any (fun t => t.pc = .returned) = true := by decide +kernel
  obtain ⟨t, hrun, hpc⟩ := exists_run_of_exec hexec
  have hsignal : Action.sigterm ∈ firstWorker ++ [.reload, .server true, .accept .conn, .sigterm,
      .server true, .server true] := by simp
  exact ⟨_, t, hrun, hsignal, (shutdown_kept 10 .run [] hrun hsignal).1, hpc⟩

/-- A signal arrives during the wait of a reload, and the server goes on to its next connection. -/
def lostShutdown : List Action :=
  reloadRequest ++
    [.server true, .sigterm, .server true, .server true, .server true, .accept .conn]

/-- A signal during the wait of a reload is forgotten, and the next connection is handed to a
worker. -/
theorem shutdown_lost_in_wait :
    ∃ t t', Run (Daemon.step 10) (fun _ _ => True) (init .run [])
        lostShutdown t ∧
      t.appstate = .run ∧ t.step 10 (.server true) = some t' ∧ TakesRequest t t' := by
  have hexec : (exec (Daemon.step 10) (fun _ _ => True) (init .run [])
      lostShutdown).any
      (fun t => t.appstate = .run ∧
        (t.step 10 (.server true)).any (fun t' => TakesRequest t t') = true) = true := by
    decide +kernel
  obtain ⟨t, hrun, hstate, htakes⟩ := exists_run_of_exec hexec
  obtain ⟨t', hstep, htakes⟩ := (Option.any_eq_true _ _).mp htakes
  exact ⟨t, t', hrun, hstate, hstep, of_decide_eq_true htakes⟩

end Daemon

end Rblpolicyd
