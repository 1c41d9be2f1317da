import Rblpolicyd.System.Step

/-!
# How daemon and sessions fit together

Each worker of the pool has its session, and one that has left its body has a session
that has returned. The shared mutexes are owned by the threads whose points are
between their lock and their unlock, wherever these threads belong.

## Main definitions

* `System.HoldsMutex` — the thread has the shared mutex locked
* `System.Paired` — the workers and their sessions belong together
* `System.Coherent` — all invariants of the system

## Main results

* `System.inv_of_run`, `System.guarded_run` — what every run keeps, whatever fails
* `System.Coherent.run` — every run in which threads can be created keeps them
-/

namespace Rblpolicyd

open Semantics

namespace Daemon

variable {maxthreads : Int} {s s' : Daemon} {a : Action} {k : Nat} {worker : PoolWorker}

theorem length_workers (hstep : s.step maxthreads a = some s') :
    s'.workers.length = s.workers.length + (System.newSessions a).length := by
  cases step_cases hstep with
  | server h =>
    cases h with
    | cancel _ => simp [cancelLast, System.newSessions]
    | _ => rfl
  | created _ _ => simp [System.newSessions]
  | worker _ h => cases h <;> simp [setPhase, System.newSessions]
  | kill _ _ _ => simp [setPhase, System.newSessions]
  | _ => rfl

/-- A worker's step leaves the other workers alone. -/
theorem WorkerStep.getElem?_ne {i : Nat} {before : PoolWorker} (h : WorkerStep s i before s')
    (hbefore : s.workers[i]? = some before) (hik : i ≠ k) : s'.workers[k]? = s.workers[k]? := by
  have hset : ∀ phase, (s.setPhase i before phase).workers[k]? = s.workers[k]? := by
    intro phase
    rw [getElem?_setPhase hbefore, if_neg hik]
  cases h with
  | exitUninitialized _ _ => rfl
  | finish _ _ => exact hset (.unregister .lock)
  | lock _ _ => exact hset (.unregister .search)
  | search _ _ => exact hset (.unregister .unlock)
  | unlock _ => exact hset .terminated

/-- A worker leaves its body by its own step only. -/
theorem Pool.body_of_step (hpool : Pool maxthreads s) (hstep : s.step maxthreads a = some s')
    (hworker : s'.workers[k]? = some worker) (hphase : worker.phase ≠ .body) :
    ∃ before, s.workers[k]? = some before ∧ (before.phase ≠ .body ∨ a = .worker k) := by
  cases step_cases hstep with
  | server h =>
    cases h with
    -- the cancelled worker keeps its phase
    | cancel _ =>
      have hafter : (cancelLast s.workers)[k]? = some worker := hworker
      rw [cancelLast, List.getElem?_modify] at hafter
      obtain ⟨before, hbefore, rfl⟩ := Option.map_eq_some_iff.mp hafter
      refine ⟨before, hbefore, .inl ?_⟩
      split_ifs at hphase <;> exact hphase
    | _ => exact ⟨worker, hworker, .inl hphase⟩
  | created _ _ =>
    rw [List.getElem?_append] at hworker
    split_ifs at hworker
    · exact ⟨worker, hworker, .inl hphase⟩
    · have hnew := List.mem_singleton.mp (List.mem_of_getElem? hworker)
      exact absurd (by rw [hnew]) hphase
  | @worker i before _ hbefore h =>
    by_cases hik : i = k
    · subst hik
      exact ⟨before, hbefore, .inr rfl⟩
    · rw [h.getElem?_ne hbefore hik] at hworker
      exact ⟨worker, hworker, .inl hphase⟩
  | kill hbefore hcancelled _ =>
    rw [hpool.uncancelled _ (List.mem_of_getElem? hbefore)] at hcancelled
    cases hcancelled
  | _ => exact ⟨worker, hworker, .inl hphase⟩

/-- No step but those of the server concerns its shared mutex. -/
theorem holdsMutex_of_step (hstep : s.step maxthreads a = some s') (hother : ∀ ok, a ≠ .server ok)
    (m : Mutex) : s'.pc.holdsMutex m = s.pc.holdsMutex m := by
  cases step_cases hstep with
  | server _ => exact absurd rfl (hother _)
  | worker _ h => rw [h.pc_eq]
  | kill _ _ _ => rfl
  | xalloc => rfl
  | sigterm => rfl
  | reload => rfl
  | _ =>
    -- the calls are made and return outside of the statistics
    simp [ServerPc.holdsMutex, *]

end Daemon

namespace System

variable {maxthreads : Int} {jobs : Nat → Job} {s s' t : System} {a : Action} {i k : Nat}
  {sess : Session} {w : List Action} {appstate : Appstate} {rblist : List Cfgitem}

/-- The thread has the shared mutex locked. -/
def HoldsMutex (s : System) (m : Mutex) : Tid → Prop
  | .server => s.daemon.pc.holdsMutex m = true
  | .worker i => (s.sessions[i]?.any fun sess => sess.pc.holdsMutex m) = true
  | .solver i j => (s.sessions[i]?.any fun sess => sess.solverHoldsMutex m j) = true

/-- Each worker of the pool has its session, which has returned when the worker has left its
body. -/
structure Paired (maxthreads : Int) (s : System) : Prop where
  pool : Daemon.Pool maxthreads s.daemon
  length : s.sessions.length = s.daemon.workers.length
  returned : ∀ (i : Nat) (worker : PoolWorker) (sess : Session),
    s.daemon.workers[i]? = some worker → s.sessions[i]? = some sess → worker.phase ≠ .body →
      sess.pc = .returned

/-- The invariants of the system. -/
structure Coherent (maxthreads : Int) (jobs : Nat → Job) (s : System) : Prop where
  pool : Daemon.Pool maxthreads s.daemon
  healthy : ∀ (i : Nat) (sess : Session), s.sessions[i]? = some sess → sess.Healthy (jobs i)
  length : s.sessions.length = s.daemon.workers.length
  returned : ∀ (i : Nat) (worker : PoolWorker) (sess : Session),
    s.daemon.workers[i]? = some worker → s.sessions[i]? = some sess → worker.phase ≠ .body →
      sess.pc = .returned
  guarded : ∀ m, Guarded (s.owners m) (s.HoldsMutex m)

/-! ### The shared mutexes -/

theorem any_newSessions {a : Daemon.Action} {f : Session → Bool} (hf : f Session.init = false) :
    (s.sessions ++ newSessions a)[i]?.any f = s.sessions[i]?.any f := by
  rw [List.getElem?_append]
  split_ifs with hi
  · rfl
  · rw [List.getElem?_eq_none (not_lt.mp hi)]
    cases hnew : (newSessions a)[i - s.sessions.length]? with
    | none => rfl
    | some sess =>
      obtain rfl := eq_init_of_mem_newSessions (List.mem_of_getElem? hnew)
      exact hf

theorem any_set {sess' : Session} {f : Session → Bool} (hsess : s.sessions[i]? = some sess) :
    (s.sessions.set i sess')[k]?.any f = if i = k then f sess' else s.sessions[k]?.any f := by
  rw [getElem?_set hsess]
  split_ifs <;> rfl

/-- A step that does not lock or unlock a shared mutex leaves the owners alone. -/
theorem owners_of_keep {owners : Mutex → Option Tid} (h : s.ownersStep a = some owners)
    (hkeep : s.lockOp a = .keep) : owners = s.owners := by
  unfold ownersStep at h
  rw [hkeep] at h
  split at h
  · exact (Option.some.inj h).symm
  · exact (Option.some.inj h).symm

theorem guarded_of_iff {owners : Mutex → Option Tid} {m : Mutex}
    (hguarded : Guarded (s.owners m) (s.HoldsMutex m)) (howners : owners = s.owners)
    (hiff : ∀ p, s'.HoldsMutex m p ↔ s.HoldsMutex m p) : Guarded (owners m) (s'.HoldsMutex m) := by
  intro p
  rw [howners, hguarded p, hiff p]

theorem guarded_daemon {m : Mutex} (hguarded : Guarded (s.owners m) (s.HoldsMutex m))
    {a : Daemon.Action} {daemon : Daemon} {owners : Mutex → Option Tid}
    (howners : s.ownersStep (.daemon a) = some owners)
    (hstep : s.daemon.step maxthreads a = some daemon) :
    Guarded (owners m) (HoldsMutex ⟨daemon, s.sessions ++ newSessions a, owners⟩ m) := by
  have hothers : ∀ p, p ≠ Tid.server →
      (HoldsMutex ⟨daemon, s.sessions ++ newSessions a, owners⟩ m p ↔ s.HoldsMutex m p) := by
    intro p hp
    cases p with
    | server => exact absurd rfl hp
    | worker i => rw [HoldsMutex, HoldsMutex, any_newSessions rfl]
    | solver i j => rw [HoldsMutex, HoldsMutex, any_newSessions rfl]
  -- the mutexes are locked by the server or left alone
  by_cases hserver : ∃ ok, a = .server ok
  · obtain ⟨ok, rfl⟩ := hserver
    cases Daemon.step_cases hstep with
    | server hserver =>
      exact hguarded.step (LockOp.lockStep howners (hserver.matches m)) hothers
  · have hother : ∀ ok, a ≠ .server ok := fun ok heq => hserver ⟨ok, heq⟩
    have hkeep : s.lockOp (.daemon a) = .keep := by
      cases a with
      | server ok => exact absurd rfl (hother ok)
      | _ => rfl
    refine guarded_of_iff hguarded (owners_of_keep howners hkeep) fun p => ?_
    by_cases hp : p = .server
    · rw [hp, HoldsMutex, HoldsMutex, Daemon.holdsMutex_of_step hstep hother]
    · exact hothers p hp

/-- A step of session `i` concerns what its own threads have locked. -/
theorem holdsMutex_set {sess' : Session} {owners : Mutex → Option Tid} {m : Mutex}
    (hsess : s.sessions[i]? = some sess) {p : Tid}
    (hworker : p = .worker i → sess'.pc.holdsMutex m = sess.pc.holdsMutex m)
    (hsolver : ∀ j, p = .solver i j → sess'.solverHoldsMutex m j = sess.solverHoldsMutex m j) :
    HoldsMutex { s with sessions := s.sessions.set i sess', owners := owners } m p ↔
      s.HoldsMutex m p := by
  cases p with
  | server => rfl
  | worker k =>
    rw [HoldsMutex, HoldsMutex, any_set hsess]
    split_ifs with hik
    · subst hik
      rw [hworker rfl, hsess, Option.any_some]
    · rfl
  | solver k j =>
    rw [HoldsMutex, HoldsMutex, any_set hsess]
    split_ifs with hik
    · subst hik
      rw [hsolver j rfl, hsess, Option.any_some]
    · rfl

theorem guarded_worker {m : Mutex} (hguarded : Guarded (s.owners m) (s.HoldsMutex m)) {ok : Bool}
    {sess' : Session} {owners : Mutex → Option Tid}
    (howners : s.ownersStep (.session i (.worker ok)) = some owners)
    (hsess : s.sessions[i]? = some sess) (hfresh : sess.Fresh)
    (hstep : sess.WorkerStep (jobs i) ok sess') :
    Guarded (owners m)
      (HoldsMutex { s with sessions := s.sessions.set i sess', owners := owners } m) := by
  have hop : s.lockOp (.session i (.worker ok)) = sess.pc.lockOp := by
    simp only [lockOp, hsess, Option.map_some, Option.getD_some]
  have hlock : LockStep (Tid.worker i) (s.owners m) (owners m) (sess.pc.holdsMutex m = true)
      (sess'.pc.holdsMutex m = true) := by
    unfold ownersStep at howners
    rw [hop] at howners
    exact LockOp.lockStep howners (hstep.matches m)
  refine hguarded.step (p := Tid.worker i) ?_ fun p hp => holdsMutex_set hsess ?_ ?_
  · simpa only [HoldsMutex, hsess, any_set hsess, if_true, Option.any_some] using hlock
  · exact fun heq => absurd heq hp
  · exact fun j _ => hstep.solverHoldsMutex hfresh m j

theorem guarded_solver {m : Mutex} (hguarded : Guarded (s.owners m) (s.HoldsMutex m)) {ok : Bool}
    {j : Nat} {d : Dispatch} {solver : Solver} {sess' : Session} {owners : Mutex → Option Tid}
    (howners : s.ownersStep (.session i (.solver j ok)) = some owners)
    (hsess : s.sessions[i]? = some sess) (hd : sess.dispatched[j]? = some d)
    (hsolver : d.solver = some solver) (hstep : sess.SolverStep (jobs i) j d solver sess') :
    Guarded (owners m)
      (HoldsMutex { s with sessions := s.sessions.set i sess', owners := owners } m) := by
  obtain ⟨d', pc, hdispatched, hsolver', hmatches⟩ := hstep.matches
  have hlt : j < sess.dispatched.length := (List.getElem?_eq_some_iff.mp hd).1
  have hop : s.lockOp (.session i (.solver j ok)) = solver.pc.lockOp := by
    simp [lockOp, solverPc, hsess, hd, hsolver]
  have hbefore : sess.solverHoldsMutex m j = solver.pc.holdsMutex m := by
    simp [Session.solverHoldsMutex, hd, hsolver]
  have hafter : ∀ k, sess'.solverHoldsMutex m k =
      if j = k then pc.holdsMutex m else sess.solverHoldsMutex m k := by
    intro k
    rw [Session.solverHoldsMutex, hdispatched, List.getElem?_set, if_pos hlt]
    split_ifs
    · simp [hsolver']
    · rfl
  have hlock : LockStep (Tid.solver i j) (s.owners m) (owners m) (solver.pc.holdsMutex m = true)
      (pc.holdsMutex m = true) := by
    unfold ownersStep at howners
    rw [hop] at howners
    exact LockOp.lockStep howners (hmatches m)
  refine hguarded.step (p := Tid.solver i j) ?_ fun p hp => holdsMutex_set hsess ?_ ?_
  · simpa only [HoldsMutex, hsess, any_set hsess, if_true, Option.any_some, hbefore, hafter] using
      hlock
  · intro _
    rcases hstep.frame.1 with hpc | ⟨hasleep, hpc⟩
    · rw [hpc]
    · rw [hasleep, hpc]
      rfl
  · rintro k rfl
    rw [hafter, if_neg]
    rintro rfl
    exact hp rfl

/-- Steps keep a shared mutex owned by the thread that is inside its critical section. -/
theorem guarded_step {m : Mutex} (hguarded : Guarded (s.owners m) (s.HoldsMutex m))
    (hfresh : ∀ (i : Nat) (sess : Session), s.sessions[i]? = some sess → sess.Fresh)
    (hstep : SystemStep maxthreads jobs s a s') : Guarded (s'.owners m) (s'.HoldsMutex m) := by
  cases hstep with
  | daemon howners _ hstep => exact guarded_daemon hguarded howners hstep
  | @session i a sess sess' owners howners _ hsess hstep =>
    cases a with
    | worker ok =>
      have hcases := Session.workerStep_cases hstep
      exact guarded_worker hguarded howners hsess (hfresh i sess hsess) hcases
    | solver j ok =>
      obtain ⟨d, solver, hd, hsolver, -, hcases⟩ := Session.solverStep_cases hstep
      exact guarded_solver hguarded howners hsess hd hsolver hcases
    | wake =>
      obtain ⟨hpc, rfl⟩ := Session.wakeStep_cases hstep
      refine guarded_of_iff hguarded (owners_of_keep howners rfl) fun p => ?_
      refine holdsMutex_set hsess (fun _ => ?_) fun _ _ => rfl
      rw [hpc]
      rfl
    | kill j =>
      obtain ⟨d, solver, hd, hsolver, -, -, -, rfl⟩ := Session.killStep_cases hstep
      refine guarded_of_iff hguarded (owners_of_keep howners rfl) fun p => ?_
      refine holdsMutex_set hsess (fun _ => rfl) fun k _ => ?_
      rw [Session.solverHoldsMutex, Session.getElem?_put hd]
      split_ifs with hjk
      · subst hjk
        simp [Session.solverHoldsMutex, hd, hsolver]
      · rfl

/-! ### The invariants of a run -/

theorem guarded_init (m : Mutex) (appstate : Appstate) (rblist : List Cfgitem) :
    Guarded ((init appstate rblist).owners m) ((init appstate rblist).HoldsMutex m) := by
  intro p
  cases p <;> simp [init, HoldsMutex, Daemon.init, ServerPc.holdsMutex]

/-- In every run, whatever fails, every session keeps its invariants. -/
theorem inv_of_run {ok : System → Action → Prop}
    (hrun : Run (System.step maxthreads jobs) ok (init appstate rblist) w t)
    (hsess : t.sessions[i]? = some sess) : sess.Inv (jobs i) := by
  have hok : ∀ (s : System) (k : Nat) (a : Session.Action) (sess : Session),
      ok s (.session k a) → s.sessions[k]? = some sess → True := fun _ _ _ _ _ _ => trivial
  obtain ⟨v, hsession⟩ := run_session hok hrun i sess hsess
  exact .run hsession

/-- In every run, whatever fails, the owner of a shared mutex is inside its critical section. -/
theorem guarded_run {ok : System → Action → Prop}
    (hrun : Run (System.step maxthreads jobs) ok (init appstate rblist) w t) (m : Mutex) :
    Guarded (t.owners m) (t.HoldsMutex m) := by
  induction hrun with
  | nil => exact guarded_init m appstate rblist
  | snoc hrun _ hstep ih =>
    exact guarded_step ih (fun i sess hsess => (inv_of_run hrun hsess).fresh) (step_cases hstep)

theorem coherent_init (maxthreads : Int) (jobs : Nat → Job) (appstate : Appstate)
    (rblist : List Cfgitem) : Coherent maxthreads jobs (init appstate rblist) where
  pool := Daemon.pool_init maxthreads appstate rblist
  healthy _ _ h := by cases h
  length := rfl
  returned _ _ _ h := by cases h
  guarded m := guarded_init m appstate rblist

theorem paired_init (maxthreads : Int) (appstate : Appstate) (rblist : List Cfgitem) :
    Paired maxthreads (init appstate rblist) where
  pool := Daemon.pool_init maxthreads appstate rblist
  length := rfl
  returned _ _ _ h := by cases h

theorem Paired.returned_daemon (h : Paired maxthreads s) {a : Daemon.Action}
    {daemon : Daemon} (hreturned : s.bodyReturned a = true)
    (hstep : s.daemon.step maxthreads a = some daemon) (k : Nat) (worker : PoolWorker)
    (sess : Session) (hworker : daemon.workers[k]? = some worker)
    (hsess : (s.sessions ++ newSessions a)[k]? = some sess) (hphase : worker.phase ≠ .body) :
    sess.pc = .returned := by
  obtain ⟨before, hbefore, hor⟩ := h.pool.body_of_step hstep hworker hphase
  have hold : s.sessions[k]? = some sess := by
    have hlt : k < s.sessions.length := by
      rw [h.length]
      exact (List.getElem?_eq_some_iff.mp hbefore).1
    rwa [List.getElem?_append_left hlt] at hsess
  by_cases hbody : before.phase = .body
  · obtain rfl := hor.resolve_left (not_not.mpr hbody)
    simpa [bodyReturned, Daemon.inWorkerTh, hbefore, hbody, hold] using hreturned
  · exact h.returned k before sess hbefore hold hbody

/-- A session whose worker has left its body stays where it is. -/
theorem returned_session {a : Session.Action} {job : Job} {sess' : Session}
    (hreturned : sess.pc = .returned) (hstep : sess.step job a = some sess') :
    sess'.pc = .returned := by
  cases a with
  | worker ok =>
    have hnone : sess.workerStep job ok = none := by
      unfold Session.workerStep
      rw [hreturned]
    cases hnone.symm.trans hstep
  | wake =>
    obtain ⟨hpc, -⟩ := Session.wakeStep_cases hstep
    cases hreturned.symm.trans hpc
  | solver j ok =>
    obtain ⟨d, solver, -, -, -, hcases⟩ := Session.solverStep_cases hstep
    rcases hcases.frame.1 with hpc | ⟨hasleep, -⟩
    · exact hpc.trans hreturned
    · cases hreturned.symm.trans hasleep
  | kill j =>
    obtain ⟨d, solver, -, -, -, -, -, rfl⟩ := Session.killStep_cases hstep
    exact hreturned

theorem Paired.step (hmax : 0 < maxthreads) (h : Paired maxthreads s)
    (hok : ∀ b, a = .daemon b → s.daemon.RecordsAllocated b)
    (hstep : s.step maxthreads jobs a = some s') : Paired maxthreads s' := by
  cases step_cases hstep with
  | @daemon a daemon owners _ hreturned hdaemon =>
    refine ⟨h.pool.step hmax (hok a rfl) hdaemon, ?_, h.returned_daemon hreturned hdaemon⟩
    rw [Daemon.length_workers hdaemon, ← h.length, List.length_append]
  | @session i a sess sess' owners _ _ hsess hsession =>
    refine ⟨h.pool, ?_, ?_⟩
    · rw [List.length_set, h.length]
    · intro k worker other hworker hother hphase
      rw [getElem?_set hsess] at hother
      split_ifs at hother with hik
      · subst hik
        obtain rfl := Option.some.inj hother
        exact returned_session (h.returned i worker sess hworker hsess hphase) hsession
      · exact h.returned k worker other hworker hother hphase

theorem Coherent.paired (h : Coherent maxthreads jobs s) : Paired maxthreads s where
  pool := h.pool
  length := h.length
  returned := h.returned

theorem Coherent.step (hmax : 0 < maxthreads) (h : Coherent maxthreads jobs s)
    (hok : s.Succeeds a) (hstep : s.step maxthreads jobs a = some s') :
    Coherent maxthreads jobs s' := by
  have hguarded : ∀ m, Guarded (s'.owners m) (s'.HoldsMutex m) := fun m =>
    guarded_step (h.guarded m) (fun i sess hsess => (h.healthy i sess hsess).inv.fresh)
      (step_cases hstep)
  have hallocated : ∀ b, a = .daemon b → s.daemon.RecordsAllocated b := by
    rintro b rfl
    exact hok.1
  obtain ⟨hpool, hlength, hreturned⟩ := h.paired.step hmax hallocated hstep
  refine ⟨hpool, ?_, hlength, hreturned, hguarded⟩
  cases step_cases hstep with
  | daemon _ _ _ =>
    intro k sess hsess
    rcases getElem?_newSessions hsess with hold | rfl
    · exact h.healthy k sess hold
    · exact Session.healthy_init
  | @session i a sess sess' owners _ _ hsess hsession =>
    intro k other hother
    rw [getElem?_set hsess] at hother
    split_ifs at hother with hik
    · subst hik
      obtain rfl := Option.some.inj hother
      exact (h.healthy i sess hsess).step (hok sess hsess) hsession
    · exact h.healthy k other hother

theorem Coherent.run (hmax : 0 < maxthreads)
    (hrun : Run (System.step maxthreads jobs) Succeeds (init appstate rblist) w t) :
    Coherent maxthreads jobs t :=
  hrun.invariant (coherent_init maxthreads jobs appstate rblist)
    fun _ _ _ h hok hstep => h.step hmax hok hstep

end System

end Rblpolicyd
