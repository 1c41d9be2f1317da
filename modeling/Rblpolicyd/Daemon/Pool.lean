import Rblpolicyd.Daemon.Locking

/-!
# The pool of workers

A worker starts to run before it is registered, but both the creation with the
registration and the removal at its end are done under the manager's mutex. Outside
of these critical sections the manager's list therefore has exactly the workers that
have not removed themselves, within the limit, and no worker misses its own entry.

## Main definitions

* `Daemon.RecordsAllocated` — the allocation of a thread record does not fail
* `Daemon.Accounts` — what the manager knows of the workers
* `Daemon.Pool` — the invariant of the pool

## Main results

* `Daemon.Pool.step`, `Daemon.Pool.run` — every step, and every run, preserves it
* `Daemon.pool_correct` — what it says of the manager's list and of the exits
-/

namespace Rblpolicyd

open Semantics

/-- The worker has not removed its entry from the manager's list. -/
def WorkerPhase.registered : WorkerPhase → Bool
  | .body | .unregister .lock | .unregister .search => true
  | .unregister .unlock | .terminated | .killed => false

/-- The server has found, or is about to find, that a worker may be created. -/
def ServerPc.mayCreate (appstate : Appstate) : ServerPc → Bool
  | .createAppstate err => err > 0 ∧ appstate = .run
  | .createLimit err => err > 0
  | .createThread => true
  | _ => false

/-- The point at which the record of a new thread is allocated. -/
def ServerPc.registers : ServerPc → Bool
  | .createRegister _ => true
  | _ => false

/-- The points behind a record that could not be allocated. -/
def ServerPc.gaveUp : ServerPc → Bool
  | .createCancel | .createClose => true
  | _ => false

namespace Daemon

variable {maxthreads : Int} {s s' t : Daemon} {a : Action} {ok : Bool} {i : Nat} {w : List Action}
  {worker : PoolWorker} {mgr : ThrMgr} {phase : WorkerPhase} {pc : ServerPc}

/-- The allocation of the record of a new thread does not fail in this step. -/
def RecordsAllocated (s : Daemon) : Action → Prop
  | .server ok => s.pc.registers = true → ok = true
  | _ => True

instance (s : Daemon) : (a : Action) → Decidable (s.RecordsAllocated a)
  | .server ok => inferInstanceAs (Decidable (s.pc.registers = true → ok = true))
  | .accept _ | .create _ | .read _ | .worker _ | .kill _ | .xalloc _ | .sigterm | .reload =>
    inferInstanceAs (Decidable True)

/-- The ids of the workers that have not removed their entries. -/
def registeredTids (s : Daemon) : List Nat :=
  (s.workers.filter fun worker => worker.phase.registered).map PoolWorker.tid

/-- The id of the worker that runs already but is not registered. -/
def pendingTid (s : Daemon) : List Nat :=
  match s.pc with
  | .createRegister tid => [tid]
  | _ => []

/-- What the manager knows of the workers. -/
structure Accounts (maxthreads : Int) (s : Daemon) (mgr : ThrMgr) : Prop where
  tids : (s.pendingTid ++ mgr.tlist).Perm s.registeredTids
  nthreads : mgr.nthreads = mgr.tlist.length
  limit : (mgr.nthreads + s.pendingTid.length : Int) ≤ maxthreads

/-- The invariant of the pool. -/
structure Pool (maxthreads : Int) (s : Daemon) : Prop where
  locking : Locking maxthreads s
  uncancelled : ∀ worker ∈ s.workers, worker.cancelled = false
  regular : s.pc.gaveUp = false
  distinct : s.liveTids.Nodup
  accounts : ∀ mgr, s.workermgr = some mgr → Accounts maxthreads s mgr
  room : s.pc.mayCreate s.appstate = true →
    ∀ mgr, s.workermgr = some mgr → ¬ mgr.full maxthreads

theorem pool_init (maxthreads : Int) (appstate : Appstate) (rblist : List Cfgitem) :
    Pool maxthreads (init appstate rblist) where
  locking := locking_init appstate rblist
  uncancelled := nofun
  regular := rfl
  distinct := by simp [init, liveTids]
  accounts _ h := by cases h
  room h := by cases h

/-! ### A worker in another phase -/

/-- The list of workers around one of them. -/
theorem workers_split (hworker : s.workers[i]? = some worker) (phase : WorkerPhase) :
    ∃ pre post, s.workers = pre ++ worker :: post ∧
      (s.setPhase i worker phase).workers = pre ++ { worker with phase := phase } :: post := by
  obtain ⟨hlt, rfl⟩ := List.getElem?_eq_some_iff.mp hworker
  obtain ⟨pre, post, hbefore, -, hafter⟩ := List.exists_of_set hlt
  exact ⟨pre, post, hbefore, hafter⟩

theorem registeredTids_setPhase (hworker : s.workers[i]? = some worker)
    (hsame : phase.registered = worker.phase.registered) :
    (s.setPhase i worker phase).registeredTids = s.registeredTids := by
  obtain ⟨pre, post, hbefore, hafter⟩ := workers_split hworker phase
  rw [registeredTids, registeredTids, hbefore, hafter, List.filter_append, List.filter_append]
  by_cases hreg : worker.phase.registered = true
  · simp [hreg, hsame]
  · simp [hreg, hsame]

/-- A worker that removes its entry. -/
theorem registeredTids_removed (hworker : s.workers[i]? = some worker) (phase : WorkerPhase)
    (hbefore : worker.phase.registered = true) (hafter : phase.registered = false) :
    s.registeredTids.Perm (worker.tid :: (s.setPhase i worker phase).registeredTids) := by
  obtain ⟨pre, post, hworkers, hworkers'⟩ := workers_split hworker phase
  rw [registeredTids, registeredTids, hworkers, hworkers', List.filter_append, List.filter_append]
  simp [hbefore, hafter]

/-- A worker whose phase changes keeps its id until it terminates. -/
theorem liveTids_setPhase (hworker : s.workers[i]? = some worker)
    (hlive : worker.phase.gone = false) (phase : WorkerPhase) :
    (s.setPhase i worker phase).liveTids.Sublist s.liveTids := by
  obtain ⟨pre, post, hbefore, hafter⟩ := workers_split hworker phase
  rw [liveTids, liveTids, hbefore, hafter, List.filter_append, List.filter_append]
  by_cases hphase : phase.gone = true
  · simp [hlive, hphase]
  · simp [hlive, hphase]

/-! ### The steps of the server -/

theorem pendingTid_of_registers (h : s.pc.registers = false) : s.pendingTid = [] := by
  unfold pendingTid
  split
  · rename_i hpc
    rw [hpc] at h
    cases h
  · rfl

/-- A signal only takes away the permission to create a worker. -/
theorem mayCreate_mono {appstate appstate' : Appstate} (hne : appstate ≠ .run)
    (h : pc.mayCreate appstate = true) : pc.mayCreate appstate' = true := by
  cases pc with
  | createAppstate err => simp [ServerPc.mayCreate, hne] at h
  | _ => exact h

/-- A step that leaves the workers and the manager alone. -/
theorem Pool.frame (h : Pool maxthreads s) (hlocking : Locking maxthreads s')
    (hworkers : s'.workers = s.workers) (hmgr : s'.workermgr = s.workermgr)
    (hpending : s'.pendingTid = s.pendingTid) (hregular : s'.pc.gaveUp = false)
    (hroom : s'.pc.mayCreate s'.appstate = true →
      ∀ mgr, s.workermgr = some mgr → ¬ mgr.full maxthreads) : Pool maxthreads s' where
  locking := hlocking
  uncancelled := hworkers ▸ h.uncancelled
  regular := hregular
  distinct := by
    rw [liveTids, hworkers]
    exact h.distinct
  accounts mgr heq := by
    obtain ⟨htids, hnthreads, hlimit⟩ := h.accounts mgr (hmgr ▸ heq)
    refine ⟨?_, hnthreads, ?_⟩
    · rw [hpending, registeredTids, hworkers]
      exact htids
    · rw [hpending]
      exact hlimit
  room hmay mgr heq := hroom hmay mgr (hmgr ▸ heq)

/-- A step of the server that does not matter to the pool, to a point where nothing is created. -/
theorem Pool.pass (h : Pool maxthreads s) (hlocking : Locking maxthreads s')
    (hworkers : s'.workers = s.workers) (hmgr : s'.workermgr = s.workermgr)
    (hbefore : s.pc.registers = false)
    (hafter : s'.pc.registers = false ∧ s'.pc.gaveUp = false ∧
      s'.pc.mayCreate s'.appstate = false) : Pool maxthreads s' := by
  obtain ⟨hregisters, hgaveUp, hmay⟩ := hafter
  refine h.frame hlocking hworkers hmgr ?_ hgaveUp ?_
  · rw [pendingTid_of_registers hbefore, pendingTid_of_registers hregisters]
  · rw [hmay]
    nofun

theorem ServerMoves.regular (h : ServerMoves maxthreads s pc) :
    s.pc.registers = false ∧ pc.registers = false ∧ (s.pc.gaveUp = false → pc.gaveUp = false) := by
  cases h <;> simp [ServerPc.registers, ServerPc.gaveUp, *]

/-- The polling ends with room for a worker, with the rounds used up, or at a signal. -/
theorem ServerMoves.room (hpool : Pool maxthreads s) (h : ServerMoves maxthreads s pc)
    (hmay : pc.mayCreate s.appstate = true) (mgr : ThrMgr) (hmgr : s.workermgr = some mgr) :
    ¬ mgr.full maxthreads := by
  cases h with
  | @polled err polled hpc hmgr' hdone =>
    obtain rfl := Option.some.inj (hmgr'.symm.trans hmgr)
    have hready : err > 0 ∧ s.appstate = .run := by simpa [ServerPc.mayCreate] using hmay
    intro hfull
    exact hdone ⟨hready.1, hfull, hready.2⟩
  | running hpc hstate =>
    apply hpool.room _ mgr hmgr
    simpa [hpc, hstate, ServerPc.mayCreate] using hmay
  | create hpc herr =>
    apply hpool.room _ mgr hmgr
    simpa [hpc, ServerPc.mayCreate] using Nat.pos_of_ne_zero fun hzero => herr hzero.le
  | _ => cases hmay

theorem Pool.initManager (hmax : 0 < maxthreads) (hpool : Pool maxthreads s)
    (hlocking : Locking maxthreads
      { s with workermgr := s.workermgr.or (some ThrMgr.init), pc := .createInitUnlock })
    (hpc : s.pc = .createInit) :
    Pool maxthreads
      { s with workermgr := s.workermgr.or (some ThrMgr.init), pc := .createInitUnlock } := by
  cases hmgr : s.workermgr with
  | some mgr =>
    -- the manager is there already
    rw [hmgr] at hlocking
    exact hpool.pass hlocking rfl hmgr.symm (by rw [hpc]; rfl) ⟨rfl, rfl, rfl⟩
  | none =>
    have hidle : s.workers = [] := by
      by_contra hne
      exact hpool.locking.manager (.inl hne) hmgr
    rw [hmgr] at hlocking
    refine ⟨hlocking, hpool.uncancelled, rfl, hpool.distinct, ?_, nofun⟩
    intro mgr hinit
    obtain rfl := Option.some.inj hinit
    refine ⟨?_, rfl, hmax.le⟩
    rw [registeredTids, hidle]
    exact .refl _

/-- The registration of the worker that runs already. -/
theorem Pool.register {tid : Nat} (hpool : Pool maxthreads s)
    (hlocking : Locking maxthreads
      { s with
        workermgr := some ⟨mgr.nthreads + 1, tid :: mgr.tlist⟩, pc := .createUnlock 0 })
    (hpc : s.pc = .createRegister tid) (hmgr : s.workermgr = some mgr) :
    Pool maxthreads
      { s with
        workermgr := some ⟨mgr.nthreads + 1, tid :: mgr.tlist⟩, pc := .createUnlock 0 } where
  locking := hlocking
  uncancelled := hpool.uncancelled
  regular := rfl
  distinct := hpool.distinct
  accounts new hnew := by
    obtain rfl := Option.some.inj hnew
    obtain ⟨htids, hnthreads, hlimit⟩ := hpool.accounts mgr hmgr
    rw [pendingTid, hpc] at htids hlimit
    refine ⟨htids, congrArg (· + 1) hnthreads, ?_⟩
    simpa [pendingTid] using hlimit
  room := nofun

theorem Pool.serverStep (hmax : 0 < maxthreads) (hpool : Pool maxthreads s)
    (hlocking : Locking maxthreads s') (hok : s.RecordsAllocated (.server ok))
    (hstep : ServerStep maxthreads s ok s') : Pool maxthreads s' := by
  have hbefore : ∀ {pc}, s.pc = pc → s.pc.registers = pc.registers := fun hpc => by rw [hpc]
  -- with worker threads `worker_th` is never called directly
  have hdisabled : ∀ {pc}, s.pc = pc → pc.runsWorkerTh = true → False :=
    fun hpc hruns => hpool.locking.disabled (hpc ▸ hruns) hmax
  cases hstep with
  | move hmove =>
    obtain ⟨hregisters, hregisters', hgaveUp⟩ := hmove.regular
    have hroom := hmove.room hpool
    refine hpool.frame hlocking rfl rfl ?_ (hgaveUp hpool.regular) hroom
    rw [pendingTid_of_registers hregisters]
    exact pendingTid_of_registers hregisters'
  | initManager hpc => exact hpool.initManager hmax hlocking hpc
  | register hpc hmgr => exact hpool.register hlocking hpc hmgr
  | registerFails hpc _ => cases hok (by rw [hpc]; rfl)
  | cancel hpc =>
    have hregular := hpool.regular
    rw [hpc] at hregular
    cases hregular
  | exitDirect hpc _ => cases hdisabled hpc rfl
  | lockDirect hpc _ => cases hdisabled hpc rfl
  | searchDirect hpc _ => cases hdisabled hpc rfl
  | unlockDirect hpc => cases hdisabled hpc rfl
  | @unlock _ res hpc =>
    refine hpool.pass hlocking rfl rfl (hbefore hpc) ?_
    by_cases hres : res = 0
    · rw [if_pos hres]
      exact ⟨rfl, rfl, rfl⟩
    · rw [if_neg hres]
      exact ⟨rfl, rfl, rfl⟩
  | exitWait _ _ => exact hpool.frame hlocking rfl rfl rfl hpool.regular hpool.room
  | exitMain _ => exact hpool.frame hlocking rfl rfl rfl hpool.regular hpool.room
  | lockInit hpc _ => exact hpool.pass hlocking rfl rfl (hbefore hpc) ⟨rfl, rfl, rfl⟩
  | unlockInit hpc => exact hpool.pass hlocking rfl rfl (hbefore hpc) ⟨rfl, rfl, rfl⟩
  | lock hpc _ => exact hpool.pass hlocking rfl rfl (hbefore hpc) ⟨rfl, rfl, rfl⟩
  | free hpc => exact hpool.pass hlocking rfl rfl (hbefore hpc) ⟨rfl, rfl, rfl⟩
  | reset hpc => exact hpool.pass hlocking rfl rfl (hbefore hpc) ⟨rfl, rfl, rfl⟩
  | mainFree hpc => exact hpool.pass hlocking rfl rfl (hbefore hpc) ⟨rfl, rfl, rfl⟩

/-! ### A new worker -/

theorem liveTids_append {tid : Nat} (h : s'.workers = s.workers ++ [⟨tid, .body, false⟩]) :
    s'.liveTids = s.liveTids ++ [tid] := by
  rw [liveTids, liveTids, h, List.filter_append]
  simp [WorkerPhase.gone]

theorem registeredTids_append {tid : Nat}
    (h : s'.workers = s.workers ++ [⟨tid, .body, false⟩]) :
    s'.registeredTids = s.registeredTids ++ [tid] := by
  rw [registeredTids, registeredTids, h, List.filter_append]
  simp [WorkerPhase.registered]

/-- `pthread_create` starts a worker whose id is not that of a live thread. -/
theorem Pool.create {tid : Nat} (hmax : 0 < maxthreads) (hpool : Pool maxthreads s)
    (hlocking : Locking maxthreads
      { s with workers := s.workers ++ [⟨tid, .body, false⟩], pc := .createRegister tid })
    (hpc : s.pc = .createThread) (hfresh : tid ∉ s.liveTids) :
    Pool maxthreads
      { s with workers := s.workers ++ [⟨tid, .body, false⟩], pc := .createRegister tid } where
  locking := hlocking
  uncancelled worker hmem := by
    rcases List.mem_append.mp hmem with hmem | hmem
    · exact hpool.uncancelled worker hmem
    · rw [List.mem_singleton.mp hmem]
  regular := rfl
  distinct := by
    rw [liveTids_append rfl]
    apply List.Nodup.append hpool.distinct (List.nodup_singleton tid)
    exact List.disjoint_singleton.mpr hfresh
  accounts mgr hmgr := by
    obtain ⟨htids, hnthreads, -⟩ := hpool.accounts mgr hmgr
    -- the limit was tested since the manager was locked
    have hroom : ¬ mgr.full maxthreads := hpool.room (by rw [hpc]; rfl) mgr hmgr
    -- the worker runs, but the manager does not know it yet
    rw [pendingTid, hpc, List.nil_append] at htids
    refine ⟨?_, hnthreads, ?_⟩
    · rw [registeredTids_append rfl]
      exact (htids.cons tid).trans (List.perm_append_singleton tid _).symm
    · exact ThrMgr.lt_of_not_full hmax.le hroom
  room := nofun

/-! ### The steps of a worker -/

theorem uncancelled_setPhase (hpool : Pool maxthreads s) (hworker : s.workers[i]? = some worker) :
    ∀ other ∈ (s.setPhase i worker phase).workers, other.cancelled = false := by
  intro other hmem
  rcases List.mem_or_eq_of_mem_set hmem with hmem | rfl
  · exact hpool.uncancelled other hmem
  · exact hpool.uncancelled worker (List.mem_of_getElem? hworker)

/-- A worker whose step leaves it registered or not, and the manager's list alone. -/
theorem Pool.setPhase {owner : Option Thread} (phase : WorkerPhase) (hpool : Pool maxthreads s)
    (hlocking : Locking maxthreads { s.setPhase i worker phase with mgrOwner := owner })
    (hworker : s.workers[i]? = some worker) (hlive : worker.phase.gone = false)
    (hsame : phase.registered = worker.phase.registered) :
    Pool maxthreads { s.setPhase i worker phase with mgrOwner := owner } where
  locking := hlocking
  uncancelled := uncancelled_setPhase hpool hworker
  regular := hpool.regular
  distinct := hpool.distinct.sublist (liveTids_setPhase hworker hlive phase)
  accounts mgr hmgr := by
    obtain ⟨htids, hnthreads, hlimit⟩ := hpool.accounts mgr hmgr
    refine ⟨?_, hnthreads, hlimit⟩
    rw [← registeredTids_setPhase hworker hsame] at htids
    exact htids
  room := hpool.room

/-- The server is outside while a worker is inside. -/
theorem Pool.holdsMgr_eq_false (hpool : Pool maxthreads s) (hworker : s.workers[i]? = some worker)
    (hphase : worker.phase = .unregister .search) : s.pc.holdsMgr = false := by
  have hin : s.HoldsMgr (.worker i) := by
    rw [holdsMgr_of_getElem? hworker, hphase]
    rfl
  by_contra hserver
  have hother : s.HoldsMgr .server := by simpa [HoldsMgr] using hserver
  cases hpool.locking.guarded.unique hin hother

theorem pendingTid_of_outside (h : s.pc.holdsMgr = false) : s.pendingTid = [] := by
  apply pendingTid_of_registers
  by_contra hregisters
  generalize s.pc = pc at h hregisters
  cases pc <;> first | exact hregisters rfl | cases h

theorem mayCreate_of_outside {appstate : Appstate} (h : pc.holdsMgr = false) :
    pc.mayCreate appstate = false := by
  cases pc <;> first | rfl | cases h

/-- A worker that searches the list is in it. -/
theorem Pool.mem_tlist (hpool : Pool maxthreads s) (hworker : s.workers[i]? = some worker)
    (hphase : worker.phase = .unregister .search) (hmgr : s.workermgr = some mgr) :
    mgr.tlist.Perm s.registeredTids ∧ worker.tid ∈ mgr.tlist := by
  have htids := (hpool.accounts mgr hmgr).tids
  rw [pendingTid_of_outside (hpool.holdsMgr_eq_false hworker hphase), List.nil_append] at htids
  refine ⟨htids, ?_⟩
  rw [htids.mem_iff]
  apply List.mem_map_of_mem
  rw [List.mem_filter, hphase]
  exact ⟨List.mem_of_getElem? hworker, rfl⟩

/-- A worker takes its own entry out of the list. -/
theorem Pool.search (hpool : Pool maxthreads s)
    (hlocking : Locking maxthreads
      { s.setPhase i worker (.unregister .unlock) with
        workermgr := some (thrUnregister mgr worker.tid).2 })
    (hworker : s.workers[i]? = some worker) (hphase : worker.phase = .unregister .search)
    (hmgr : s.workermgr = some mgr) :
    Pool maxthreads
      { s.setPhase i worker (.unregister .unlock) with
        workermgr := some (thrUnregister mgr worker.tid).2 } where
  locking := hlocking
  uncancelled := uncancelled_setPhase hpool hworker
  regular := hpool.regular
  distinct := by
    refine hpool.distinct.sublist (liveTids_setPhase hworker ?_ _)
    rw [hphase]
    rfl
  accounts new hnew := by
    obtain rfl := Option.some.inj hnew
    obtain ⟨htids, hmem⟩ := hpool.mem_tlist hworker hphase hmgr
    obtain ⟨-, hnthreads, hlimit⟩ := hpool.accounts mgr hmgr
    have hnone := pendingTid_of_outside (hpool.holdsMgr_eq_false hworker hphase)
    have hremoved := registeredTids_removed hworker (.unregister .unlock)
      (by rw [hphase]; rfl) rfl
    -- one entry less, in the list and among the workers
    rw [thrUnregister_of_mem hmem]
    refine ⟨?_, ?_, ?_⟩
    · change (s.pendingTid ++ _).Perm (s.setPhase i worker _).registeredTids
      rw [hnone]
      have herase := (htids.trans hremoved).erase worker.tid
      rw [List.erase_cons_head] at herase
      exact herase
    · rw [hnthreads, List.length_erase_of_mem hmem]
    · change ((mgr.nthreads - 1 : Nat) + s.pendingTid.length : Int) ≤ maxthreads
      rw [hnone] at hlimit ⊢
      simp only [List.length_nil] at hlimit ⊢
      omega
  room hmay := by
    have hout := hpool.holdsMgr_eq_false hworker hphase
    exact absurd hmay (Bool.eq_false_iff.mp (mayCreate_of_outside hout))

theorem Pool.workerStep (hpool : Pool maxthreads s) (hlocking : Locking maxthreads s')
    (hworker : s.workers[i]? = some worker) (hstep : WorkerStep s i worker s') :
    Pool maxthreads s' := by
  cases hstep with
  | exitUninitialized _ hnone =>
    exact absurd hnone (hpool.locking.manager (.inl (workers_ne_nil hworker)))
  | finish hphase _ =>
    refine hpool.setPhase (.unregister .lock) hlocking hworker ?_ ?_
    · rw [hphase]; rfl
    · rw [hphase]; rfl
  | lock hphase _ =>
    refine hpool.setPhase (.unregister .search) hlocking hworker ?_ ?_
    · rw [hphase]; rfl
    · rw [hphase]; rfl
  | search hphase hmgr => exact hpool.search hlocking hworker hphase hmgr
  | unlock hphase =>
    refine hpool.setPhase .terminated hlocking hworker ?_ ?_
    · rw [hphase]; rfl
    · rw [hphase]; rfl

/-! ### All steps -/

/-- With every record allocated no worker is ever cancelled. -/
theorem Pool.killsOutside (hpool : Pool maxthreads s) (hstep : s.step maxthreads a = some s') :
    s.KillsOutside a := by
  cases step_cases hstep with
  | kill hworker hcancelled _ =>
    rw [hpool.uncancelled _ (List.mem_of_getElem? hworker)] at hcancelled
    cases hcancelled
  | _ => trivial

theorem Pool.step (hmax : 0 < maxthreads) (hpool : Pool maxthreads s)
    (hok : s.RecordsAllocated a) (hstep : s.step maxthreads a = some s') : Pool maxthreads s' := by
  have hlocking := hpool.locking.step (hpool.killsOutside hstep) hstep
  cases step_cases hstep with
  | server h => exact hpool.serverStep hmax hlocking hok h
  | accepted hpc => exact hpool.pass hlocking rfl rfl (by rw [hpc]; rfl) ⟨rfl, rfl, rfl⟩
  | interrupted hpc _ => exact hpool.pass hlocking rfl rfl (by rw [hpc]; rfl) ⟨rfl, rfl, rfl⟩
  | stopped hpc _ => exact hpool.pass hlocking rfl rfl (by rw [hpc]; rfl) ⟨rfl, rfl, rfl⟩
  | acceptFails hpc => exact hpool.pass hlocking rfl rfl (by rw [hpc]; rfl) ⟨rfl, rfl, rfl⟩
  | createFails hpc => exact hpool.pass hlocking rfl rfl (by rw [hpc]; rfl) ⟨rfl, rfl, rfl⟩
  | created hpc hfresh => exact .create hmax hpool hlocking hpc hfresh
  | readFails hpc => exact hpool.pass hlocking rfl rfl (by rw [hpc]; rfl) ⟨rfl, rfl, rfl⟩
  | read hpc => exact hpool.pass hlocking rfl rfl (by rw [hpc]; rfl) ⟨rfl, rfl, rfl⟩
  | worker hworker h => exact hpool.workerStep hlocking hworker h
  | kill hworker hcancelled _ =>
    rw [hpool.uncancelled _ (List.mem_of_getElem? hworker)] at hcancelled
    cases hcancelled
  | xalloc => exact hpool.frame hlocking rfl rfl rfl hpool.regular hpool.room
  | sigterm =>
    have hstate : Appstate.exit ≠ .run := nofun
    refine hpool.frame hlocking rfl rfl rfl hpool.regular ?_
    exact fun hmay => hpool.room (mayCreate_mono hstate hmay)
  | reload =>
    have hstate : Appstate.reload ≠ .run := nofun
    refine hpool.frame hlocking rfl rfl rfl hpool.regular ?_
    exact fun hmay => hpool.room (mayCreate_mono hstate hmay)

theorem Pool.run (hmax : 0 < maxthreads) {appstate : Appstate} {rblist : List Cfgitem}
    (hrun : Run (Daemon.step maxthreads) RecordsAllocated (init appstate rblist) w t) :
    Pool maxthreads t ∧ t.exited ≠ some .wthreadExit := by
  refine hrun.invariant (P := fun s => Pool maxthreads s ∧ s.exited ≠ some .wthreadExit)
    ⟨pool_init maxthreads appstate rblist, nofun⟩ ?_
  rintro s a s' ⟨hpool, -⟩ hok hstep
  exact ⟨hpool.step hmax hok hstep, hpool.locking.exited_ne hmax hstep⟩

/-- The ids of the workers that have not removed their entries are distinct. -/
theorem Pool.registeredTids_nodup (hpool : Pool maxthreads s) : s.registeredTids.Nodup := by
  have hlive : s.registeredTids.Sublist s.liveTids := by
    apply List.Sublist.cons
    apply List.Sublist.map
    apply List.monotone_filter_right
    intro worker hregistered
    have hlive : worker.phase.gone = false := by
      generalize worker.phase = phase at hregistered
      cases phase <;> first | rfl | cases hregistered
    simpa using hlive
  exact hpool.distinct.sublist hlive

/-- The workers that have not removed their entries are within the limit. -/
theorem Pool.registered_le (hmax : 0 < maxthreads) (hpool : Pool maxthreads s) :
    ((s.workers.countP fun worker => worker.phase.registered : Nat) : Int) ≤ maxthreads := by
  cases hmgr : s.workermgr with
  | none =>
    have hidle : s.workers = [] := by
      by_contra hne
      exact hpool.locking.manager (.inl hne) hmgr
    rw [hidle]
    exact hmax.le
  | some mgr =>
    obtain ⟨htids, hnthreads, hlimit⟩ := hpool.accounts mgr hmgr
    have hlength := htids.length_eq
    rw [List.length_append, registeredTids, List.length_map, ← List.countP_eq_length_filter]
      at hlength
    omega

/-- Outside of the critical sections the manager's list has exactly the workers that have not
unregistered, each once, and no more than the limit. A worker that searches for its entry finds
it, and takes out that entry and no other. -/
theorem pool_correct (hmax : 0 < maxthreads) (appstate : Appstate) (rblist : List Cfgitem)
    (hrun : Run (step maxthreads) RecordsAllocated (init appstate rblist) w t) :
    (t.mgrOwner = none →
      (t.workermgr = none → t.workers = []) ∧
        ∀ mgr, t.workermgr = some mgr →
          mgr.tlist.Nodup ∧ mgr.tlist.Perm t.registeredTids ∧
            mgr.nthreads = mgr.tlist.length ∧ mgr.nthreads ≤ maxthreads) ∧
      (∀ (i : Nat) (worker : PoolWorker), t.workers[i]? = some worker →
        worker.phase = .unregister .search →
          ∃ mgr, t.workermgr = some mgr ∧ (thrUnregister mgr worker.tid).1 = 0 ∧
            ∀ tid, tid ∈ (thrUnregister mgr worker.tid).2.tlist ↔
              tid ∈ mgr.tlist ∧ tid ≠ worker.tid) ∧
      t.exited ≠ some .wthreadExit := by
  obtain ⟨hpool, hexited⟩ := Pool.run hmax hrun
  refine ⟨fun hfree => ⟨fun hnone => ?_, fun mgr hmgr => ?_⟩, fun i worker hworker hphase => ?_,
    hexited⟩
  -- a worker has a manager
  · by_contra hne
    exact hpool.locking.manager (.inl hne) hnone
  · obtain ⟨htids, hnthreads, hlimit⟩ := hpool.accounts mgr hmgr
    -- nobody is inside, so no worker is running unregistered
    have houtside : t.pendingTid = [] := by
      apply pendingTid_of_outside
      simpa [HoldsMgr] using hpool.locking.guarded.not_holds hfree .server
    rw [houtside, List.nil_append] at htids
    rw [houtside, List.length_nil] at hlimit
    exact ⟨htids.nodup_iff.mpr hpool.registeredTids_nodup, htids, hnthreads, by simpa using hlimit⟩
  · obtain ⟨mgr, hmgr⟩ := Option.ne_none_iff_exists'.mp
      (hpool.locking.manager (.inl (workers_ne_nil hworker)))
    obtain ⟨htids, hmem⟩ := hpool.mem_tlist hworker hphase hmgr
    have hnodup := htids.nodup_iff.mpr hpool.registeredTids_nodup
    refine ⟨mgr, hmgr, ?_, fun tid => ?_⟩
    · rw [thrUnregister_of_mem hmem]
    · rw [thrUnregister_of_mem hmem, hnodup.mem_erase_iff]
      exact and_comm

/-- The worker gets to the end of its body before it is registered. -/
def earlyExit : List Action :=
  [.server true, .accept .conn] ++ List.replicate 8 (.server true) ++
    [.create (some 1), .worker 0] ++ List.replicate 5 (.server true) ++ [.worker 0]

/-- A worker that waited for its registration finds its entry. -/
theorem pool_correct_earlyExit :
    ∃ t, Run (step 1) RecordsAllocated (init .run []) earlyExit t ∧
      t.workers = [⟨1, .unregister .search, false⟩] ∧ t.workermgr = some ⟨1, [1]⟩ ∧
      (thrUnregister ⟨1, [1]⟩ 1).1 = 0 := by
  have hexec : (exec (step 1) RecordsAllocated (init .run []) earlyExit).any
      (fun t => t.workers = [⟨1, .unregister .search, false⟩] ∧
        t.workermgr = some ⟨1, [1]⟩) = true := by decide +kernel
  obtain ⟨t, hrun, hworkers, hmgr⟩ := exists_run_of_exec hexec
  obtain ⟨-, hfound, -⟩ := pool_correct (by decide) .run [] hrun
  obtain ⟨mgr, hmgr', hzero, -⟩ := hfound 0 ⟨1, .unregister .search, false⟩
    (by rw [hworkers]; rfl) rfl
  obtain rfl := Option.some.inj (hmgr.symm.trans hmgr')
  exact ⟨t, hrun, hworkers, hmgr, hzero⟩

end Daemon

end Rblpolicyd
