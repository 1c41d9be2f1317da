import Rblpolicyd.Session.Join

/-!
# What the threads of a session wait for

When threads can be created, no thread of a session is ever cancelled, and the points
of the worker agree with its place in the list and in its records. A thread is then
blocked in front of a mutex or asleep on the condition variable, and nowhere else; the
shared mutexes are left to the system of all requests.

## Main definitions

* `Session.Succeeds` — the calls that create a solver succeed in this step
* `Session.Healthy` — what holds in runs of such steps

## Main results

* `Session.Healthy.run` — every such run preserves it
* `Session.Healthy.worker_enabled`, `Session.Healthy.solver_enabled` — what blocks a thread
* `Session.Healthy.exists_waker` — a sleeping worker has a solver that will wake it up
-/

namespace Rblpolicyd

open Libc Semantics

/-- The calls of `rthread_create` that fail for want of a thread or of memory. -/
def WorkerPc.creates : WorkerPc → Bool
  | .create .create | .create .register => true
  | _ => false

/-- The points at which the next item of the list is looked at. -/
def WorkerPc.takesItem : WorkerPc → Bool
  | .lockDispatch | .record => true
  | _ => false

/-- The points in the body of the tally loop. -/
def WorkerPc.talliesItem : WorkerPc → Bool
  | .tallyLock | .tallyUpdate | .tallyUnlock | .freeHostname | .freeResdata => true
  | _ => false

/-- The points in front of `resolvers_`. -/
def WorkerPc.locks : WorkerPc → Bool
  | .lockDispatch | .lockJoin | .relock => true
  | _ => false

/-- The solver of the record, if it has one, was not cancelled and has not ended early. -/
def Dispatch.Unharmed (d : Dispatch) : Prop :=
  ∀ solver, d.solver = some solver → solver.cancelled = false ∧ solver.killed = false

namespace Session

variable {job : Job} {s s' t : Session} {ok : Bool} {j : Nat} {d d' : Dispatch} {solver : Solver}
  {a : Action} {w : List Action}

/-- `pthread_create` and the allocation of the thread record do not fail in this step. -/
def Succeeds (s : Session) : Action → Prop
  | .worker ok => s.pc.creates = true → ok = true
  | _ => True

instance (s : Session) : (a : Action) → Decidable (Succeeds s a)
  | .worker ok => inferInstanceAs (Decidable (s.pc.creates = true → ok = true))
  | .wake | .solver _ _ | .kill _ => inferInstanceAs (Decidable True)

/-- No solver was cancelled or has ended early. -/
def AllUnharmed (s : Session) : Prop :=
  ∀ (k : Nat) (d : Dispatch), s.dispatched[k]? = some d → d.Unharmed

/-- What holds in runs whose creations succeed. -/
structure Healthy (job : Job) (s : Session) : Prop where
  inv : Inv job s
  kept : AllKept s
  unharmed : AllUnharmed s
  regular : s.pc ≠ .create .cancel
  listed : s.pc.takesItem = true → s.rbl ≠ []
  indexed : s.pc.talliesItem = true → s.i < s.resdataCnt

theorem healthy_init : Healthy job init where
  inv := inv_init
  kept _ _ h := by cases h
  unharmed _ _ h := by cases h
  regular := nofun
  listed h := by cases h
  indexed h := by cases h

/-! ### The steps of the worker -/

theorem createNext_ne_cancel {pc : CreatePc} (hok : pc = .register → ok = true) :
    createNext pc ok ≠ .create .cancel := by
  cases pc with
  | register => rw [hok rfl]; nofun
  | create => cases ok <;> nofun
  | _ => nofun

theorem WorkerStep.regular (hok : Succeeds s (.worker ok)) (h : WorkerStep job s ok s') :
    s'.pc ≠ .create .cancel := by
  cases h with
  | move hmove => cases hmove <;> nofun
  | create hpc _ =>
    apply createNext_ne_cancel
    rintro rfl
    exact hok (by rw [hpc]; rfl)
  | _ => nofun

theorem unharmed_createEffect {pc : CreatePc} (hregular : pc ≠ .cancel) (hd : d.Unharmed) :
    Dispatch.Unharmed { d with solver := createEffect pc ok d.solver } := by
  intro solver hsolver
  unfold createEffect at hsolver
  split at hsolver
  · cases ok with
    | true =>
      obtain rfl := Option.some.inj hsolver
      exact ⟨rfl, rfl⟩
    | false => cases hsolver
  · exact absurd rfl hregular
  · exact hd solver hsolver

theorem AllUnharmed.workerStep (h : AllUnharmed s) (hregular : s.pc ≠ .create .cancel)
    (hstep : WorkerStep job s ok s') : AllUnharmed s' := by
  cases hstep with
  | create hpc hd =>
    refine forall_put hd h (unharmed_createEffect ?_ (h _ _ hd))
    rintro rfl
    exact hregular hpc
  | record _ _ => exact forall_append h nofun
  | freeHostname _ hd =>
    have hold := h _ _ hd
    exact forall_put hd h hold
  | freeResdata _ hd =>
    have hold := h _ _ hd
    exact forall_put hd h hold
  | _ => exact h

theorem WorkerStep.listed (hlisted : s.pc.takesItem = true → s.rbl ≠ [])
    (h : WorkerStep job s ok s') : s'.pc.takesItem = true → s'.rbl ≠ [] := by
  intro htakes
  cases h with
  | move hmove =>
    cases hmove with
    | lockDispatch _ hrbl => exact hrbl
    | _ => cases htakes
  | acquireDispatch hpc _ => exact hlisted (by rw [hpc]; rfl)
  | @create pc d hpc _ =>
    exact absurd htakes (by unfold createNext; split <;> nofun)
  | _ => cases htakes

theorem WorkerStep.indexed (hindexed : s.pc.talliesItem = true → s.i < s.resdataCnt)
    (h : WorkerStep job s ok s') : s'.pc.talliesItem = true → s'.i < s'.resdataCnt := by
  intro htallies
  cases h with
  | move hmove =>
    cases hmove with
    | tallyLock _ hi => exact hi
    | tallyUpdate hpc => exact hindexed (by rw [hpc]; rfl)
    | freeHostname hpc => exact hindexed (by rw [hpc]; rfl)
    | _ => cases htallies
  | tally hpc _ => exact hindexed (by rw [hpc]; rfl)
  | freeHostname hpc _ => exact hindexed (by rw [hpc]; rfl)
  | @create pc d hpc _ =>
    exact absurd htallies (by unfold createNext; split <;> nofun)
  | _ => cases htallies

/-! ### The steps of a solver -/

/-- The solvers leave the worker where it is, or wake it up. -/
theorem SolverStep.frame (h : SolverStep job s j d solver s') :
    (s'.pc = s.pc ∨ s.pc = .asleep ∧ s'.pc = .relock) ∧ s'.rbl = s.rbl ∧ s'.i = s.i ∧
      s'.resdataCnt = s.resdataCnt := by
  cases h with
  | broadcast _ =>
    by_cases hasleep : s.pc = .asleep
    · exact ⟨.inr ⟨hasleep, if_pos hasleep⟩, rfl, rfl, rfl⟩
    · exact ⟨.inl (if_neg hasleep), rfl, rfl, rfl⟩
  | _ => exact ⟨.inl rfl, rfl, rfl, rfl⟩

theorem AllUnharmed.solverStep (h : AllUnharmed s) (hd : s.dispatched[j]? = some d)
    (hsolver : d.solver = some solver) (hstep : SolverStep job s j d solver s') :
    AllUnharmed s' := by
  have hmoved : ∀ pc, (d.moveTo solver pc).Unharmed := by
    intro pc other hother
    obtain rfl := Option.some.inj hother
    exact h j d hd solver hsolver
  cases hstep with
  | move _ => exact forall_put hd h (hmoved _)
  | store _ => exact forall_put hd h (hmoved .lock)
  | acquire _ _ => exact forall_put hd h (hmoved .decrement)
  | decrement _ => exact forall_put hd h (hmoved .broadcast)
  | broadcast _ => exact forall_put hd h (hmoved .unlock)
  | release _ => exact forall_put hd h (hmoved (.stats .test))

/-! ### All steps -/

/-- No step of a healthy session loses a solver. -/
theorem Healthy.keepsSolvers (h : Healthy job s) (hok : Succeeds s a)
    (hstep : s.step job a = some s') : KeepsSolvers s a := by
  cases a with
  -- a creation succeeds
  | worker ok =>
    intro hpc
    exact hok (by rw [hpc]; rfl)
  -- and no solver has been cancelled
  | kill j =>
    obtain ⟨d, solver, hd, hsolver, hcancelled, -⟩ := killStep_cases hstep
    rw [(h.unharmed j d hd solver hsolver).1] at hcancelled
    cases hcancelled
  | wake => trivial
  | solver j ok => trivial

theorem Healthy.step (h : Healthy job s) (hok : Succeeds s a) (hstep : s.step job a = some s') :
    Healthy job s' := by
  have hinv := h.inv.step hstep
  have hkept := h.kept.step h.inv (h.keepsSolvers hok hstep) hstep
  cases a with
  | worker ok =>
    have hcases := workerStep_cases hstep
    exact ⟨hinv, hkept, h.unharmed.workerStep h.regular hcases, hcases.regular hok,
      hcases.listed h.listed, hcases.indexed h.indexed⟩
  | wake =>
    obtain ⟨-, rfl⟩ := wakeStep_cases hstep
    exact ⟨hinv, hkept, h.unharmed, nofun, nofun, nofun⟩
  | solver j ok =>
    obtain ⟨d, solver, hd, hsolver, -, hcases⟩ := solverStep_cases hstep
    obtain ⟨hpc, hrbl, hi, hcnt⟩ := hcases.frame
    refine ⟨hinv, hkept, h.unharmed.solverStep hd hsolver hcases, ?_, ?_, ?_⟩
    · rcases hpc with hpc | ⟨-, hpc⟩
      · exact hpc ▸ h.regular
      · rw [hpc]
        nofun
    · rcases hpc with hpc | ⟨-, hpc⟩
      · rw [hpc, hrbl]
        exact h.listed
      · rw [hpc]
        nofun
    · rcases hpc with hpc | ⟨-, hpc⟩
      · rw [hpc, hi, hcnt]
        exact h.indexed
      · rw [hpc]
        nofun
  | kill j =>
    obtain ⟨d, solver, hd, hsolver, hcancelled, -⟩ := killStep_cases hstep
    rw [(h.unharmed j d hd solver hsolver).1] at hcancelled
    cases hcancelled

theorem Healthy.run (hrun : Run (Session.step job) Succeeds init w t) : Healthy job t :=
  hrun.invariant healthy_init fun _ _ _ h hok hstep => h.step hok hstep

/-! ### What blocks a thread -/

theorem exists_record (hlt : j < s.dispatched.length) : ∃ d, s.dispatched[j]? = some d :=
  ⟨_, List.getElem?_eq_getElem hlt⟩

/-- The worker is blocked in front of `resolvers_` and on the condition variable only. -/
theorem Healthy.worker_enabled (h : Healthy job s) (hasleep : s.pc ≠ .asleep)
    (hreturned : s.pc ≠ .returned) (hfree : s.pc.locks = true → s.owner = none) :
    ∃ t, s.workerStep job true = some t := by
  have hlength : s.resdataCnt ≤ s.dispatched.length := by
    rw [h.inv.records.length]
    exact Nat.le_add_right _ _
  -- a record is there for each of the points that read one
  have hcreating : s.pc.phase = .creating → s.resdataCnt < s.dispatched.length := by
    intro hphase
    rw [h.inv.records.length, if_pos hphase]
    exact Nat.lt_succ_self _
  have hlisted := h.listed
  have hindexed := h.indexed
  unfold Session.workerStep
  generalize s.pc = pc at *
  cases pc with
  | start => cases prepareClient job.request <;> exact ⟨_, rfl⟩
  | lockDispatch => exact ⟨_, if_pos (hfree rfl)⟩
  | record =>
    obtain ⟨rbl, rest, hrbl⟩ := List.exists_cons_of_ne_nil (hlisted rfl)
    rw [hrbl]
    exact ⟨_, rfl⟩
  | create pc =>
    obtain ⟨d, hd⟩ := exists_record (hcreating rfl)
    simp only [createStep, hd]
    exact ⟨_, rfl⟩
  | lockJoin => exact ⟨_, if_pos (hfree rfl)⟩
  | testJoin =>
    by_cases hres : s.resolvers ≠ 0
    · exact ⟨_, if_pos hres⟩
    · exact ⟨_, if_neg hres⟩
  | asleep => exact absurd rfl hasleep
  | relock => exact ⟨_, if_pos (hfree rfl)⟩
  | tallyUpdate =>
    obtain ⟨d, hd⟩ := exists_record ((hindexed rfl).trans_le hlength)
    rw [hd]
    exact ⟨_, rfl⟩
  | freeHostname =>
    obtain ⟨d, hd⟩ := exists_record ((hindexed rfl).trans_le hlength)
    rw [hd]
    exact ⟨_, rfl⟩
  | freeResdata =>
    obtain ⟨d, hd⟩ := exists_record ((hindexed rfl).trans_le hlength)
    rw [hd]
    exact ⟨_, rfl⟩
  | returned => exact absurd rfl hreturned
  | _ => exact ⟨_, rfl⟩

/-- A solver is blocked in front of `resolvers_` only. -/
theorem Healthy.solver_enabled (h : Healthy job s) (hd : s.dispatched[j]? = some d)
    (hsolver : d.solver = some solver) (hreturned : solver.pc ≠ .returned)
    (hfree : solver.pc = .lock → s.owner = none) : ∃ t, s.solverStep job j true = some t := by
  have halive := (h.unharmed j d hd solver hsolver).2
  simp only [Session.solverStep, hd, hsolver, halive, solverPcStep]
  generalize solver.pc = pc at *
  cases pc with
  | lock => exact ⟨_, if_pos (hfree rfl)⟩
  | returned => exact absurd rfl hreturned
  | _ => exact ⟨_, rfl⟩

/-- A worker that sleeps has a solver that has not broadcast yet. -/
theorem Healthy.exists_waker (h : Healthy job s) (hasleep : s.pc = .asleep) :
    ∃ (j : Nat) (d : Dispatch) (solver : Solver), s.dispatched[j]? = some d ∧
      d.solver = some solver ∧ (solver.pc.pending = true ∨ solver.pc = .broadcast) := by
  -- with the counter at zero the broadcast is due, above it a decrement is
  by_cases hzero : s.resolvers = 0
  · obtain ⟨j, d, solver, hd, hsolver, -, hpc⟩ := h.inv.wakes hasleep hzero
    exact ⟨j, d, solver, hd, hsolver, .inr hpc⟩
  · have hpos : 0 < s.resolvers := by
      have hcount := h.inv.records.resolvers
      omega
    obtain ⟨j, d, solver, hd, hsolver, -, hpc⟩ := (h.kept.joinBalanced h.inv).2 hasleep hpos
    exact ⟨j, d, solver, hd, hsolver, .inl hpc⟩

/-- A worker with a solver that is still pending has not got to its tally. -/
theorem Healthy.phase_of_pending (h : Healthy job s) (hd : s.dispatched[j]? = some d)
    (hsolver : d.solver = some solver) (hpending : solver.pc.pending = true) :
    s.pc.phase ≠ .tallying ∧ s.pc.phase ≠ .replying := by
  have hstuck : s.resolvers ≠ 0 := by
    intro hzero
    have hdone := h.inv.records.not_pending hzero hd
    rw [pending_eq hsolver, hpending] at hdone
    cases hdone
  refine ⟨fun hphase => hstuck (h.inv.tallied.tallying hphase).1, fun hphase => ?_⟩
  cases herr : s.err with
  | true =>
    rw [(h.inv.records.rejected herr).2] at hd
    cases hd
  | false => exact hstuck (h.inv.tallied.replying hphase herr).1

end Session

end Rblpolicyd
