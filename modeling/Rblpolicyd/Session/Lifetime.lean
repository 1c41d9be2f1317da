import Rblpolicyd.Session.Verdict

/-!
# What solvers use and the worker releases

A solver works with its record and the name in it, with the client's address, and with the
counter, the mutex and the condition variable on the stack of its worker. The worker destroys
the condition variable behind its wait, frees the records in its tally and the address in its
cleanup, and the stack goes when it returns. The solver uses its record once more behind the
decrement that ends the wait, but it has the mutex locked until it has used all of them, and
the worker keeps the mutex from its wait on.

## Main definitions

* `Object` — what a worker shares with its solvers
* `SolverPc.accesses` — the objects that a solver uses from a point to the next
* `Session.Released` — the worker has freed or destroyed the object

## Main results

* `Session.Unreleased.step` — in front of the tally nothing is freed
* `Session.not_released` — no solver is about to use a released object, in any run
-/

namespace Rblpolicyd

open Libc Semantics

/-- What a worker shares with its solvers: record `j` and the name in it, the client's address,
and three variables on its stack. -/
inductive Object
  | record (j : Nat)
  | hostname (j : Nat)
  | client
  | counter
  | mutex
  | condition
  deriving DecidableEq

/-- The objects that the solver of record `j` uses on its way from a point to the next. The three
variables are reached through the record. -/
def SolverPc.accesses (j : Nat) : SolverPc → List Object
  | .lookup => [.record j, .hostname j]
  | .store => [.record j, .hostname j, .client]
  | .lock => [.record j, .mutex]
  | .decrement => [.record j, .counter]
  | .broadcast => [.record j, .condition]
  | .unlock => [.record j, .mutex]
  | .stats _ | .unregister _ | .returned => []

/-- The worker has freed the client's address. -/
def WorkerPc.cleaned : WorkerPc → Bool
  | .stats _ | .returned => true
  | _ => false

namespace Session

variable {job : Job} {s s' : Session} {ok : Bool} {j : Nat} {d d' : Dispatch} {solver : Solver}

/-- The worker has released the object: freed it, destroyed it, or returned with it on its
stack. -/
def Released (s : Session) : Object → Prop
  | .record j => ∃ d, s.dispatched[j]? = some d ∧ d.resdata.freed = true
  | .hostname j => ∃ d, s.dispatched[j]? = some d ∧ d.resdata.hostnameFreed = true
  | .client => s.pc.cleaned = true
  | .counter | .mutex => s.pc = .returned
  | .condition => s.pc.phase = .tallying ∨ s.pc.phase = .replying

/-- In front of the tally no record is freed, and no name in one. -/
def Unreleased (s : Session) : Prop :=
  s.pc.phase ≠ .tallying → s.pc.phase ≠ .replying →
    ∀ (k : Nat) (e : Dispatch), s.dispatched[k]? = some e →
      e.resdata.freed = false ∧ e.resdata.hostnameFreed = false

theorem unreleased_init : Unreleased init := by
  intro _ _ k e he
  cases he

/-- The worker gets to no part in front of the tally from one behind it. -/
theorem Moves.unreleased {pc : WorkerPc} (h : s.Moves pc) (htally : pc.phase ≠ .tallying)
    (hreply : pc.phase ≠ .replying) : s.pc.phase ≠ .tallying ∧ s.pc.phase ≠ .replying := by
  cases h <;> simp_all

/-- Another state of a solver changes nothing about what is freed. -/
theorem Unreleased.put (h : Unreleased s) (hd : s.dispatched[j]? = some d)
    (hfreed : d'.resdata.freed = d.resdata.freed)
    (hhostname : d'.resdata.hostnameFreed = d.resdata.hostnameFreed) :
    Unreleased (s.put j d') := by
  intro htally hreply
  have hall := h htally hreply
  refine forall_put (P := fun _ e => e.resdata.freed = false ∧ e.resdata.hostnameFreed = false)
    hd hall ?_
  rw [hfreed, hhostname]
  exact hall j d hd

theorem Unreleased.workerStep (h : Unreleased s) (hstep : WorkerStep job s ok s') :
    Unreleased s' := by
  intro htally hreply
  -- the points in front of the tally keep what they find
  have hkeep : ∀ {pc}, s.pc = pc → pc.phase ≠ .tallying → pc.phase ≠ .replying →
      ∀ (k : Nat) (e : Dispatch), s.dispatched[k]? = some e →
        e.resdata.freed = false ∧ e.resdata.hostnameFreed = false :=
    fun hpc h₁ h₂ => h (hpc ▸ h₁) (hpc ▸ h₂)
  cases hstep with
  | move hmove =>
    obtain ⟨h₁, h₂⟩ := hmove.unreleased htally hreply
    exact h h₁ h₂
  | reject _ _ => exact absurd rfl hreply
  | prepare hpc _ => exact hkeep hpc (by simp) (by simp)
  | acquireDispatch hpc _ => exact hkeep hpc (by simp) (by simp)
  | record hpc _ => exact forall_append (hkeep hpc (by simp) (by simp)) ⟨rfl, rfl⟩
  | @create pc d hpc hd =>
    have hall := hkeep hpc (by simp) (by simp)
    have hold : d.resdata.freed = false ∧ d.resdata.hostnameFreed = false := hall _ d hd
    exact forall_put (P := fun _ e => e.resdata.freed = false ∧ e.resdata.hostnameFreed = false)
      hd hall hold
  | unlockDispatch hpc => exact hkeep hpc (by simp) (by simp)
  | acquireJoin hpc _ =>
    rcases hpc with hpc | hpc
    · exact hkeep hpc (by simp) (by simp)
    · exact hkeep hpc (by simp) (by simp)
  | sleep hpc _ => exact hkeep hpc (by simp) (by simp)
  | join _ _ => exact absurd rfl htally
  | tally _ _ => exact absurd rfl htally
  | freeHostname _ _ => exact absurd rfl htally
  | freeResdata _ _ => exact absurd rfl htally
  | reply _ => exact absurd rfl hreply

theorem Unreleased.solverStep (h : Unreleased s) (hd : s.dispatched[j]? = some d)
    (hstep : SolverStep job s j d solver s') : Unreleased s' := by
  intro htally hreply
  have hphase := hstep.phase
  rw [hphase] at htally hreply
  have hput : ∀ e : Dispatch, e.resdata.freed = d.resdata.freed →
      e.resdata.hostnameFreed = d.resdata.hostnameFreed → Unreleased (s.put j e) :=
    fun e hfreed hhostname => h.put hd hfreed hhostname
  cases hstep with
  | move _ => exact hput _ rfl rfl htally hreply
  | store _ => exact hput _ rfl rfl htally hreply
  | acquire _ _ => exact hput (d.moveTo solver .decrement) rfl rfl htally hreply
  | decrement _ => exact hput (d.moveTo solver .broadcast) rfl rfl htally hreply
  | broadcast _ => exact hput (d.moveTo solver .unlock) rfl rfl htally hreply
  | release _ => exact hput (d.moveTo solver (.stats .test)) rfl rfl htally hreply

theorem Unreleased.step {a : Action} (h : Unreleased s) (hstep : s.step job a = some s') :
    Unreleased s' := by
  cases a with
  | worker ok => exact h.workerStep (workerStep_cases hstep)
  | wake =>
    obtain ⟨hpc, rfl⟩ := wakeStep_cases hstep
    intro _ _
    exact h (by simp [hpc]) (by simp [hpc])
  | solver j ok =>
    obtain ⟨d, solver, hd, -, -, hcases⟩ := solverStep_cases hstep
    exact h.solverStep hd hcases
  | kill j =>
    obtain ⟨d, solver, hd, -, -, -, -, rfl⟩ := killStep_cases hstep
    exact h.put hd rfl rfl

theorem unreleased_run {ok : Session → Action → Prop} {w : List Action} {t : Session}
    (hrun : Run (Session.step job) ok init w t) : Unreleased t :=
  hrun.invariant (P := Unreleased) unreleased_init fun _ _ _ h _ hstep => h.step hstep

/-- A worker that is in its tally or behind it owns the mutex and has no solver in front of the
decrement, so every solver is done with what they share. -/
theorem Inv.accesses_eq_nil (h : Inv job s) (hphase : s.pc.phase = .tallying ∨
    s.pc.phase = .replying) (hd : s.dispatched[j]? = some d) (hsolver : d.solver = some solver) :
    solver.pc.accesses j = [] := by
  have herr : s.err = false := by
    by_contra herr
    rw [(h.records.rejected (by simpa using herr)).2] at hd
    cases hd
  have hzero : s.resolvers = 0 := by
    rcases hphase with htally | hreply
    · exact (h.tallied.tallying htally).1
    · exact (h.tallied.replying hreply herr).1
  have hin : s.Holds .worker := by
    rw [Holds]
    rcases hphase with hpart | hpart
    · cases hpc : s.pc <;> simp_all [WorkerPc.holds]
    · cases hpc : s.pc <;> simp_all [WorkerPc.holds]
  have hpending := h.records.not_pending hzero hd
  rw [pending_eq hsolver] at hpending
  have hholds := h.locking.not_solverHolds hin j
  rw [solverHolds_of_getElem? hd, Dispatch.holds, hsolver, Option.any_some] at hholds
  cases hpc : solver.pc with
  | stats pc => rfl
  | unregister pc => rfl
  | returned => rfl
  -- the other points are in front of the decrement or inside the critical section
  | _ => simp [hpc, SolverPc.pending, SolverPc.holds] at hpending hholds

/-- In front of the tally the worker has released nothing. -/
theorem Unreleased.not_mem_released (h : Unreleased s) (htally : s.pc.phase ≠ .tallying)
    (hreply : s.pc.phase ≠ .replying) (o : Object) : ¬ s.Released o := by
  have hall := h htally hreply
  cases o with
  | record j =>
    rintro ⟨d, hd, hfreed⟩
    rw [(hall j d hd).1] at hfreed
    cases hfreed
  | hostname j =>
    rintro ⟨d, hd, hfreed⟩
    rw [(hall j d hd).2] at hfreed
    cases hfreed
  | client =>
    intro hcleaned
    cases hpc : s.pc <;> simp_all [Released, WorkerPc.cleaned]
  | counter =>
    intro hpc
    exact hreply (by simp [show s.pc = .returned from hpc])
  | mutex =>
    intro hpc
    exact hreply (by simp [show s.pc = .returned from hpc])
  | condition =>
    rintro (hpart | hpart)
    · exact htally hpart
    · exact hreply hpart

/-- In every state that a worker and its solvers reach, in every interleaving and however the
calls they make turn out, no object that a solver uses on its way to its next point has been
released by the worker. -/
theorem not_released (job : Job) {w : List Action} {t : Session}
    (hrun : Run (step job) (fun _ _ => True) init w t) {j : Nat} {d : Dispatch} {solver : Solver}
    (hd : t.dispatched[j]? = some d) (hsolver : d.solver = some solver) {o : Object}
    (ho : o ∈ solver.pc.accesses j) : ¬ t.Released o := by
  have hinv : Inv job t := .run hrun
  have hpart : t.pc.phase ≠ .tallying ∧ t.pc.phase ≠ .replying := by
    constructor
    · intro htally
      rw [hinv.accesses_eq_nil (.inl htally) hd hsolver] at ho
      cases ho
    · intro hreply
      rw [hinv.accesses_eq_nil (.inr hreply) hd hsolver] at ho
      cases ho
  exact (unreleased_run hrun).not_mem_released hpart.1 hpart.2 o

/-- The last solver of the sample run is about to broadcast: it has brought the counter to zero,
and its record is still there. -/
theorem not_released_sampleRun :
    ∃ t, Run (step sampleJob) (fun _ _ => True) init
        (List.replicate 28 (.worker true) ++ List.replicate 6 (.solver 1 true) ++
          List.replicate 4 (.solver 0 true)) t ∧
      t.resolvers = 0 ∧ ¬ t.Released (.record 0) := by
  have hexec : (exec (step sampleJob) (fun _ _ => True) init
      (List.replicate 28 (.worker true) ++ List.replicate 6 (.solver 1 true) ++
        List.replicate 4 (.solver 0 true))).any (fun t => t.resolvers = 0 ∧
          (t.dispatched[0]?.bind Dispatch.solver) = some ⟨.broadcast, false, false⟩) = true := by
    decide +kernel
  obtain ⟨t, hrun, hzero, hsolver⟩ := exists_run_of_exec hexec
  obtain ⟨d, hd, hsolver⟩ := Option.bind_eq_some_iff.mp hsolver
  exact ⟨t, hrun, hzero, not_released sampleJob hrun hd hsolver (by simp [SolverPc.accesses])⟩

end Session

end Rblpolicyd
