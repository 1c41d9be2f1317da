import Rblpolicyd.Semantics.Mutex
import Rblpolicyd.Session.Transitions

/-!
# The mutex of a session

`resolvers_` is owned by the one thread whose code is between its lock and its
unlock. A worker that has an error never touches it; any other worker keeps it for
good once its wait is over, so that no solver can enter after that.

## Main definitions

* `Session.Holds` — the thread is inside the critical section
* `Session.Locking` — the mutex is owned by the thread inside

## Main results

* `Session.Locking.step` — every step keeps the mutex and the points in agreement
-/

namespace Rblpolicyd

namespace Session

open Semantics

variable {job : Job} {s s' : Session} {ok : Bool} {j k : Nat} {d d' : Dispatch}

/-! ### Replacing and adding one record -/

theorem getElem?_put (hd : s.dispatched[j]? = some d) (k : Nat) :
    (s.put j d').dispatched[k]? = if j = k then some d' else s.dispatched[k]? := by
  have hlt : j < s.dispatched.length := (List.getElem?_eq_some_iff.mp hd).1
  rw [put, List.getElem?_set, if_pos hlt]

/-- What holds of every record, and of the one that replaces another, holds afterwards. -/
theorem forall_put {P : Nat → Dispatch → Prop} (hd : s.dispatched[j]? = some d)
    (hall : ∀ k e, s.dispatched[k]? = some e → P k e) (hnew : P j d') :
    ∀ k e, (s.put j d').dispatched[k]? = some e → P k e := by
  intro k e he
  rw [getElem?_put hd] at he
  split_ifs at he with hjk
  · obtain rfl := Option.some.inj he
    exact hjk ▸ hnew
  · exact hall k e he

theorem forall_append {P : Nat → Dispatch → Prop}
    (hall : ∀ k e, s.dispatched[k]? = some e → P k e) (hnew : P s.dispatched.length d) :
    ∀ k e, (s.dispatched ++ [d])[k]? = some e → P k e := by
  intro k e he
  rcases lt_trichotomy k s.dispatched.length with hk | rfl | hk
  · rw [List.getElem?_append_left hk] at he
    exact hall k e he
  · rw [List.getElem?_concat_length] at he
    exact Option.some.inj he ▸ hnew
  · rw [List.getElem?_eq_none (by simpa using hk)] at he
    cases he

theorem solverHolds_put (hd : s.dispatched[j]? = some d) (k : Nat) :
    (s.put j d').solverHolds k = if j = k then d'.holds else s.solverHolds k := by
  rw [solverHolds, getElem?_put hd]
  split_ifs <;> rfl

theorem solverHolds_of_getElem? (hd : s.dispatched[j]? = some d) : s.solverHolds j = d.holds := by
  rw [solverHolds, hd]

/-! ### The critical section -/

/-- The thread has `resolvers_` locked. -/
def Holds (s : Session) : Party → Prop
  | .worker => s.pc.holds s.err = true
  | .solver j => s.solverHolds j = true

/-- The owner of `resolvers_` is the thread inside, and only an error in the preparation
leads past the critical sections. -/
structure Locking (s : Session) : Prop where
  guarded : Guarded s.owner s.Holds
  phase_of_err : s.err = true → s.pc.phase = .replying

theorem locking_init : Locking init where
  guarded p := by
    cases p <;> simp [init, Holds, WorkerPc.holds, solverHolds]
  phase_of_err h := by cases h

/-- In front of the reply there is no error. -/
theorem Locking.err_eq_false (h : Locking s) (hphase : s.pc.phase ≠ .replying) :
    s.err = false := by
  by_contra herr
  apply hphase
  exact h.phase_of_err (by simpa using herr)

theorem Moves.phase {pc : WorkerPc} (h : s.Moves pc) :
    pc.phase = s.pc.phase ∨ s.pc.phase = .dispatching ∧ pc.phase = .joining ∨
      s.pc.phase = .tallying ∧ pc.phase = .replying := by
  cases h <;> simp [*]

theorem Moves.holds {pc : WorkerPc} (h : s.Moves pc)
    (herr : s.err = true → s.pc.phase = .replying) : pc.holds s.err = s.pc.holds s.err := by
  cases h with
  | reply hpc _ =>
    -- the tally is only reached without an error, and keeps the mutex
    have hnoerr : s.err = false := by
      by_contra h
      simpa [hpc] using herr (by simpa using h)
    simp [WorkerPc.holds, hpc, hnoerr]
  | _ => simp [WorkerPc.holds, *]

theorem createNext_holds (pc : CreatePc) (ok err : Bool) :
    (createNext pc ok).holds err = true := by
  unfold createNext
  split <;> rfl

/-- What a step of the worker does to `resolvers_`. -/
theorem WorkerStep.lockStep (hinv : Locking s) (h : WorkerStep job s ok s') :
    LockStep Party.worker s.owner s'.owner (s.Holds .worker) (s'.Holds .worker) := by
  cases h with
  | move hmove =>
    have hsame := hmove.holds hinv.phase_of_err
    exact .keep rfl (by rw [Holds, Holds, hsame])
  | reject hpc _ => exact .keep rfl (by simp [Holds, WorkerPc.holds, hpc])
  | prepare hpc _ => exact .keep rfl (by simp [Holds, WorkerPc.holds, hpc])
  | acquireDispatch _ hfree => exact .acquire hfree rfl (by simp [Holds, WorkerPc.holds])
  | record hpc _ => exact .keep rfl (by simp [Holds, WorkerPc.holds, hpc])
  | create hpc _ =>
    refine .keep rfl ⟨fun _ => ?_, fun _ => createNext_holds _ _ _⟩
    simp [Holds, WorkerPc.holds, hpc]
  | unlockDispatch hpc =>
    exact .release (by simp [Holds, WorkerPc.holds, hpc]) rfl (by simp [Holds, WorkerPc.holds])
  | acquireJoin _ hfree => exact .acquire hfree rfl (by simp [Holds, WorkerPc.holds])
  | sleep hpc _ =>
    exact .release (by simp [Holds, WorkerPc.holds, hpc]) rfl (by simp [Holds, WorkerPc.holds])
  | join hpc _ => exact .keep rfl (by simp [Holds, WorkerPc.holds, hpc])
  | tally hpc _ => exact .keep rfl (by simp [Holds, WorkerPc.holds, hpc])
  | freeHostname hpc _ => exact .keep rfl (by simp [Holds, WorkerPc.holds, hpc])
  | freeResdata hpc _ => exact .keep rfl (by simp [Holds, WorkerPc.holds, hpc])
  | reply hpc => exact .keep rfl (by simp [Holds, WorkerPc.holds, hpc])

/-- While the worker is inside, no solver is. -/
theorem Locking.not_solverHolds (hinv : Locking s) (hin : s.Holds .worker) (j : Nat) :
    s.solverHolds j = false := by
  by_contra hj
  have hother : s.Holds (.solver j) := by simpa [Holds] using hj
  cases hinv.guarded.unique hin hother

theorem holds_createEffect {pc : CreatePc} (hd : d.holds = false) :
    Dispatch.holds { d with solver := createEffect pc ok d.solver } = false := by
  unfold createEffect
  split
  · cases ok <;> rfl
  · cases hsolver : d.solver <;> simp_all [Dispatch.holds]
  · exact hd

/-- The worker's steps leave the solvers in or out of the critical section. -/
theorem WorkerStep.solverHolds (hinv : Locking s) (h : WorkerStep job s ok s') (k : Nat) :
    s'.solverHolds k = s.solverHolds k := by
  cases h with
  | record _ _ =>
    unfold Session.solverHolds
    rcases lt_trichotomy k s.dispatched.length with hk | rfl | hk
    · rw [List.getElem?_append_left hk]
    · simp [newDispatch, Dispatch.holds]
    · rw [List.getElem?_eq_none (by simpa using hk), List.getElem?_eq_none hk.le]
  -- the worker is inside, so the new solver is not
  | @create pc d hpc hd =>
    have hout := hinv.not_solverHolds (by simp [Holds, WorkerPc.holds, hpc])
    have hold : d.holds = false := solverHolds_of_getElem? hd ▸ hout _
    change (s.put _ _).solverHolds k = _
    rw [solverHolds_put hd, hout k, holds_createEffect hold, ite_self]
  | freeHostname _ hd =>
    change (s.put _ _).solverHolds k = _
    rw [solverHolds_put hd]
    split_ifs with hk
    · subst hk
      exact (solverHolds_of_getElem? hd).symm
    · rfl
  | freeResdata _ hd =>
    change (s.put _ _).solverHolds k = _
    rw [solverHolds_put hd]
    split_ifs with hk
    · subst hk
      exact (solverHolds_of_getElem? hd).symm
    · rfl
  | _ => rfl

/-- What a step of a solver does to `resolvers_`. -/
theorem SolverStep.lockStep {solver : Solver} (hd : s.dispatched[j]? = some d)
    (hsolver : d.solver = some solver) (h : SolverStep job s j d solver s') :
    LockStep (Party.solver j) s.owner s'.owner (s.Holds (.solver j)) (s'.Holds (.solver j)) := by
  have hbefore : s.Holds (.solver j) ↔ solver.pc.holds = true := by
    simp [Holds, solverHolds_of_getElem? hd, Dispatch.holds, hsolver]
  have hafter : ∀ d', (s.put j d').Holds (.solver j) ↔ d'.holds = true := by
    intro d'
    rw [Holds, solverHolds_put hd, if_pos rfl]
  cases h with
  | move hmove =>
    refine .keep rfl ?_
    rw [hbefore, hafter]
    generalize hpc : solver.pc = pc at hmove
    cases hmove <;> simp [Dispatch.holds, Dispatch.moveTo, SolverPc.holds]
  | store hpc =>
    refine .keep rfl ?_
    rw [hbefore, hafter, hpc]
    rfl
  | acquire hpc hfree => exact .acquire hfree rfl ((hafter _).mpr rfl)
  | decrement hpc =>
    refine .keep rfl ?_
    rw [hbefore, hpc]
    exact hafter _
  | broadcast hpc =>
    refine .keep rfl ?_
    rw [hbefore, hpc]
    exact hafter _
  | release hpc =>
    refine .release (hbefore.mpr (by rw [hpc]; rfl)) rfl ?_
    intro hin
    exact absurd ((hafter _).mp hin) (by simp [Dispatch.holds, Dispatch.moveTo, SolverPc.holds])

/-- The steps of a solver leave all other threads in or out of the critical section. -/
theorem SolverStep.holds_iff {solver : Solver} (hd : s.dispatched[j]? = some d)
    (h : SolverStep job s j d solver s') {p : Party} (hp : p ≠ .solver j) :
    s'.Holds p ↔ s.Holds p := by
  have hput : ∀ d', (s.put j d').Holds p ↔ s.Holds p := by
    intro d'
    cases p with
    | worker => rfl
    | solver k =>
      have hjk : j ≠ k := by
        rintro rfl
        exact hp rfl
      rw [Holds, solverHolds_put hd, if_neg hjk]
      rfl
  cases h with
  | broadcast _ =>
    cases p with
    | worker =>
      -- a worker that is woken up has still to lock
      by_cases hpc : s.pc = .asleep
      · simp [Holds, hpc, WorkerPc.holds]
      · simp [Holds, hpc, put]
    | solver k => exact hput _
  | _ => exact hput _

theorem phase_createNext (pc : CreatePc) (ok : Bool) : (createNext pc ok).phase = .creating := by
  unfold createNext
  split <;> rfl

/-- An error is only set on the way to the reply, and the worker stays there. -/
theorem WorkerStep.phase_of_err (hinv : s.err = true → s.pc.phase = .replying)
    (h : WorkerStep job s ok s') (herr : s'.err = true) : s'.pc.phase = .replying := by
  -- with an error the worker is at none of the other points
  have hstuck : ∀ {pc}, s.err = true → s.pc = pc → pc.phase = .replying :=
    fun herr hpc => hpc ▸ hinv herr
  cases h with
  | move hmove =>
    rcases hmove.phase with h | ⟨h, -⟩ | ⟨-, h⟩
    · exact h.trans (hinv herr)
    · cases h.symm.trans (hinv herr)
    · exact h
  | reject _ _ => rfl
  | reply _ => rfl
  | prepare hpc _ => cases hstuck herr hpc
  | acquireDispatch hpc _ => cases hstuck herr hpc
  | record hpc _ => cases hstuck herr hpc
  | create hpc _ => cases hstuck herr hpc
  | unlockDispatch hpc => cases hstuck herr hpc
  | acquireJoin hpc _ =>
    rcases hpc with hpc | hpc
    · cases hstuck herr hpc
    · cases hstuck herr hpc
  | sleep hpc _ => cases hstuck herr hpc
  | join hpc _ => cases hstuck herr hpc
  | tally hpc _ => cases hstuck herr hpc
  | freeHostname hpc _ => cases hstuck herr hpc
  | freeResdata hpc _ => cases hstuck herr hpc

/-- Every step keeps the owner of `resolvers_` and the points of the threads in agreement. -/
theorem Locking.step {a : Action} (hinv : Locking s) (h : s.step job a = some s') : Locking s' := by
  cases a with
  | worker ok =>
    have hstep := workerStep_cases h
    refine ⟨hinv.guarded.step (hstep.lockStep hinv) ?_, hstep.phase_of_err hinv.phase_of_err⟩
    intro p hp
    cases p with
    | worker => exact absurd rfl hp
    | solver k => rw [Holds, Holds, hstep.solverHolds hinv]
  -- the wait has given the mutex back
  | wake =>
    obtain ⟨hpc, rfl⟩ := wakeStep_cases h
    refine ⟨fun p => ?_, fun herr => ?_⟩
    · rw [hinv.guarded p]
      cases p with
      | worker => simp [Holds, hpc, WorkerPc.holds]
      | solver k => rfl
    · have hphase := hinv.phase_of_err herr
      rw [hpc] at hphase
      cases hphase
  | solver j ok =>
    obtain ⟨d, solver, hd, hsolver, -, hstep⟩ := solverStep_cases h
    refine ⟨hinv.guarded.step (hstep.lockStep hd hsolver) fun p => hstep.holds_iff hd, ?_⟩
    intro herr
    cases hstep with
    | broadcast _ =>
      have hphase := hinv.phase_of_err herr
      by_cases hpc : s.pc = .asleep
      · rw [hpc] at hphase
        cases hphase
      · simpa [hpc] using hphase
    | _ => exact hinv.phase_of_err herr
  -- a solver that ends keeps its point
  | kill j =>
    obtain ⟨d, solver, hd, hsolver, -, -, -, rfl⟩ := killStep_cases h
    refine ⟨fun p => ?_, hinv.phase_of_err⟩
    rw [put, hinv.guarded p]
    cases p with
    | worker => rfl
    | solver k =>
      change _ ↔ (s.put j _).solverHolds k = true
      rw [solverHolds_put hd]
      split_ifs with hjk
      · subst hjk
        simp [Holds, solverHolds_of_getElem? hd, Dispatch.holds, hsolver]
      · rfl

end Session

end Rblpolicyd
