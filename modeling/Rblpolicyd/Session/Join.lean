import Rblpolicyd.Session.Verdict

/-!
# The counter the worker waits for

The worker counts a solver before it creates it and does not look at the result. As
long as every creation succeeds and no cancelled solver ends before its decrement,
the counter is the number of solvers that have still to decrement it, and a worker
that waits for one waits for a live one. A step that loses a solver leaves the
counter above zero for good: the worker never gets to its reply.

## Main definitions

* `Session.KeepsSolvers` — the step does not lose a solver
* `Session.JoinBalanced` — the counter matches the solvers that exist

## Main results

* `Session.joinBalanced_of_keepsSolvers` — runs that lose no solver are balanced
* `Session.sleeps_without_solver` — a failed creation leaves the worker asleep for good
* `Session.lost_blocks` — behind a step that loses a solver there is no reply
-/

namespace Rblpolicyd

open Libc Semantics

/-- The record has a solver that was created and has not decremented the counter. -/
def Dispatch.awaited (d : Dispatch) : Bool := d.solver.any fun solver => solver.pc.pending

/-- The record has a solver, which did not end in front of its decrement. -/
def Dispatch.Kept (d : Dispatch) : Prop :=
  ∃ solver, d.solver = some solver ∧ (solver.killed = true → solver.pc.pending = false)

namespace Session

variable {job : Job} {s s' t : Session} {ok : Bool} {j : Nat} {d d' : Dispatch} {solver : Solver}
  {a : Action} {w v : List Action}

/-- `pthread_create` does not fail in this step, and no cancelled solver ends in it that has
not decremented the counter. -/
def KeepsSolvers (s : Session) : Action → Prop
  | .worker ok => s.pc = .create .create → ok = true
  | .kill j => s.dispatched[j]?.any Dispatch.awaited = false
  | _ => True

instance (s : Session) (a : Action) : Decidable (KeepsSolvers s a) :=
  match a with
  | .worker ok => inferInstanceAs (Decidable (s.pc = .create .create → ok = true))
  | .kill j => inferInstanceAs (Decidable (s.dispatched[j]?.any Dispatch.awaited = false))
  | .wake => isTrue trivial
  | .solver _ _ => isTrue trivial

/-- While the worker is not in the critical section the counter is the number of solvers that
were created and have not decremented it, and a sleeping worker waits for a live one. -/
def JoinBalanced (s : Session) : Prop :=
  (s.owner ≠ some .worker → s.resolvers = s.dispatched.countP Dispatch.awaited) ∧
    (s.pc = .asleep → 0 < s.resolvers → ∃ (j : Nat) (d : Dispatch) (solver : Solver),
      s.dispatched[j]? = some d ∧ d.solver = some solver ∧ solver.killed = false ∧
        solver.pc.pending = true)

/-- A solver is being created for record `j`. -/
def UnderConstruction (s : Session) (j : Nat) : Prop :=
  j = s.resdataCnt ∧ ∃ pc, s.pc = .create pc ∧ pc.uncreated = true

/-- Every record has its solver, or is about to get it. -/
def AllKept (s : Session) : Prop :=
  ∀ (j : Nat) (d : Dispatch), s.dispatched[j]? = some d → d.Kept ∨ s.UnderConstruction j

/-! ### Runs that lose no solver -/

theorem kept_createEffect {pc : CreatePc} (hok : pc = .create → ok = true) (hd : d.Kept) :
    Dispatch.Kept { d with solver := createEffect pc ok d.solver } := by
  obtain ⟨solver, hsolver, hkilled⟩ := hd
  unfold createEffect
  split
  · rw [hok rfl]
    exact ⟨⟨.lookup, false, false⟩, rfl, nofun⟩
  · exact ⟨{ solver with cancelled := true }, by simp [hsolver], hkilled⟩
  · exact ⟨solver, hsolver, hkilled⟩

/-- A record whose solver is being created gets it, or is a step closer to that. -/
theorem kept_or_createNext {pc : CreatePc} (hbefore : pc.uncreated = true)
    (hok : pc = .create → ok = true) :
    Dispatch.Kept { d with solver := createEffect pc ok d.solver } ∨
      ∃ pc', createNext pc ok = .create pc' ∧ pc'.uncreated = true := by
  cases pc with
  | initLock => exact .inr ⟨.initUnlock, rfl, rfl⟩
  | initUnlock => exact .inr ⟨.lock, rfl, rfl⟩
  | lock => exact .inr ⟨.create, rfl, rfl⟩
  | create =>
    rw [hok rfl]
    exact .inl ⟨⟨.lookup, false, false⟩, rfl, nofun⟩
  | _ => cases hbefore

theorem AllKept.workerStep (h : AllKept s) (hrec : Records job s.pc.phase s)
    (hkeeps : KeepsSolvers s (.worker ok)) (hstep : WorkerStep job s ok s') : AllKept s' := by
  -- unless a solver is being created, all records have theirs
  have hkept : ∀ {pc}, s.pc = pc → (∀ pc', pc ≠ .create pc') →
      ∀ (j : Nat) (d : Dispatch), s.dispatched[j]? = some d → d.Kept := by
    intro pc hpc hne j d hd
    rcases h j d hd with hd | ⟨-, pc', hpc', -⟩
    · exact hd
    · exact absurd (hpc.symm.trans hpc') (hne pc')
  have hsame : ∀ {pc}, s.pc = pc → (∀ pc', pc ≠ .create pc') →
      ∀ (k : Nat) (e : Dispatch), s.dispatched[k]? = some e → e.Kept ∨ s'.UnderConstruction k := by
    intro pc hpc hne k e he
    exact .inl (hkept hpc hne k e he)
  cases hstep with
  | @create pc d hpc hd =>
    intro k e he
    change (s.put _ _).dispatched[k]? = some e at he
    rw [getElem?_put hd] at he
    split_ifs at he with hk
    · obtain rfl := Option.some.inj he
      have hok : pc = .create → ok = true := fun hcreate => hkeeps (hcreate ▸ hpc)
      rcases h _ d hd with hd | ⟨-, pc', hpc', hbefore⟩
      · exact .inl (kept_createEffect hok hd)
      · obtain rfl := WorkerPc.create.inj (hpc.symm.trans hpc')
        rcases kept_or_createNext hbefore hok with hnew | hnext
        · exact .inl hnew
        · exact .inr ⟨hk.symm, hnext⟩
    · rcases h k e he with hkept | ⟨hk', -⟩
      · exact .inl hkept
      · exact absurd hk'.symm hk
  | record hpc _ =>
    have hlength := hrec.length
    rw [hpc, if_neg nofun, add_zero] at hlength
    refine forall_append (hsame hpc nofun) (.inr ?_)
    exact ⟨hlength, .initLock, rfl, rfl⟩
  | move hmove =>
    have hne : ∀ pc', s.pc ≠ .create pc' := by
      intro pc' hpc'
      cases hmove <;> simp_all
    exact hsame rfl hne
  | acquireJoin hpc _ =>
    rcases hpc with hpc | hpc
    · exact hsame hpc nofun
    · exact hsame hpc nofun
  | @freeHostname d hpc hd =>
    have hd' : d.Kept := hkept hpc nofun _ _ hd
    exact forall_put hd (hsame hpc nofun) (.inl hd')
  | @freeResdata d hpc hd =>
    have hd' : d.Kept := hkept hpc nofun _ _ hd
    exact forall_put hd (hsame hpc nofun) (.inl hd')
  | reject hpc _ => exact hsame hpc nofun
  | prepare hpc _ => exact hsame hpc nofun
  | acquireDispatch hpc _ => exact hsame hpc nofun
  | unlockDispatch hpc => exact hsame hpc nofun
  | sleep hpc _ => exact hsame hpc nofun
  | join hpc _ => exact hsame hpc nofun
  | tally hpc _ => exact hsame hpc nofun
  | reply hpc => exact hsame hpc nofun

/-- A solver that is alive keeps its record kept. -/
theorem AllKept.put (h : AllKept s) (hd : s.dispatched[j]? = some d) (hnew : d'.Kept)
    (resolvers : Int) (owner : Option Party) :
    AllKept { s.put j d' with resolvers := resolvers, owner := owner } :=
  forall_put hd h (.inl hnew)

theorem AllKept.wake (h : AllKept s) (hpc : s.pc = .asleep) :
    AllKept { s with pc := .relock } := by
  intro k e he
  rcases h k e he with hkept | ⟨-, pc', hpc', -⟩
  · exact .inl hkept
  · cases hpc.symm.trans hpc'

theorem AllKept.solverStep (h : AllKept s) (hd : s.dispatched[j]? = some d)
    (hkilled : solver.killed = false) (hstep : SolverStep job s j d solver s') : AllKept s' := by
  have hnew : ∀ pc, (d.moveTo solver pc).Kept :=
    fun pc => ⟨{ solver with pc := pc }, rfl, fun h => by rw [hkilled] at h; cases h⟩
  cases hstep with
  | broadcast _ =>
    by_cases hasleep : s.pc = .asleep
    · rw [if_pos hasleep]
      exact (h.wake hasleep).put hd (hnew .unlock) _ _
    · rw [if_neg hasleep]
      exact h.put hd (hnew .unlock) _ _
  | @move pc _ => exact h.put hd (hnew pc) _ _
  | store _ =>
    have hstored : Dispatch.Kept { d.moveTo solver .lock with
        resdata := { d.resdata with
          score := solverScore d.resdata.rblitem.weight (job.answer j) } } := hnew .lock
    exact h.put hd hstored _ _
  | acquire _ _ => exact h.put hd (hnew .decrement) _ _
  | decrement _ => exact h.put hd (hnew .broadcast) _ _
  | release _ => exact h.put hd (hnew (.stats .test)) _ _

theorem AllKept.step (h : AllKept s) (hinv : Inv job s) (hkeeps : KeepsSolvers s a)
    (hstep : s.step job a = some s') : AllKept s' := by
  cases a with
  | worker ok => exact h.workerStep hinv.records hkeeps (workerStep_cases hstep)
  | wake =>
    obtain ⟨hpc, rfl⟩ := wakeStep_cases hstep
    exact h.wake hpc
  | solver j ok =>
    obtain ⟨d, solver, hd, -, hkilled, hcases⟩ := solverStep_cases hstep
    exact h.solverStep hd hkilled hcases
  | kill j =>
    obtain ⟨d, solver, hd, hsolver, -, -, -, rfl⟩ := killStep_cases hstep
    have hdead : Dispatch.Kept { d with solver := some { solver with killed := true } } :=
      ⟨{ solver with killed := true }, rfl, fun _ => by
        simpa [KeepsSolvers, hd, Dispatch.awaited, hsolver] using hkeeps⟩
    exact h.put hd hdead _ _

/-- Where every record is kept the counter is balanced. -/
theorem AllKept.joinBalanced (h : AllKept s) (hinv : Inv job s) : JoinBalanced s := by
  constructor
  -- outside of the critical section every pending record is awaited
  · intro howner
    have hsame : s.dispatched.countP Dispatch.pending = s.dispatched.countP Dispatch.awaited := by
      apply List.countP_congr
      intro d hd
      obtain ⟨j, hd⟩ := List.getElem?_of_mem hd
      rcases h j d hd with ⟨solver, hsolver, -⟩ | ⟨-, pc, hpc, -⟩
      · simp [Dispatch.pending, Dispatch.awaited, hsolver]
      · -- a worker that creates a solver is in the critical section
        have hin : s.Holds .worker := by simp [Holds, hpc, WorkerPc.holds]
        exact absurd ((hinv.locking.guarded .worker).mpr hin) howner
    rw [hinv.records.resolvers, hsame]
  -- a worker that sleeps has a pending record, and this one a solver that is alive
  · intro hasleep hres
    have hcount : 0 < s.dispatched.countP Dispatch.pending := by
      have hresolvers := hinv.records.resolvers
      omega
    obtain ⟨d, hmem, hpending⟩ := List.countP_pos_iff.mp hcount
    obtain ⟨j, hd⟩ := List.getElem?_of_mem hmem
    rcases h j d hd with ⟨solver, hsolver, hkilled⟩ | ⟨-, pc, hpc, -⟩
    · rw [pending_eq hsolver] at hpending
      refine ⟨j, d, solver, hd, hsolver, ?_, hpending⟩
      by_contra hdead
      rw [hkilled (by simpa using hdead)] at hpending
      cases hpending
    -- a worker that creates a solver does not sleep
    · cases hasleep.symm.trans hpc

/-- In every run that loses no solver the counter is balanced in every state reached. -/
theorem joinBalanced_of_keepsSolvers (job : Job)
    (hrun : Run (Session.step job) KeepsSolvers init w t) : JoinBalanced t := by
  have hboth : AllKept t ∧ Inv job t := by
    refine hrun.invariant (P := fun s => AllKept s ∧ Inv job s) ⟨nofun, inv_init⟩ ?_
    rintro s a s' ⟨hkept, hinv⟩ hkeeps hstep
    exact ⟨hkept.step hinv hkeeps hstep, hinv.step hstep⟩
  exact hboth.1.joinBalanced hboth.2

/-! ### What follows a lost solver -/

/-- Record `j` has no solver that will decrement the counter, and will not get one. -/
def Lost (s : Session) (j : Nat) : Prop :=
  ∃ d, s.dispatched[j]? = some d ∧ ¬ d.Kept ∧ ¬ s.UnderConstruction j

theorem not_kept_of_none (h : d.solver = none) : ¬ d.Kept := by
  rintro ⟨solver, hsolver, -⟩
  rw [h] at hsolver
  cases hsolver

theorem not_kept_of_killed (h : d.solver = some solver) (hkilled : solver.killed = true)
    (hpending : solver.pc.pending = true) : ¬ d.Kept := by
  rintro ⟨solver', hsolver, hkept⟩
  obtain rfl := Option.some.inj (h.symm.trans hsolver)
  rw [hkept hkilled] at hpending
  cases hpending

/-- The solver of a lost record takes no more steps. -/
theorem killed_of_not_kept (hd : ¬ d.Kept) (hsolver : d.solver = some solver) :
    solver.killed = true ∧ solver.pc.pending = true := by
  by_contra h
  refine hd ⟨solver, hsolver, fun hkilled => ?_⟩
  by_contra hpending
  exact h ⟨hkilled, by simpa using hpending⟩

theorem not_kept_createEffect {pc : CreatePc} (hbefore : pc.uncreated = false) (hd : ¬ d.Kept) :
    ¬ Dispatch.Kept { d with solver := createEffect pc ok d.solver } := by
  rintro ⟨solver, hsolver, hkilled⟩
  cases pc with
  | cancel =>
    obtain ⟨before, hbefore', rfl⟩ := Option.map_eq_some_iff.mp hsolver
    exact hd ⟨before, hbefore', hkilled⟩
  | register => exact hd ⟨solver, hsolver, hkilled⟩
  | statsLock => exact hd ⟨solver, hsolver, hkilled⟩
  | statsUnlock => exact hd ⟨solver, hsolver, hkilled⟩
  | unlock => exact hd ⟨solver, hsolver, hkilled⟩
  | _ => cases hbefore

/-- A step that does not keep the solvers loses one. -/
theorem exists_lost_of_not_keepsSolvers (hinv : Inv job s) (hlost : ¬ KeepsSolvers s a)
    (hstep : s.step job a = some s') : ∃ j, Lost s' j := by
  cases a with
  -- the creation of a solver fails: its record stays without one
  | worker ok =>
    have hfails : s.pc = .create .create ∧ ok = false := by simpa [KeepsSolvers] using hlost
    obtain ⟨hpc, rfl⟩ := hfails
    cases workerStep_cases hstep with
    | @create pc d hpc' hd =>
      obtain rfl := WorkerPc.create.inj (hpc.symm.trans hpc')
      refine ⟨s.resdataCnt, _, (getElem?_put hd _).trans (if_pos rfl), not_kept_of_none rfl, ?_⟩
      rintro ⟨-, pc', hpc'', hbefore⟩
      obtain rfl : CreatePc.unlock = pc' := WorkerPc.create.inj hpc''
      cases hbefore
    | move hmove => cases hmove <;> simp_all
    | acquireJoin hpc' _ => rcases hpc' with hpc' | hpc' <;> cases hpc.symm.trans hpc'
    | unlockDispatch hpc' => cases hpc.symm.trans hpc'
    | reply hpc' => cases hpc.symm.trans hpc'
    | _ =>
      rename_i hpc' _
      cases hpc.symm.trans hpc'
  -- a solver ends in front of its decrement
  | kill j =>
    obtain ⟨d, solver, hd, hsolver, -, -, -, rfl⟩ := killStep_cases hstep
    have hpending : solver.pc.pending = true := by
      simpa [KeepsSolvers, hd, Dispatch.awaited, hsolver] using hlost
    refine ⟨j, _, (getElem?_put hd _).trans (if_pos rfl), not_kept_of_killed rfl rfl hpending, ?_⟩
    rintro ⟨hj, pc, hpc, hbefore⟩
    have hj' : j = s.resdataCnt := hj
    rw [hinv.fresh pc hpc hbefore d (hj' ▸ hd)] at hsolver
    cases hsolver
  | wake => exact absurd trivial hlost
  | solver j ok => exact absurd trivial hlost

/-- A lost record stays lost where it keeps a lost record in its place. -/
theorem Lost.of_getElem? (h : Lost s j)
    (hlist : ∀ d, s.dispatched[j]? = some d → ¬ d.Kept →
      ∃ d', s'.dispatched[j]? = some d' ∧ ¬ d'.Kept)
    (hunder : s'.UnderConstruction j → s.UnderConstruction j) : Lost s' j := by
  obtain ⟨d, hd, hkept, hunder'⟩ := h
  obtain ⟨d', hd', hkept'⟩ := hlist d hd hkept
  exact ⟨d', hd', hkept', fun h => hunder' (hunder h)⟩

theorem exists_not_kept_put {k : Nat} {e e' : Dispatch} (he : s.dispatched[k]? = some e)
    (hsame : k = j → ¬ e.Kept → ¬ e'.Kept) (d : Dispatch) (hd : s.dispatched[j]? = some d)
    (hkept : ¬ d.Kept) : ∃ d', (s.put k e').dispatched[j]? = some d' ∧ ¬ d'.Kept := by
  rw [getElem?_put he]
  split_ifs with hk
  · subst hk
    obtain rfl := Option.some.inj (hd.symm.trans he)
    exact ⟨e', rfl, hsame rfl hkept⟩
  · exact ⟨d, hd, hkept⟩

theorem Lost.workerStep (h : Lost s j) (hrec : Records job s.pc.phase s)
    (hstep : WorkerStep job s ok s') : Lost s' j := by
  have hlost := h
  obtain ⟨d, hd, hkept, hunder⟩ := h
  have hlt : j < s.dispatched.length := (List.getElem?_eq_some_iff.mp hd).1
  cases hstep with
  -- the worker is not about to create the solver of the lost record any more
  | @create pc e hpc he =>
    refine hlost.of_getElem? (exists_not_kept_put he ?_) ?_
    · intro hj hkept
      refine not_kept_createEffect ?_ hkept
      by_contra hbefore
      exact hunder ⟨hj.symm, pc, hpc, by simpa using hbefore⟩
    · rintro ⟨hj, pc', hnext, hbefore⟩
      exact ⟨hj, pc, hpc, (uncreated_of_createNext hnext hbefore).2⟩
  | record hpc _ =>
    refine hlost.of_getElem? (fun d hd hkept => ⟨d, ?_, hkept⟩) ?_
    · exact (List.getElem?_append_left hlt).trans hd
    · -- the new record comes behind the lost one
      rintro ⟨hj, -⟩
      have hlength := hrec.length
      rw [hpc, if_neg nofun, add_zero] at hlength
      exact absurd (hlength.trans hj.symm) (Nat.ne_of_gt hlt)
  | move hmove =>
    refine hlost.of_getElem? (fun d hd hkept => ⟨d, hd, hkept⟩) ?_
    rintro ⟨-, pc', hpc', -⟩
    obtain rfl : _ = WorkerPc.create pc' := hpc'
    cases hmove
  | freeHostname _ he =>
    exact hlost.of_getElem? (exists_not_kept_put he fun _ h => h) nofun
  | freeResdata _ he =>
    exact hlost.of_getElem? (exists_not_kept_put he fun _ h => h) nofun
  | _ => exact hlost.of_getElem? (fun d hd hkept => ⟨d, hd, hkept⟩) nofun

theorem Lost.step (h : Lost s j) (hinv : Inv job s) (hstep : s.step job a = some s') :
    Lost s' j := by
  cases a with
  | worker ok => exact h.workerStep hinv.records (workerStep_cases hstep)
  | wake =>
    obtain ⟨-, rfl⟩ := wakeStep_cases hstep
    exact h.of_getElem? (fun d hd hkept => ⟨d, hd, hkept⟩) nofun
  | solver k ok =>
    obtain ⟨e, solver, he, hsolver, hkilled, hcases⟩ := solverStep_cases hstep
    -- a lost record has no solver that could take this step
    have hput : ∀ e' d, s.dispatched[j]? = some d → ¬ d.Kept →
        ∃ d', (s.put k e').dispatched[j]? = some d' ∧ ¬ d'.Kept := by
      intro e'
      refine exists_not_kept_put he fun _ hkept => ?_
      rw [(killed_of_not_kept hkept hsolver).1] at hkilled
      cases hkilled
    cases hcases with
    | broadcast _ =>
      refine h.of_getElem? (hput _) ?_
      rintro ⟨hj, pc, hpc, hbefore⟩
      by_cases hasleep : s.pc = .asleep
      · simp [hasleep] at hpc
      · exact ⟨hj, pc, by simpa [hasleep] using hpc, hbefore⟩
    | _ => exact h.of_getElem? (hput _) id
  | kill k =>
    obtain ⟨e, solver, he, hsolver, -, hkilled, -, rfl⟩ := killStep_cases hstep
    refine h.of_getElem? (exists_not_kept_put he fun _ hkept => ?_) id
    rw [(killed_of_not_kept hkept hsolver).1] at hkilled
    cases hkilled

/-- A lost record counts for good. -/
theorem Lost.resolvers_pos (h : Lost s j) (hinv : Inv job s) : 0 < s.resolvers := by
  obtain ⟨d, hd, hkept, -⟩ := h
  have hpending : d.pending = true := by
    cases hsolver : d.solver with
    | none => simp [Dispatch.pending, hsolver]
    | some solver =>
      rw [pending_eq hsolver]
      exact (killed_of_not_kept hkept hsolver).2
  have hcount : 0 < s.dispatched.countP Dispatch.pending :=
    List.countP_pos_iff.mpr ⟨d, List.mem_of_getElem? hd, hpending⟩
  rw [hinv.records.resolvers]
  exact_mod_cast hcount

/-- Behind a step that loses a solver the worker never gets to its reply, and the counter
never gets back to zero. -/
theorem lost_blocks (job : Job) (hrun : Run (Session.step job) (fun _ _ => True) init w s)
    (hlost : ¬ KeepsSolvers s a) (hstep : s.step job a = some s')
    (hrest : Run (Session.step job) (fun _ _ => True) s' v t) :
    0 < t.resolvers ∧ t.pc.phase ≠ .tallying ∧ t.pc.phase ≠ .replying := by
  have hinv : Inv job s := .run hrun
  obtain ⟨j, hj⟩ := exists_lost_of_not_keepsSolvers hinv hlost hstep
  have hboth : Lost t j ∧ Inv job t := by
    refine hrest.invariant (P := fun s => Lost s j ∧ Inv job s) ⟨hj, hinv.step hstep⟩ ?_
    rintro s a s' ⟨hlost, hinv⟩ - hstep
    exact ⟨hlost.step hinv hstep, hinv.step hstep⟩
  obtain ⟨hlost, hinv⟩ := hboth
  -- the tally starts with the counter at zero only
  have hpos := hlost.resolvers_pos hinv
  refine ⟨hpos, fun hphase => ?_, fun hphase => ?_⟩
  · have hzero := (hinv.tallied.tallying hphase).1
    omega
  · cases herr : t.err with
    | true =>
      obtain ⟨d, hd, -, -⟩ := hlost
      rw [(hinv.records.rejected herr).2] at hd
      cases hd
    | false =>
      have hzero := (hinv.tallied.replying hphase herr).1
      omega

/-- The sample run loses no solver, and is balanced where the worker sleeps first. -/
theorem joinBalanced_of_keepsSolvers_sampleRun :
    ∃ t, Run (Session.step sampleJob) KeepsSolvers init (sampleRun.take 28) t ∧
      t.pc = .asleep ∧ t.resolvers = 2 ∧ JoinBalanced t := by
  have hexec : (exec (Session.step sampleJob) KeepsSolvers init (sampleRun.take 28)).any
      (fun t => t.pc = .asleep ∧ t.resolvers = 2) = true := by decide +kernel
  obtain ⟨t, hrun, hasleep, hres⟩ := exists_run_of_exec hexec
  exact ⟨t, hrun, hasleep, hres, joinBalanced_of_keepsSolvers sampleJob hrun⟩

/-- The actions of a worker for which no solver can be created. -/
def failedRun : List Action :=
  List.replicate 7 (.worker true) ++ .worker false :: List.replicate 8 (.worker true) ++
    .worker false :: List.replicate 5 (.worker true)

/-- After two failed creations the worker sleeps with the counter at two and no solver. -/
theorem sleeps_without_solver :
    ∃ t, Run (Session.step sampleJob) (fun _ _ => True) init failedRun t ∧
      t.pc = .asleep ∧ t.resolvers = 2 ∧ t.owner = none ∧
      t.dispatched.map Dispatch.solver = [none, none] ∧ ¬ JoinBalanced t := by
  have hexec : (exec (Session.step sampleJob) (fun _ _ => True) init failedRun).any
      (fun t => t.pc = .asleep ∧ t.resolvers = 2 ∧ t.owner = none ∧
        t.dispatched.map Dispatch.solver = [none, none] ∧
        t.dispatched.countP Dispatch.awaited = 0) = true := by decide +kernel
  obtain ⟨t, hrun, hasleep, hres, howner, hsolvers, hcount⟩ := exists_run_of_exec hexec
  refine ⟨t, hrun, hasleep, hres, howner, hsolvers, fun hbalanced => ?_⟩
  have hequal := hbalanced.1 (by rw [howner]; nofun)
  rw [hres, hcount] at hequal
  cases hequal

/-- The first of the two is enough. -/
theorem lost_blocks_failedRun :
    ∃ s s' t, Run (Session.step sampleJob) (fun _ _ => True) init (failedRun.take 7) s ∧
      s.step sampleJob (.worker false) = some s' ∧
      Run (Session.step sampleJob) (fun _ _ => True) s' (failedRun.drop 8) t ∧ t.pc = .asleep ∧
      0 < t.resolvers ∧ t.pc.phase ≠ .tallying ∧ t.pc.phase ≠ .replying := by
  have hexec : (exec (Session.step sampleJob) (fun _ _ => True) init (failedRun.take 7)).any
      (fun s => ¬ KeepsSolvers s (.worker false) ∧
        (s.step sampleJob (.worker false)).any (fun s' =>
          (exec (Session.step sampleJob) (fun _ _ => True) s' (failedRun.drop 8)).any
            fun t => t.pc = .asleep) = true) = true := by decide +kernel
  obtain ⟨s, hrun, hlost, hlater⟩ := exists_run_of_exec hexec
  obtain ⟨s', hstep, hrest⟩ := (Option.any_eq_true _ _).mp hlater
  obtain ⟨t, hrest, hasleep⟩ := exists_run_of_exec hrest
  exact ⟨s, s', t, hrun, hstep, hrest, hasleep, lost_blocks sampleJob hrun hlost hstep hrest⟩

end Session

end Rblpolicyd
