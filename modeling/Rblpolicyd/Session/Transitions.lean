import Rblpolicyd.Session.Step

/-!
# What a step can do

The steps of a session, sorted by what they change. Most of them only move a thread
to its next point; the others take or give back `resolvers_`, add or change a
record, count, or write the reply. Every invariant of a session is proved by cases
on these relations, without looking at the step functions again.

## Main definitions

* `Session.Moves`, `Session.WorkerStep` — the steps of the worker
* `SolverPc.Moves`, `Session.SolverStep` — the steps of a solver

## Main results

* `Session.workerStep_cases`, `Session.solverStep_cases`, `Session.killStep_cases`
-/

namespace Rblpolicyd

open Libc

/-- The steps of a solver that change nothing but its point. -/
inductive SolverPc.Moves : SolverPc → SolverPc → Prop
  | lookup : Moves .lookup .store
  | stats {ok : Bool} {pc pc' : StatsPc} (hnext : pc.next ok = some pc') :
      Moves (.stats pc) (.stats pc')
  | leave {ok : Bool} {pc : StatsPc} (hnext : pc.next ok = none) :
      Moves (.stats pc) (.unregister .lock)
  | unregister {pc pc' : UnregisterPc} (hnext : pc.next = some pc') :
      Moves (.unregister pc) (.unregister pc')
  | returned {pc : UnregisterPc} (hnext : pc.next = none) : Moves (.unregister pc) .returned

namespace Session

/-- The steps of the worker that change nothing but its point. -/
inductive Moves (s : Session) : WorkerPc → Prop
  | lockDispatch (hpc : s.pc = .dispatch) (hrbl : s.rbl ≠ []) : Moves s .lockDispatch
  | lockJoin (hpc : s.pc = .dispatch) (hdone : ¬ (s.rbl ≠ [] ∧ s.tally.score < 100)) :
      Moves s .lockJoin
  | tallyLock (hpc : s.pc = .tallyTest) (hi : s.i < s.resdataCnt) : Moves s .tallyLock
  | tallyUpdate (hpc : s.pc = .tallyLock) : Moves s .tallyUpdate
  | freeHostname (hpc : s.pc = .tallyUnlock) : Moves s .freeHostname
  | reply (hpc : s.pc = .tallyTest) (hi : ¬ s.i < s.resdataCnt) : Moves s .reply
  | statsTest (hpc : s.pc = .cleanup) : Moves s (.stats .test)
  | stats {ok : Bool} {pc pc' : StatsPc} (hpc : s.pc = .stats pc) (hnext : pc.next ok = some pc') :
      Moves s (.stats pc')
  | returned {ok : Bool} {pc : StatsPc} (hpc : s.pc = .stats pc) (hnext : pc.next ok = none) :
      Moves s .returned

/-- The record of the blacklist `rbl`, as the worker fills it. -/
def newDispatch (s : Session) (rbl : Cfgitem) : Dispatch :=
  ⟨⟨rbl, lookupName s.rdn rbl.rbldomain, 0, false, false⟩, none⟩

/-- The steps of the worker. -/
inductive WorkerStep (job : Job) (s : Session) : Bool → Session → Prop
  | move {ok : Bool} {pc : WorkerPc} (h : s.Moves pc) : WorkerStep job s ok { s with pc := pc }
  | reject {ok : Bool} (hpc : s.pc = .start) (hnone : prepareClient job.request = none) :
      WorkerStep job s ok { s with err := true, pc := .reply }
  | prepare {ok : Bool} {client rdn : Bytes} (hpc : s.pc = .start)
      (hsome : prepareClient job.request = some (client, rdn)) :
      WorkerStep job s ok
        { s with client := client, rdn := rdn, rbl := job.rblist, pc := .dispatch }
  | acquireDispatch {ok : Bool} (hpc : s.pc = .lockDispatch) (hfree : s.owner = none) :
      WorkerStep job s ok { s with owner := some .worker, pc := .record }
  | record {ok : Bool} {rbl : Cfgitem} {rest : List Cfgitem} (hpc : s.pc = .record)
      (hrbl : s.rbl = rbl :: rest) :
      WorkerStep job s ok
        { s with
          dispatched := s.dispatched ++ [s.newDispatch rbl]
          resolvers := s.resolvers + 1
          pc := .create .initLock }
  | create {ok : Bool} {pc : CreatePc} {d : Dispatch} (hpc : s.pc = .create pc)
      (hd : s.dispatched[s.resdataCnt]? = some d) :
      WorkerStep job s ok
        { s.put s.resdataCnt { d with solver := createEffect pc ok d.solver } with
          pc := createNext pc ok }
  | unlockDispatch {ok : Bool} (hpc : s.pc = .unlockDispatch) :
      WorkerStep job s ok
        { s with
          owner := none, resdataCnt := s.resdataCnt + 1, rbl := s.rbl.tail, pc := .dispatch }
  | acquireJoin {ok : Bool} (hpc : s.pc = .lockJoin ∨ s.pc = .relock) (hfree : s.owner = none) :
      WorkerStep job s ok { s with owner := some .worker, pc := .testJoin }
  | sleep {ok : Bool} (hpc : s.pc = .testJoin) (hres : s.resolvers ≠ 0) :
      WorkerStep job s ok { s with owner := none, pc := .asleep }
  | join {ok : Bool} (hpc : s.pc = .testJoin) (hres : s.resolvers = 0) :
      WorkerStep job s ok
        { s with tally := { s.tally with score := 0 }, i := 0, pc := .tallyTest }
  | tally {ok : Bool} {d : Dispatch} (hpc : s.pc = .tallyUpdate)
      (hd : s.dispatched[s.i]? = some d) :
      WorkerStep job s ok
        { s with
          tally := tallyItem s.tally d.resdata.rblitem.rbldomain d.resdata.score
          pc := .tallyUnlock }
  | freeHostname {ok : Bool} {d : Dispatch} (hpc : s.pc = .freeHostname)
      (hd : s.dispatched[s.i]? = some d) :
      WorkerStep job s ok
        { s.put s.i { d with resdata := { d.resdata with hostnameFreed := true } } with
          pc := .freeResdata }
  | freeResdata {ok : Bool} {d : Dispatch} (hpc : s.pc = .freeResdata)
      (hd : s.dispatched[s.i]? = some d) :
      WorkerStep job s ok
        { s.put s.i { d with resdata := { d.resdata with freed := true } } with
          i := s.i + 1, pc := .tallyTest }
  | reply {ok : Bool} (hpc : s.pc = .reply) :
      WorkerStep job s ok { s with written := replyWrites s.err s.tally, pc := .cleanup }

/-- The steps of the solver of the record `d` with number `j`. -/
inductive SolverStep (job : Job) (s : Session) (j : Nat) (d : Dispatch) (solver : Solver) :
    Session → Prop
  | move {pc : SolverPc} (h : solver.pc.Moves pc) :
      SolverStep job s j d solver (s.put j (d.moveTo solver pc))
  | store (hpc : solver.pc = .store) :
      SolverStep job s j d solver
        (s.put j
          { d.moveTo solver .lock with
            resdata :=
              { d.resdata with
                score := solverScore d.resdata.rblitem.weight (job.answer j) } })
  | acquire (hpc : solver.pc = .lock) (hfree : s.owner = none) :
      SolverStep job s j d solver
        { s.put j (d.moveTo solver .decrement) with owner := some (.solver j) }
  | decrement (hpc : solver.pc = .decrement) :
      SolverStep job s j d solver
        { s.put j (d.moveTo solver .broadcast) with resolvers := s.resolvers - 1 }
  | broadcast (hpc : solver.pc = .broadcast) :
      SolverStep job s j d solver
        { s.put j (d.moveTo solver .unlock) with
          pc := if s.pc = .asleep then .relock else s.pc }
  | release (hpc : solver.pc = .unlock) :
      SolverStep job s j d solver
        { s.put j (d.moveTo solver (.stats .test)) with owner := none }

variable {job : Job} {s s' : Session} {ok : Bool} {j : Nat}

theorem workerStep_cases (h : s.workerStep job ok = some s') : WorkerStep job s ok s' := by
  unfold workerStep at h
  split at h
  -- the preparation of the request
  case h_1 hpc =>
    split at h
    · obtain rfl := Option.some.inj h
      exact .reject hpc ‹_›
    · obtain rfl := Option.some.inj h
      exact .prepare hpc ‹_›
  -- the head of the dispatch loop
  case h_2 hpc =>
    obtain rfl := Option.some.inj h
    split_ifs with hmore
    · exact .move (.lockDispatch hpc hmore.1)
    · exact .move (.lockJoin hpc hmore)
  -- the lock in front of a record
  case h_3 hpc =>
    obtain ⟨hfree, ⟨⟩⟩ := Option.ite_none_right_eq_some.mp h
    exact .acquireDispatch hpc hfree
  -- the record
  case h_4 hpc =>
    split at h
    · cases h
    · obtain rfl := Option.some.inj h
      exact .record hpc ‹_›
  -- inside `rthread_create`
  case h_5 pc hpc =>
    unfold createStep at h
    split at h
    · cases h
    · obtain rfl := Option.some.inj h
      exact .create hpc ‹_›
  -- the unlock behind it
  case h_6 hpc =>
    obtain rfl := Option.some.inj h
    exact .unlockDispatch hpc
  -- the lock in front of the wait
  case h_7 hpc =>
    obtain ⟨hfree, ⟨⟩⟩ := Option.ite_none_right_eq_some.mp h
    exact .acquireJoin (.inl hpc) hfree
  -- the test of the counter
  case h_8 hpc =>
    split_ifs at h with hres
    · obtain rfl := Option.some.inj h
      exact .sleep hpc hres
    · obtain rfl := Option.some.inj h
      exact .join hpc (not_not.mp hres)
  -- the sleep, which has no step of its own
  case h_9 => cases h
  -- the lock behind it
  case h_10 hpc =>
    obtain ⟨hfree, ⟨⟩⟩ := Option.ite_none_right_eq_some.mp h
    exact .acquireJoin (.inr hpc) hfree
  -- the head of the tally loop
  case h_11 hpc =>
    obtain rfl := Option.some.inj h
    split_ifs with hi
    · exact .move (.tallyLock hpc hi)
    · exact .move (.reply hpc hi)
  -- the lock of the lists
  case h_12 hpc =>
    obtain rfl := Option.some.inj h
    exact .move (.tallyUpdate hpc)
  -- the tally of a record
  case h_13 hpc =>
    split at h
    · cases h
    · obtain rfl := Option.some.inj h
      exact .tally hpc ‹_›
  -- the unlock of the lists
  case h_14 hpc =>
    obtain rfl := Option.some.inj h
    exact .move (.freeHostname hpc)
  -- the two frees
  case h_15 hpc =>
    split at h
    · cases h
    · obtain rfl := Option.some.inj h
      exact .freeHostname hpc ‹_›
  case h_16 hpc =>
    split at h
    · cases h
    · obtain rfl := Option.some.inj h
      exact .freeResdata hpc ‹_›
  -- the reply
  case h_17 hpc =>
    obtain rfl := Option.some.inj h
    exact .reply hpc
  -- the cleanup
  case h_18 hpc =>
    obtain rfl := Option.some.inj h
    exact .move (.statsTest hpc)
  -- inside the statistics
  case h_19 pc hpc =>
    obtain rfl := Option.some.inj h
    split
    · exact .move (.stats hpc ‹_›)
    · exact .move (.returned hpc ‹_›)
  -- the end
  case h_20 => cases h

theorem solverPcStep_cases {d : Dispatch} {solver : Solver}
    (h : s.solverPcStep job j d solver ok = some s') : SolverStep job s j d solver s' := by
  unfold solverPcStep at h
  split at h
  -- the lookup, which may take any time
  case h_1 hpc =>
    obtain rfl := Option.some.inj h
    exact .move (hpc ▸ .lookup)
  -- the store of the score
  case h_2 hpc =>
    obtain rfl := Option.some.inj h
    exact .store hpc
  -- the critical section, point by point
  case h_3 hpc =>
    obtain ⟨hfree, ⟨⟩⟩ := Option.ite_none_right_eq_some.mp h
    exact .acquire hpc hfree
  case h_4 hpc =>
    obtain rfl := Option.some.inj h
    exact .decrement hpc
  case h_5 hpc =>
    obtain rfl := Option.some.inj h
    exact .broadcast hpc
  case h_6 hpc =>
    obtain rfl := Option.some.inj h
    exact .release hpc
  -- the statistics
  case h_7 pc hpc =>
    obtain rfl := Option.some.inj h
    split
    · exact .move (hpc ▸ .stats ‹_›)
    · exact .move (hpc ▸ .leave ‹_›)
  -- inside `thr_unregister`
  case h_8 pc hpc =>
    obtain rfl := Option.some.inj h
    split
    · exact .move (hpc ▸ .unregister ‹_›)
    · exact .move (hpc ▸ .returned ‹_›)
  -- the end
  case h_9 => cases h

theorem solverStep_cases (h : s.solverStep job j ok = some s') :
    ∃ d solver, s.dispatched[j]? = some d ∧ d.solver = some solver ∧ solver.killed = false ∧
      SolverStep job s j d solver s' := by
  unfold solverStep at h
  split at h
  · cases h
  · rename_i d hd
    split at h
    · cases h
    · rename_i solver hsolver
      split_ifs at h with hkilled
      exact ⟨d, solver, hd, hsolver, by simpa using hkilled, solverPcStep_cases h⟩

theorem killStep_cases (h : s.killStep j = some s') :
    ∃ d solver, s.dispatched[j]? = some d ∧ d.solver = some solver ∧ solver.cancelled = true ∧
      solver.killed = false ∧ solver.pc.cancellationPoint = true ∧
      s' = s.put j { d with solver := some { solver with killed := true } } := by
  unfold killStep at h
  split at h
  · cases h
  · rename_i d hd
    split at h
    · cases h
    · rename_i solver hsolver
      obtain ⟨⟨hcancelled, hkilled, hpoint⟩, ⟨⟩⟩ := Option.ite_none_right_eq_some.mp h
      exact ⟨d, solver, hd, hsolver, hcancelled, by simpa using hkilled, hpoint, rfl⟩

theorem wakeStep_cases (h : s.wakeStep = some s') :
    s.pc = .asleep ∧ s' = { s with pc := .relock } := by
  obtain ⟨hpc, ⟨⟩⟩ := Option.ite_none_right_eq_some.mp h
  exact ⟨hpc, rfl⟩

end Session

end Rblpolicyd
