import Rblpolicyd.Semantics.Run
import Rblpolicyd.Session.Records

/-!
# The tally of a session

The worker leaves its wait only when the counter is zero, so that every record it
tallies holds its final score. What it has tallied is therefore a function of the
list and the answers, whatever the order in which the solvers finished.

## Main definitions

* `finalScores` — the domains of a job with their final scores
* `Session.Tallied` — the tally at each point of the worker
* `Session.Inv` — all invariants of a session

## Main results

* `Session.Inv.step`, `Session.Inv.run` — every step, and every run, preserves them
* `Session.tally_of_replying` — the tally behind the loop
-/

namespace Rblpolicyd

open Libc Semantics

/-- The domains of a job, each with the score its solver will find. -/
def finalScores (job : Job) : List (Bytes × Int) :=
  job.rblist.mapIdx fun j item => (item.rbldomain, solverScore item.weight (job.answer j))

namespace Session

variable {job : Job} {s s' : Session} {ok : Bool} {j : Nat} {d d' : Dispatch} {solver : Solver}

/-- The number of records in the tally. -/
def tallyCount (s : Session) : Nat :=
  match s.pc with
  | .tallyUnlock | .freeHostname | .freeResdata => s.i + 1
  | _ => s.i

/-- What `write` was called with. -/
def expectedWrites (s : Session) : List (Option Bytes) :=
  match s.pc with
  | .cleanup | .stats _ | .returned => replyWrites s.err s.tally
  | _ => []

/-- The tally at each point of the worker. -/
structure Tallied (job : Job) (s : Session) : Prop where
  rejected : s.err = true → s.tally = Tally.init
  untallied : s.pc.phase ≠ .tallying → s.pc.phase ≠ .replying → s.tally = Tally.init
  looped : s.pc.phase = .joining ∨ s.pc.phase = .tallying → s.rbl = []
  tallying : s.pc.phase = .tallying →
    s.resolvers = 0 ∧ s.tally = tallyAll ((finalScores job).take s.tallyCount)
  replying : s.pc.phase = .replying → s.err = false →
    s.resolvers = 0 ∧ s.rbl = [] ∧ s.tally = tallyAll (finalScores job)
  written : s.written = s.expectedWrites

theorem tallied_init : Tallied job init where
  rejected _ := rfl
  untallied _ _ := rfl
  looped h := by rcases h with h | h <;> cases h
  tallying h := by cases h
  replying h := by cases h
  written := rfl

/-! ### The final scores -/

theorem stored_of_not_pending (h : d.pending = false) : d.stored = true := by
  cases hsolver : d.solver with
  | none => simp [Dispatch.pending, hsolver] at h
  | some solver =>
    rw [pending_eq hsolver] at h
    rw [Dispatch.stored, hsolver, Option.any_some]
    -- the store comes before the decrement
    generalize solver.pc = pc at h
    cases pc <;> first | rfl | cases h

/-- With the counter at zero no record is pending. -/
theorem Records.not_pending {p : Phase} (h : Records job p s) (hzero : s.resolvers = 0)
    (hd : s.dispatched[j]? = some d) : d.pending = false := by
  have hcount : s.dispatched.countP Dispatch.pending = 0 := by
    have hres := h.resolvers
    omega
  rw [List.countP_eq_zero] at hcount
  simpa using hcount d (List.mem_of_getElem? hd)

/-- With the counter at zero a record holds the final score of its blacklist. -/
theorem Records.getElem?_finalScores {p : Phase} (h : Records job p s) (hscored : AllScored job s)
    (hzero : s.resolvers = 0) (hd : s.dispatched[j]? = some d) :
    (finalScores job)[j]? = some (d.resdata.rblitem.rbldomain, d.resdata.score) := by
  have hlt : j < s.dispatched.length := (List.getElem?_eq_some_iff.mp hd).1
  have hitem : job.rblist[j]? = some d.resdata.rblitem := by
    rw [← List.getElem?_take_of_lt hlt, ← h.items, List.getElem?_map, hd, Option.map_some]
  have hscore := hscored j d hd
  rw [Dispatch.Scored, if_pos (stored_of_not_pending (h.not_pending hzero hd))] at hscore
  rw [finalScores, List.getElem?_mapIdx, hitem, Option.map_some, hscore]

/-- Behind the dispatch loop there is a record for every blacklist. -/
theorem Records.length_eq {p : Phase} (h : Records job p s) (hp : p ≠ .start)
    (hcreating : p ≠ .creating) (herr : s.err = false) (hlooped : s.rbl = []) :
    s.dispatched.length = job.rblist.length ∧ s.resdataCnt = job.rblist.length := by
  have hlength := h.length
  rw [if_neg hcreating, add_zero] at hlength
  have hle : job.rblist.length ≤ s.resdataCnt := by
    rw [← List.drop_eq_nil_iff, ← h.rbl hp herr, hlooped]
  have hge : s.dispatched.length ≤ job.rblist.length := by
    have hitems := congrArg List.length h.items
    rw [List.length_map, List.length_take] at hitems
    omega
  omega

/-! ### The steps of the worker -/

/-- Nothing has been tallied or written. -/
theorem Tallied.of_untallied (hpc : s.pc.phase ≠ .tallying ∧ s.pc.phase ≠ .replying)
    (hlooped : s.pc.phase = .joining → s.rbl = []) (htally : s.tally = Tally.init)
    (hwritten : s.written = s.expectedWrites) : Tallied job s where
  rejected _ := htally
  untallied _ _ := htally
  looped h := h.elim hlooped fun h => absurd h hpc.1
  tallying h := absurd h hpc.1
  replying h := absurd h hpc.2
  written := hwritten

/-- The worker is in the tally loop. -/
theorem Tallied.of_tallying (hpc : s.pc.phase = .tallying) (herr : s.err = false)
    (hlooped : s.rbl = []) (hres : s.resolvers = 0)
    (htally : s.tally = tallyAll ((finalScores job).take s.tallyCount))
    (hwritten : s.written = s.expectedWrites) : Tallied job s where
  rejected herr' := by
    rw [herr] at herr'
    cases herr'
  untallied h := absurd hpc h
  looped _ := hlooped
  tallying _ := ⟨hres, htally⟩
  replying h := by
    rw [hpc] at h
    cases h
  written := hwritten

/-- The worker is behind its loops. -/
theorem Tallied.of_replying (hpc : s.pc.phase = .replying)
    (hrejected : s.err = true → s.tally = Tally.init)
    (hreplying : s.err = false →
      s.resolvers = 0 ∧ s.rbl = [] ∧ s.tally = tallyAll (finalScores job))
    (hwritten : s.written = s.expectedWrites) : Tallied job s where
  rejected := hrejected
  untallied _ h := absurd hpc h
  looped h := by rcases h with h | h <;> rw [hpc] at h <;> cases h
  tallying h := by
    rw [hpc] at h
    cases h
  replying _ := hreplying
  written := hwritten

/-- A step within one part of `worker_th`, in which nothing is tallied, written or counted. -/
theorem Tallied.frame (h : Tallied job s) (pc : WorkerPc) (owner : Option Party)
    (dispatched : List Dispatch) (i : Nat) (hphase : pc.phase = s.pc.phase)
    (hcount : tallyCount { s with pc := pc, i := i } = s.tallyCount)
    (hwrites : expectedWrites { s with pc := pc } = s.expectedWrites) :
    Tallied job { s with pc := pc, owner := owner, dispatched := dispatched, i := i } where
  rejected := h.rejected
  untallied h₁ h₂ := h.untallied (hphase ▸ h₁) (hphase ▸ h₂)
  looped hpc := h.looped (hphase ▸ hpc)
  tallying hpc := by
    obtain ⟨hres, htally⟩ := h.tallying (hphase ▸ hpc)
    rw [← hcount] at htally
    exact ⟨hres, htally⟩
  replying hpc := h.replying (hphase ▸ hpc)
  written := h.written.trans hwrites.symm

theorem Tallied.move {pc : WorkerPc} (h : Tallied job s) (hlock : Locking s)
    (hrec : Records job s.pc.phase s) (hmove : s.Moves pc) : Tallied job { s with pc := pc } := by
  have hframe := h.frame pc s.owner s.dispatched s.i
  have hwritten := h.written
  cases hmove with
  | lockJoin hpc hdone =>
    have htally := h.untallied (by simp [hpc]) (by simp [hpc])
    -- the sum is still 0, so only the end of the list stops the loop
    have hrbl : s.rbl = [] := by
      by_contra hne
      apply hdone
      exact ⟨hne, by rw [htally]; decide⟩
    simp only [expectedWrites, hpc] at hwritten
    exact .of_untallied (by simp) (fun _ => hrbl) htally hwritten
  | reply hpc hi =>
    obtain ⟨hres, htally⟩ := h.tallying (by simp [hpc])
    simp only [tallyCount, hpc] at htally
    simp only [expectedWrites, hpc] at hwritten
    have herr := hlock.err_eq_false (by simp [hpc])
    have hrbl := h.looped (.inr (by simp [hpc]))
    have hcnt := (hrec.length_eq (by simp [hpc]) (by simp [hpc]) herr hrbl).2
    -- the loop has passed the last record
    have hall : (finalScores job).take s.i = finalScores job := by
      apply List.take_of_length_le
      rw [finalScores, List.length_mapIdx]
      omega
    refine .of_replying rfl ?_ (fun _ => ⟨hres, hrbl, hall ▸ htally⟩) hwritten
    intro herr'
    rw [herr] at herr'
    cases herr'
  | _ => apply hframe <;> simp [tallyCount, expectedWrites, *]

theorem Tallied.workerStep (h : Tallied job s) (hlock : Locking s)
    (hrec : Records job s.pc.phase s) (hscored : AllScored job s)
    (hstep : WorkerStep job s ok s') : Tallied job s' := by
  have hwritten := h.written
  cases hstep with
  | move hmove => exact h.move hlock hrec hmove
  | reject hpc _ =>
    have htally := h.untallied (by simp [hpc]) (by simp [hpc])
    simp only [expectedWrites, hpc] at hwritten
    exact .of_replying rfl (fun _ => htally) (fun herr => by cases herr) hwritten
  | prepare hpc _ =>
    have htally := h.untallied (by simp [hpc]) (by simp [hpc])
    simp only [expectedWrites, hpc] at hwritten
    exact .of_untallied (by simp) (by simp) htally hwritten
  | acquireDispatch hpc _ =>
    apply h.frame <;> simp [tallyCount, expectedWrites, hpc]
  | record hpc _ =>
    have htally := h.untallied (by simp [hpc]) (by simp [hpc])
    simp only [expectedWrites, hpc] at hwritten
    exact .of_untallied (by simp) (by simp) htally hwritten
  | @create pc d hpc _ =>
    apply h.frame
    · rw [phase_createNext, hpc]
      rfl
    · unfold createNext
      cases pc.next ok <;> simp [tallyCount, hpc, put]
    · unfold createNext
      cases pc.next ok <;> simp [expectedWrites, hpc]
  | unlockDispatch hpc =>
    have htally := h.untallied (by simp [hpc]) (by simp [hpc])
    simp only [expectedWrites, hpc] at hwritten
    exact .of_untallied (by simp) (by simp) htally hwritten
  | acquireJoin hpc _ =>
    rcases hpc with hpc | hpc
    · apply h.frame <;> simp [tallyCount, expectedWrites, hpc]
    · apply h.frame <;> simp [tallyCount, expectedWrites, hpc]
  | sleep hpc _ =>
    apply h.frame <;> simp [tallyCount, expectedWrites, hpc]
  -- the counter is zero: the tally starts with the final scores
  | join hpc hres =>
    have htally := h.untallied (by simp [hpc]) (by simp [hpc])
    simp only [expectedWrites, hpc] at hwritten
    have hempty : ({ s.tally with score := 0 } : Tally) = tallyAll ((finalScores job).take 0) := by
      rw [htally]
      rfl
    have herr := hlock.err_eq_false (by simp [hpc])
    exact .of_tallying rfl herr (h.looped (.inl (by simp [hpc]))) hres hempty hwritten
  -- one more record is tallied
  | @tally d hpc hd =>
    obtain ⟨hres, htally⟩ := h.tallying (by simp [hpc])
    simp only [tallyCount, hpc] at htally
    simp only [expectedWrites, hpc] at hwritten
    have hnext : tallyItem s.tally d.resdata.rblitem.rbldomain d.resdata.score =
        tallyAll ((finalScores job).take (s.i + 1)) := by
      rw [List.take_add_one, hrec.getElem?_finalScores hscored hres hd, Option.toList_some,
        tallyAll_concat, htally]
    have herr := hlock.err_eq_false (by simp [hpc])
    exact .of_tallying rfl herr (h.looped (.inr (by simp [hpc]))) hres hnext hwritten
  | freeHostname hpc _ =>
    apply h.frame <;> simp [tallyCount, expectedWrites, hpc, put]
  | freeResdata hpc _ =>
    apply h.frame <;> simp [tallyCount, expectedWrites, hpc]
  | reply hpc => exact .of_replying rfl h.rejected (h.replying (by simp [hpc])) rfl

/-! ### The steps of a solver -/

/-- A record and the owner of the mutex do not matter to the tally. -/
theorem Tallied.put (h : Tallied job s) (d' : Dispatch) (owner : Option Party) :
    Tallied job { s.put j d' with owner := owner } :=
  h.frame s.pc owner _ s.i rfl rfl rfl

/-- A worker that sleeps, and so tallies nothing, is woken up. -/
theorem Tallied.wake (h : Tallied job s) (hpc : s.pc = .asleep) :
    Tallied job { s with pc := .relock } := by
  apply h.frame .relock s.owner s.dispatched s.i <;> simp [tallyCount, expectedWrites, hpc]

theorem Tallied.solverStep {p : Phase} (h : Tallied job s) (hrec : Records job p s)
    (hd : s.dispatched[j]? = some d) (hsolver : d.solver = some solver)
    (hstep : SolverStep job s j d solver s') : Tallied job s' := by
  cases hstep with
  | decrement hpc =>
    -- behind the wait there is no solver left to decrement
    have hstuck : s.resolvers ≠ 0 := by
      intro hzero
      have hpending := hrec.not_pending hzero hd
      rw [pending_eq hsolver, hpc] at hpending
      cases hpending
    exact ⟨h.rejected, h.untallied, h.looped, fun hphase => absurd (h.tallying hphase).1 hstuck,
      fun hphase herr => absurd (h.replying hphase herr).1 hstuck, h.written⟩
  | broadcast _ =>
    by_cases hasleep : s.pc = .asleep
    · rw [if_pos hasleep]
      exact (h.wake hasleep).put _ _
    · rw [if_neg hasleep]
      exact h.put _ _
  | _ => exact h.put _ _

/-! ### The wake-up -/

/-- A worker that sleeps with the counter at zero is about to be woken up. -/
def Wakes (s : Session) : Prop :=
  s.pc = .asleep → s.resolvers = 0 → ∃ (j : Nat) (d : Dispatch) (solver : Solver),
    s.dispatched[j]? = some d ∧ d.solver = some solver ∧ solver.killed = false ∧
      solver.pc = .broadcast

theorem Wakes.workerStep (hstep : WorkerStep job s ok s') : Wakes s' := by
  intro hpc hzero
  cases hstep with
  -- the worker only goes to sleep with the counter above zero
  | sleep _ hres => exact absurd hzero hres
  | move hmove => obtain rfl : _ = WorkerPc.asleep := hpc; cases hmove
  | create _ _ =>
    have hphase := congrArg WorkerPc.phase hpc
    cases (phase_createNext _ _).symm.trans hphase
  | reject _ _ => cases hpc
  | prepare _ _ => cases hpc
  | acquireDispatch _ _ => cases hpc
  | record _ _ => cases hpc
  | unlockDispatch _ => cases hpc
  | acquireJoin _ _ => cases hpc
  | join _ _ => cases hpc
  | tally _ _ => cases hpc
  | freeHostname _ _ => cases hpc
  | freeResdata _ _ => cases hpc
  | reply _ => cases hpc

/-- The solver that is about to broadcast is not the one that takes another step. -/
theorem Wakes.put (h : Wakes s) (hd : s.dispatched[j]? = some d) (hsolver : d.solver = some solver)
    (hpc : solver.pc ≠ .broadcast) (d' : Dispatch) : Wakes (s.put j d') := by
  intro hasleep hzero
  obtain ⟨k, e, waker, he, hwaker, hkilled, hbroadcast⟩ := h hasleep hzero
  have hjk : j ≠ k := by
    rintro rfl
    obtain rfl := Option.some.inj (hd.symm.trans he)
    obtain rfl := Option.some.inj (hsolver.symm.trans hwaker)
    exact hpc hbroadcast
  refine ⟨k, e, waker, ?_, hwaker, hkilled, hbroadcast⟩
  rw [getElem?_put hd, if_neg hjk]
  exact he

theorem Wakes.solverStep (h : Wakes s) (hd : s.dispatched[j]? = some d)
    (hsolver : d.solver = some solver) (hkilled : solver.killed = false)
    (hstep : SolverStep job s j d solver s') : Wakes s' := by
  cases hstep with
  | move hmove =>
    refine h.put hd hsolver ?_ _
    generalize solver.pc = pc at hmove
    cases hmove <;> simp
  | store hpc => exact h.put hd hsolver (by simp [hpc]) _
  | acquire hpc _ => exact h.put hd hsolver (by simp [hpc]) (d.moveTo solver .decrement)
  -- whoever brings the counter to zero is the one to broadcast
  | decrement _ =>
    intro _ _
    refine ⟨j, d.moveTo solver .broadcast, { solver with pc := .broadcast }, ?_, rfl, hkilled, rfl⟩
    exact (getElem?_put hd j).trans (if_pos rfl)
  | broadcast _ =>
    intro hasleep
    by_cases hpc : s.pc = .asleep
    · simp [hpc] at hasleep
    · simp [hpc] at hasleep
  | release hpc => exact h.put hd hsolver (by simp [hpc]) (d.moveTo solver (.stats .test))

/-! ### All invariants -/

/-- What holds in every state of a session. -/
structure Inv (job : Job) (s : Session) : Prop where
  locking : Locking s
  records : Records job s.pc.phase s
  fresh : Fresh s
  scored : AllScored job s
  tallied : Tallied job s
  wakes : Wakes s

theorem inv_init : Inv job init where
  locking := locking_init
  records := records_init
  fresh := fresh_init
  scored _ _ h := by cases h
  tallied := tallied_init
  wakes h := by cases h

/-- A cancelled solver that ends keeps its point, and thus all that depends on it. -/
theorem Inv.kill (h : Inv job s) (hd : s.dispatched[j]? = some d)
    (hsolver : d.solver = some solver) (hpoint : solver.pc.cancellationPoint = true)
    (hlocking : Locking (s.put j { d with solver := some { solver with killed := true } })) :
    Inv job (s.put j { d with solver := some { solver with killed := true } }) where
  locking := hlocking
  records := h.records.put_of_pending hd rfl (by simp [Dispatch.pending, hsolver])
  fresh := h.fresh.put hd hsolver _
  scored := forall_put hd h.scored
    (scored_of_stored (h.scored j d hd) rfl rfl (by simp [Dispatch.stored, hsolver]))
  tallied := h.tallied.put _ _
  wakes := h.wakes.put hd hsolver (by intro hpc; rw [hpc] at hpoint; cases hpoint) _

theorem Inv.step {a : Action} (h : Inv job s) (hstep : s.step job a = some s') : Inv job s' := by
  have hlocking := h.locking.step hstep
  cases a with
  | worker ok =>
    have hcases := workerStep_cases hstep
    exact ⟨hlocking, h.records.workerStep h.locking h.fresh hcases,
      h.fresh.workerStep h.records hcases, h.scored.workerStep h.fresh hcases,
      h.tallied.workerStep h.locking h.records h.scored hcases, .workerStep hcases⟩
  | wake =>
    obtain ⟨hpc, rfl⟩ := wakeStep_cases hstep
    have hrec := h.records
    rw [hpc] at hrec
    exact ⟨hlocking, hrec.control _ _ _ _ _, nofun, h.scored, h.tallied.wake hpc, nofun⟩
  | solver j ok =>
    obtain ⟨d, solver, hd, hsolver, hkilled, hcases⟩ := solverStep_cases hstep
    exact ⟨hlocking, hcases.phase ▸ h.records.solverStep hd hsolver hcases,
      h.fresh.solverStep hd hsolver hcases, h.scored.solverStep hd hsolver hcases,
      h.tallied.solverStep h.records hd hsolver hcases,
      h.wakes.solverStep hd hsolver hkilled hcases⟩
  | kill j =>
    obtain ⟨d, solver, hd, hsolver, -, -, hpoint, rfl⟩ := killStep_cases hstep
    exact h.kill hd hsolver hpoint hlocking

/-- The invariants hold in every state a session reaches. -/
theorem Inv.run {ok : Session → Action → Prop} {w : List Action} {t : Session}
    (h : Run (Session.step job) ok init w t) : Inv job t :=
  h.invariant inv_init fun _ _ _ hinv _ hstep => hinv.step hstep

end Session

end Rblpolicyd
