import Rblpolicyd.Session.Locking

/-!
# The records of a session

The worker's records are those of the blacklists it has passed, in order; the
counter is the number of records without a solver that has decremented it; and a
record holds the final score of its blacklist as soon as its solver has stored it.

## Main definitions

* `Session.Records` — the records, the counter and the worker's place in the list
* `Session.Fresh` — the record that a solver is being created for has none yet
* `Dispatch.Scored` — the score of a record

## Main results

* `Session.Records.step`, `Session.Fresh.step`, `Session.AllScored.step`
-/

namespace Rblpolicyd

open Libc

/-- The points of `rthread_create` up to the call of `pthread_create`. -/
def CreatePc.uncreated : CreatePc → Bool
  | .initLock | .initUnlock | .lock | .create => true
  | _ => false

/-- The record has a solver that has stored what it found. -/
def Dispatch.stored (d : Dispatch) : Bool := d.solver.any fun solver => solver.pc.stored

/-- The record `d` with number `j` holds the score of its blacklist, or none yet. -/
def Dispatch.Scored (job : Job) (j : Nat) (d : Dispatch) : Prop :=
  d.resdata.score =
    if d.stored then solverScore d.resdata.rblitem.weight (job.answer j) else 0

namespace Session

variable {job : Job} {s s' : Session} {ok : Bool} {j : Nat} {d d' : Dispatch} {solver : Solver}
  {p q : Phase}

/-- The records and the worker's place in the list, in a part of `worker_th`. -/
structure Records (job : Job) (p : Phase) (s : Session) : Prop where
  idle : p = .start → s.err = false ∧ s.dispatched = []
  rejected : s.err = true → prepareClient job.request = none ∧ s.dispatched = []
  prepared : p ≠ .start → s.err = false → prepareClient job.request = some (s.client, s.rdn)
  rbl : p ≠ .start → s.err = false → s.rbl = job.rblist.drop s.resdataCnt
  length : s.dispatched.length = s.resdataCnt + if p = .creating then 1 else 0
  items : s.dispatched.map (fun d => d.resdata.rblitem) = job.rblist.take s.dispatched.length
  resolvers : s.resolvers = s.dispatched.countP Dispatch.pending

/-- The record that a solver is being created for has none yet. -/
def Fresh (s : Session) : Prop :=
  ∀ pc, s.pc = .create pc → pc.uncreated = true →
    ∀ d, s.dispatched[s.resdataCnt]? = some d → d.solver = none

/-- Every record holds the score of its blacklist, or none yet. -/
def AllScored (job : Job) (s : Session) : Prop :=
  ∀ (k : Nat) (d : Dispatch), s.dispatched[k]? = some d → d.Scored job k

theorem records_init : Records job init.pc.phase init where
  idle _ := ⟨rfl, rfl⟩
  rejected h := by cases h
  prepared h := absurd rfl h
  rbl h := absurd rfl h
  length := rfl
  items := rfl
  resolvers := rfl

/-! ### Replacing a record -/

theorem map_put {β : Type} {f : Dispatch → β} (hd : s.dispatched[j]? = some d)
    (hf : f d' = f d) : (s.put j d').dispatched.map f = s.dispatched.map f := by
  apply List.ext_getElem?
  intro k
  rw [List.getElem?_map, List.getElem?_map, getElem?_put hd]
  split_ifs with hjk
  · subst hjk
    rw [hd, Option.map_some, Option.map_some, hf]
  · rfl

theorem length_put : (s.put j d').dispatched.length = s.dispatched.length := by
  simp [put]

theorem countP_put (hd : s.dispatched[j]? = some d) (d' : Dispatch) :
    (s.put j d').dispatched.countP Dispatch.pending + (if d.pending then 1 else 0) =
      s.dispatched.countP Dispatch.pending + if d'.pending then 1 else 0 := by
  obtain ⟨hlt, hget⟩ := List.getElem?_eq_some_iff.mp hd
  have hle : (if d.pending then 1 else 0) ≤ s.dispatched.countP Dispatch.pending := by
    split_ifs with hpending
    · exact List.countP_pos_iff.mpr ⟨d, hget ▸ List.getElem_mem hlt, hpending⟩
    · exact Nat.zero_le _
  rw [put, List.countP_set hlt, hget]
  omega

theorem countP_put_of_eq (hd : s.dispatched[j]? = some d) (hsame : d'.pending = d.pending) :
    (s.put j d').dispatched.countP Dispatch.pending = s.dispatched.countP Dispatch.pending := by
  have hcount := countP_put hd d'
  rw [hsame] at hcount
  omega

/-- Another state of the solver behind a record changes nothing but the counter. -/
theorem Records.put (h : Records job p s) (hd : s.dispatched[j]? = some d) (d' : Dispatch)
    (hitem : d'.resdata.rblitem = d.resdata.rblitem) {resolvers : Int}
    (hres : resolvers = (s.put j d').dispatched.countP Dispatch.pending) :
    Records job p { s.put j d' with resolvers := resolvers } where
  idle hp := by
    rw [(h.idle hp).2] at hd
    cases hd
  rejected herr := by
    rw [(h.rejected herr).2] at hd
    cases hd
  prepared := h.prepared
  rbl := h.rbl
  length := length_put.trans h.length
  items := by
    change (s.put j d').dispatched.map _ = job.rblist.take (s.put j d').dispatched.length
    rw [map_put (f := fun d => d.resdata.rblitem) hd hitem, length_put, h.items]
  resolvers := hres

/-- A record whose solver stays on the same side of the decrement. -/
theorem Records.put_of_pending (h : Records job p s) (hd : s.dispatched[j]? = some d)
    (hitem : d'.resdata.rblitem = d.resdata.rblitem) (hpending : d'.pending = d.pending) :
    Records job p (s.put j d') :=
  h.put hd d' hitem (h.resolvers.trans (by rw [countP_put_of_eq hd hpending]))

/-- The part of `worker_th` matters only at the start and while a solver is created. -/
theorem Records.phase (h : Records job p s) (hstart : p ≠ .start) (hstart' : q ≠ .start)
    (hcreating : q = .creating ↔ p = .creating) : Records job q s where
  idle hq := absurd hq hstart'
  rejected := h.rejected
  prepared _ := h.prepared hstart
  rbl _ := h.rbl hstart
  length := by simpa only [hcreating] using h.length
  items := h.items
  resolvers := h.resolvers

/-- The points, the mutex and the tally do not matter. -/
theorem Records.control (h : Records job p s) (pc : WorkerPc) (owner : Option Party)
    (tally : Tally) (i : Nat) (written : List (Option Bytes)) :
    Records job p
      { s with pc := pc, owner := owner, tally := tally, i := i, written := written } :=
  ⟨h.idle, h.rejected, h.prepared, h.rbl, h.length, h.items, h.resolvers⟩

/-! ### The steps of the worker -/

/-- A request without a usable address. -/
theorem Records.reject (h : Records job .start s) (hnone : prepareClient job.request = none) :
    Records job .replying { s with err := true } where
  idle hp := by cases hp
  rejected _ := ⟨hnone, (h.idle rfl).2⟩
  prepared _ herr := by cases herr
  rbl _ herr := by cases herr
  length := h.length
  items := h.items
  resolvers := h.resolvers

/-- The worker starts at the head of the list. -/
theorem Records.prepare {client rdn : Bytes} (h : Records job .start s)
    (hsome : prepareClient job.request = some (client, rdn)) :
    Records job .dispatching { s with client := client, rdn := rdn, rbl := job.rblist } where
  idle hp := by cases hp
  rejected := h.rejected
  prepared _ _ := hsome
  rbl _ _ := by
    have hlength := h.length
    rw [(h.idle rfl).2, if_neg (by simp), List.length_nil, add_zero] at hlength
    rw [← hlength, List.drop_zero]
  length := h.length
  items := h.items
  resolvers := h.resolvers

/-- A record for the next blacklist. -/
theorem Records.record {rbl : Cfgitem} {rest : List Cfgitem} (h : Records job .dispatching s)
    (herr : s.err = false) (hrbl : s.rbl = rbl :: rest) :
    Records job .creating
      { s with
        dispatched := s.dispatched ++ [s.newDispatch rbl], resolvers := s.resolvers + 1 } where
  idle hp := by cases hp
  rejected herr' := by
    rw [herr] at herr'
    cases herr'
  prepared _ := h.prepared (by simp)
  rbl _ := h.rbl (by simp)
  length := by
    have hlength := h.length
    simp only [List.length_append, List.length_singleton] at hlength ⊢
    simpa using hlength
  items := by
    -- the worker stands on the entry behind those it has passed
    have hlength : s.dispatched.length = s.resdataCnt := h.length
    have hnext : job.rblist[s.dispatched.length]? = some rbl := by
      have hdrop := (h.rbl (by simp) herr).symm.trans hrbl
      rw [hlength, ← List.head?_drop, hdrop, List.head?_cons]
    rw [List.map_append, h.items, List.length_append, List.length_singleton, List.take_add_one,
      hnext]
    rfl
  -- the new record has no solver yet, but it counts
  resolvers := by
    have hpending : (s.newDispatch rbl).pending = true := rfl
    rw [List.countP_append, List.countP_singleton, if_pos hpending, h.resolvers]
    push_cast
    rfl

/-- The worker passes the blacklist it has created a record for. -/
theorem Records.advance (h : Records job .creating s) :
    Records job .dispatching { s with resdataCnt := s.resdataCnt + 1, rbl := s.rbl.tail } where
  idle hp := by cases hp
  rejected := h.rejected
  prepared _ := h.prepared (by simp)
  rbl _ herr := by
    change s.rbl.tail = _
    rw [h.rbl (by simp) herr, List.tail_drop]
  length := h.length
  items := h.items
  resolvers := h.resolvers

theorem pending_createEffect {pc : CreatePc} (hfresh : pc.uncreated = true → d.solver = none) :
    Dispatch.pending { d with solver := createEffect pc ok d.solver } = d.pending := by
  unfold createEffect
  split
  · rw [Dispatch.pending, Dispatch.pending, hfresh rfl]
    cases ok <;> rfl
  · cases hsolver : d.solver <;> simp [Dispatch.pending, hsolver]
  · rfl

theorem Records.workerStep (h : Records job s.pc.phase s) (hlock : Locking s) (hfresh : Fresh s)
    (hstep : WorkerStep job s ok s') : Records job s'.pc.phase s' := by
  have hnoerr := hlock.err_eq_false
  cases hstep with
  | @move pc hmove =>
    -- a move may lead from one loop to the next
    refine Records.control (p := pc.phase) ?_ pc s.owner s.tally s.i s.written
    rcases hmove.phase with hsame | ⟨hfrom, hto⟩ | ⟨hfrom, hto⟩
    · exact hsame ▸ h
    · rw [hfrom] at h
      exact hto ▸ h.phase (by simp) (by simp) (by simp)
    · rw [hfrom] at h
      exact hto ▸ h.phase (by simp) (by simp) (by simp)
  | reject hpc hnone =>
    rw [hpc] at h
    exact (h.reject hnone).control _ _ _ _ _
  | prepare hpc hsome =>
    rw [hpc] at h
    exact (h.prepare hsome).control _ _ _ _ _
  | acquireDispatch hpc _ =>
    rw [hpc] at h
    exact h.control _ _ _ _ _
  | record hpc hrbl =>
    rw [hpc] at h hnoerr
    exact (h.record (hnoerr (by simp)) hrbl).control _ _ _ _ _
  | @create pc d hpc hd =>
    rw [hpc] at h
    have hsame : Dispatch.pending { d with solver := createEffect pc ok d.solver } = d.pending :=
      pending_createEffect fun hpc' => hfresh pc hpc hpc' d hd
    change Records job (createNext pc ok).phase _
    rw [phase_createNext]
    have hput : Records job .creating (s.put s.resdataCnt
        { d with solver := createEffect pc ok d.solver }) := h.put_of_pending hd rfl hsame
    exact hput.control _ _ _ _ _
  | unlockDispatch hpc =>
    rw [hpc] at h
    exact h.advance.control _ _ _ _ _
  | acquireJoin hpc _ =>
    rcases hpc with hpc | hpc
    · rw [hpc] at h
      exact h.control _ _ _ _ _
    · rw [hpc] at h
      exact h.control _ _ _ _ _
  | sleep hpc _ =>
    rw [hpc] at h
    exact h.control _ _ _ _ _
  | join hpc _ =>
    rw [hpc] at h
    exact (h.phase (q := .tallying) (by simp) (by simp) (by simp)).control _ _ _ _ _
  | tally hpc _ =>
    rw [hpc] at h
    exact h.control _ _ _ _ _
  | @freeHostname d hpc hd =>
    rw [hpc] at h
    have hput : Records job .tallying (s.put s.i
        { d with resdata := { d.resdata with hostnameFreed := true } }) :=
      h.put_of_pending hd rfl rfl
    exact hput.control _ _ _ _ _
  | @freeResdata d hpc hd =>
    rw [hpc] at h
    have hput : Records job .tallying (s.put s.i
        { d with resdata := { d.resdata with freed := true } }) := h.put_of_pending hd rfl rfl
    exact hput.control _ _ _ _ _
  | reply hpc =>
    rw [hpc] at h
    exact h.control _ _ _ _ _

/-! ### The steps of a solver -/

theorem pending_eq (hsolver : d.solver = some solver) : d.pending = solver.pc.pending := by
  rw [Dispatch.pending, hsolver, Option.all_some]

theorem SolverStep.phase (h : SolverStep job s j d solver s') : s'.pc.phase = s.pc.phase := by
  cases h with
  | broadcast _ =>
    by_cases hpc : s.pc = .asleep
    · simp [hpc]
    · simp [hpc]
  | _ => rfl

theorem Records.solverStep (h : Records job p s) (hd : s.dispatched[j]? = some d)
    (hsolver : d.solver = some solver) (hstep : SolverStep job s j d solver s') :
    Records job p s' := by
  have hpending := pending_eq hsolver
  cases hstep with
  | @move pc hmove =>
    refine h.put_of_pending hd rfl ?_
    rw [hpending]
    generalize solver.pc = pc at hmove
    cases hmove <;> rfl
  | store hpc => exact h.put_of_pending hd rfl (by rw [hpending, hpc]; rfl)
  | acquire hpc _ =>
    have hput : Records job p (s.put j (d.moveTo solver .decrement)) :=
      h.put_of_pending hd rfl (by rw [hpending, hpc]; rfl)
    exact hput.control _ _ _ _ _
  | decrement hpc =>
    refine h.put hd (d.moveTo solver .broadcast) rfl ?_
    -- one record less is pending
    have hcount := countP_put hd (d.moveTo solver .broadcast)
    have hbefore : d.pending = true := by rw [hpending, hpc]; rfl
    have hafter : (d.moveTo solver .broadcast).pending = false := rfl
    rw [hbefore, hafter, if_pos rfl, if_neg Bool.false_ne_true] at hcount
    rw [h.resolvers]
    omega
  | broadcast hpc =>
    have hput : Records job p (s.put j (d.moveTo solver .unlock)) :=
      h.put_of_pending hd rfl (by rw [hpending, hpc]; rfl)
    exact hput.control _ _ _ _ _
  | release hpc =>
    have hput : Records job p (s.put j (d.moveTo solver (.stats .test))) :=
      h.put_of_pending hd rfl (by rw [hpending, hpc]; rfl)
    exact hput.control _ _ _ _ _

/-! ### The record under construction -/

theorem fresh_init : Fresh init := by
  intro pc hpc
  cases hpc

/-- A point in front of `pthread_create` is only reached from another one. -/
theorem uncreated_of_createNext {pc pc' : CreatePc} (h : createNext pc ok = .create pc')
    (hpc : pc'.uncreated = true) : createEffect pc ok = id ∧ pc.uncreated = true := by
  have hnext : pc.next ok = some pc' := by
    unfold createNext at h
    split at h
    · rename_i heq
      rw [heq, WorkerPc.create.inj h]
    · cases h
  -- of the points behind `pthread_create` none leads back in front of it
  cases pc with
  | initLock => exact ⟨rfl, rfl⟩
  | initUnlock => exact ⟨rfl, rfl⟩
  | lock => exact ⟨rfl, rfl⟩
  | create =>
    obtain rfl := Option.some.inj hnext
    cases ok <;> cases hpc
  | register =>
    obtain rfl := Option.some.inj hnext
    cases ok <;> cases hpc
  | cancel =>
    obtain rfl := Option.some.inj hnext
    cases hpc
  | statsLock =>
    obtain rfl := Option.some.inj hnext
    cases hpc
  | statsUnlock =>
    obtain rfl := Option.some.inj hnext
    cases hpc
  | unlock => cases hnext

theorem Fresh.workerStep (h : Fresh s) (hrec : Records job s.pc.phase s)
    (hstep : WorkerStep job s ok s') : Fresh s' := by
  intro pc' hpc' hbefore
  cases hstep with
  | move hmove =>
    obtain rfl : _ = WorkerPc.create pc' := hpc'
    cases hmove
  | record hpc _ =>
    -- the new record is the last one, and the counter points to it
    intro e he
    have hlength := hrec.length
    rw [hpc, if_neg nofun, add_zero] at hlength
    change (s.dispatched ++ [s.newDispatch _])[s.resdataCnt]? = some e at he
    rw [← hlength, List.getElem?_concat_length] at he
    exact Option.some.inj he ▸ rfl
  | @create pc d hpc hd =>
    obtain ⟨heffect, hbefore'⟩ := uncreated_of_createNext hpc' hbefore
    intro e he
    change (s.put _ _).dispatched[s.resdataCnt]? = some e at he
    rw [getElem?_put hd, if_pos rfl, heffect] at he
    exact Option.some.inj he ▸ h pc hpc hbefore' d hd
  | reject _ _ => cases hpc'
  | prepare _ _ => cases hpc'
  | acquireDispatch _ _ => cases hpc'
  | unlockDispatch _ => cases hpc'
  | acquireJoin _ _ => cases hpc'
  | sleep _ _ => cases hpc'
  | join _ _ => cases hpc'
  | tally _ _ => cases hpc'
  | freeHostname _ _ => cases hpc'
  | freeResdata _ _ => cases hpc'
  | reply _ => cases hpc'

/-- A solver's step leaves the record under construction alone, as that has no solver. -/
theorem Fresh.put (h : Fresh s) (hd : s.dispatched[j]? = some d) (hsolver : d.solver = some solver)
    (d' : Dispatch) : Fresh (s.put j d') := by
  intro pc hpc hbefore e he
  rw [getElem?_put hd] at he
  split_ifs at he with hj
  · have hj' : j = s.resdataCnt := hj
    have hnone := h pc hpc hbefore d (hj' ▸ hd)
    rw [hsolver] at hnone
    cases hnone
  · exact h pc hpc hbefore e he

theorem Fresh.solverStep (h : Fresh s) (hd : s.dispatched[j]? = some d)
    (hsolver : d.solver = some solver) (hstep : SolverStep job s j d solver s') : Fresh s' := by
  cases hstep with
  | broadcast _ =>
    intro pc hpc
    have hpc' : s.pc = .create pc := by
      by_cases hasleep : s.pc = .asleep
      · simp [hasleep] at hpc
      · simpa [hasleep] using hpc
    exact h.put hd hsolver _ pc hpc'
  | _ => exact h.put hd hsolver _

/-! ### The scores -/

/-- A state of a solver that is not behind the store any more than before. -/
theorem scored_of_stored (h : d.Scored job j)
    (hscore : d'.resdata.score = d.resdata.score)
    (hitem : d'.resdata.rblitem = d.resdata.rblitem) (hstored : d'.stored = d.stored) :
    d'.Scored job j := by
  rw [Dispatch.Scored, hscore, hitem, hstored]
  exact h

theorem AllScored.workerStep (h : AllScored job s)
    (hfresh : Fresh s) (hstep : WorkerStep job s ok s') :
    AllScored job s' := by
  cases hstep with
  | record _ _ =>
    exact forall_append h rfl
  | @create pc d hpc hd =>
    refine forall_put hd h (scored_of_stored (h _ d hd) rfl rfl ?_)
    -- a solver that has just been created has not stored anything
    unfold createEffect
    split
    · rw [Dispatch.stored, Dispatch.stored, hfresh _ hpc rfl d hd]
      cases ok <;> rfl
    · cases hsolver : d.solver <;> simp [Dispatch.stored, hsolver]
    · rfl
  | freeHostname _ hd => exact forall_put hd h (scored_of_stored (h _ _ hd) rfl rfl rfl)
  | freeResdata _ hd => exact forall_put hd h (scored_of_stored (h _ _ hd) rfl rfl rfl)
  | _ => exact h

theorem AllScored.solverStep (h : AllScored job s)
    (hd : s.dispatched[j]? = some d) (hsolver : d.solver = some solver)
    (hstep : SolverStep job s j d solver s') :
    AllScored job s' := by
  have hstored : d.stored = solver.pc.stored := by
    rw [Dispatch.stored, hsolver, Option.any_some]
  have hkeep : ∀ {pc : SolverPc}, pc.stored = solver.pc.stored →
      (d.moveTo solver pc).Scored job j :=
    fun hpc => scored_of_stored (h j d hd) rfl rfl (hpc.trans hstored.symm)
  cases hstep with
  | move hmove =>
    refine forall_put hd h (hkeep ?_)
    generalize solver.pc = pc at hmove
    cases hmove <;> rfl
  | store hpc => exact forall_put hd h rfl
  | acquire hpc _ => exact forall_put hd h (hkeep (by rw [hpc]; rfl))
  | decrement hpc => exact forall_put hd h (hkeep (by rw [hpc]; rfl))
  | broadcast hpc => exact forall_put hd h (hkeep (by rw [hpc]; rfl))
  | release hpc => exact forall_put hd h (hkeep (by rw [hpc]; rfl))

end Session

end Rblpolicyd
