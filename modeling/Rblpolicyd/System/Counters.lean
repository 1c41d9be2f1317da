import Mathlib.Data.Finset.Card
import Rblpolicyd.Daemon.ListLifetime
import Rblpolicyd.System.Coherence

/-!
# The counters of the blacklists

The items of the list at `rblist` have two counters, which all workers share. In its
tally loop a worker increments `questions` of the item behind its record, and
`positive` if the record has a score; each of the two is a load and a store, and
only `rblist_mutex` keeps another worker from storing in between. The list is that
of all requests: record `i` of a request is the one that was made in iteration `i`
of its dispatch loop, and points to item `i`.

## Main definitions

* `UpdatePc` — the points between the lock and the unlock of `rblist_mutex`
* `Counted`, `Counted.step` — the system with the counters, one load or store a step
* `System.talliedBy`, `System.scoredBy` — the requests that count for an item

## Main results

* `Counted.counters_eq` — outside of the critical sections the counters are the numbers
  of these requests
-/

namespace Rblpolicyd

open Semantics

/-! ### The update of an item -/

/-- The points of `questions++` and `positive++`. What a store has behind it is what the load
before it has found, plus one. -/
inductive UpdatePc
  | loadQuestions
  | storeQuestions (v : UInt32)
  | testScore
  | loadPositive
  | storePositive (v : UInt32)
  | done
  deriving DecidableEq

/-- One load, test or store of the update: the item and the point behind it. -/
def UpdatePc.step (item : Cfgitem) (score : Int) : UpdatePc → Option (Cfgitem × UpdatePc)
  | .loadQuestions => some (item, .storeQuestions (item.questions + 1))
  | .storeQuestions v => some ({ item with questions := v }, .testScore)
  | .testScore => some (item, if score ≠ 0 then .loadPositive else .done)
  | .loadPositive => some (item, .storePositive (item.positive + 1))
  | .storePositive v => some ({ item with positive := v }, .done)
  | .done => none

/-- `questions` has been stored. -/
def UpdatePc.asked : UpdatePc → Bool
  | .loadQuestions | .storeQuestions _ => false
  | .testScore | .loadPositive | .storePositive _ | .done => true

/-- `positive` has been stored, or is not going to be. -/
def UpdatePc.answered : UpdatePc → Bool
  | .done => true
  | _ => false

/-- The system, the items at `rblist`, and where each worker is in its update. -/
structure Counted where
  system : System
  items : List Cfgitem
  updates : Nat → UpdatePc

/-- A worker that goes on has its next update before it. -/
def UpdatePc.behind (pc : UpdatePc) : Session.Action → UpdatePc
  | .worker _ => .loadQuestions
  | _ => pc

namespace Counted

/-- No worker has started, and the items are those of the list that was read. -/
def init (appstate : Appstate) (rblist : List Cfgitem) : Counted where
  system := System.init appstate rblist
  items := rblist
  updates _ := .loadQuestions

/-- A step of the system, or of the update that worker `i` makes. -/
inductive Action
  | system (a : System.Action)
  | update (i : Nat)
  deriving DecidableEq

/-- The step is one of the request of worker `i`. -/
def Action.ofRequest (i : Nat) : Action → Bool
  | .system (.session k _) | .update k => k = i
  | _ => false

/-- A worker goes on to its unlock when the update is complete. -/
def complete (s : Counted) : System.Action → Bool
  | .session i (.worker _) =>
    s.updates i = .done || s.system.sessions[i]?.all fun sess => sess.pc ≠ .tallyUpdate
  | _ => true

/-- Where the workers are in their updates behind a step of the system. -/
def updatesBehind (updates : Nat → UpdatePc) : System.Action → Nat → UpdatePc
  | .session i a => Function.update updates i ((updates i).behind a)
  | .daemon _ => updates

/-- One step of the update that worker `i` makes, with `rblist_mutex` locked. -/
def updateStep (s : Counted) (i : Nat) : Option Counted :=
  match s.system.sessions[i]? with
  | none => none
  | some sess =>
    match sess.dispatched[sess.i]?, s.items[sess.i]? with
    | some d, some item =>
      if s.system.daemon.exited = none ∧ s.system.sessionRuns i (.worker true) ∧
          sess.pc = .tallyUpdate then
        ((s.updates i).step item d.resdata.score).map fun behind =>
          { s with
            items := s.items.set sess.i behind.1
            updates := Function.update s.updates i behind.2 }
      else none
    | _, _ => none

/-- One step of the system with its counters. -/
def step (maxthreads : Int) (jobs : Nat → Job) (s : Counted) : Action → Option Counted
  | .system a =>
    if s.complete a then
      (s.system.step maxthreads jobs a).map fun system =>
        { s with system := system, updates := updatesBehind s.updates a }
    else none
  | .update i => s.updateStep i

end Counted

/-! ### The requests that count -/

/-- The number of items the request has tallied. -/
def Session.talliedCount (s : Session) : Nat :=
  match s.pc.phase with
  | .tallying => s.tallyCount
  | .replying => if s.err then 0 else s.i
  | _ => 0

/-- The solver of item `k` has stored a score other than zero. -/
def Session.foundScore (s : Session) (k : Nat) : Bool :=
  s.dispatched[k]?.any fun d => d.resdata.score ≠ 0

/-- The workers whose request has tallied item `k`. -/
def System.talliedBy (s : System) (k : Nat) : Finset Nat :=
  (Finset.range s.sessions.length).filter fun i =>
    s.sessions[i]?.any fun sess => k < sess.talliedCount

/-- Those whose solver of the item has stored a score other than zero. -/
def System.scoredBy (s : System) (k : Nat) : Finset Nat :=
  (s.talliedBy k).filter fun i => s.sessions[i]?.any fun sess => sess.foundScore k

/-- The item with its counters increased, as `unsigned int` counts. -/
def Cfgitem.counted (item : Cfgitem) (questions positive : Nat) : Cfgitem :=
  { item with
    questions := item.questions + UInt32.ofNat questions
    positive := item.positive + UInt32.ofNat positive }

namespace Session

variable {job : Job} {s s' : Session} {a : Action} {k : Nat} {ok stored : Bool}

/-- The number of items with the counter of which the request is done; `stored` is whether the
update under way has stored it. -/
def countWith (s : Session) (stored : Bool) : Nat :=
  if s.pc = .tallyUpdate ∧ stored then s.i + 1 else s.talliedCount

theorem countWith_of_ne (hpc : s.pc ≠ .tallyUpdate) (stored : Bool) :
    s.countWith stored = s.talliedCount :=
  if_neg fun h => hpc h.1

theorem countWith_false (s : Session) : s.countWith false = s.talliedCount :=
  if_neg fun h => nomatch h.2

theorem countWith_true (hpc : s.pc = .tallyUpdate) : s.countWith true = s.i + 1 :=
  if_pos ⟨hpc, rfl⟩

theorem talliedCount_of_tallyUpdate (hpc : s.pc = .tallyUpdate) : s.talliedCount = s.i := by
  simp [talliedCount, tallyCount, hpc]

/-- A request that has tallied an item is behind its wait. -/
theorem phase_of_lt_talliedCount (h : k < s.talliedCount) :
    s.pc.phase = .tallying ∨ s.pc.phase = .replying ∧ s.err = false := by
  unfold talliedCount at h
  split at h
  · exact .inl ‹_›
  · split_ifs at h with herr
    · exact absurd h (Nat.not_lt_zero k)
    · exact .inr ⟨‹_›, by simpa using herr⟩
  · exact absurd h (Nat.not_lt_zero k)

theorem phase_of_lt_countWith (h : k < s.countWith stored) :
    s.pc.phase = .tallying ∨ s.pc.phase = .replying ∧ s.err = false := by
  unfold countWith at h
  split_ifs at h with hupdate
  · exact .inl (by rw [hupdate.1]; rfl)
  · exact phase_of_lt_talliedCount h

theorem talliedCount_of_phase {p : Phase} (hphase : s.pc.phase = p) (h : p ≠ .tallying)
    (h' : p ≠ .replying) : s.talliedCount = 0 := by
  subst hphase
  unfold talliedCount
  split
  · exact absurd ‹_› h
  · exact absurd ‹_› h'
  · rfl

/-- The worker's step behind an update is the one that counts the item, and no other step of
the worker does. -/
theorem WorkerStep.talliedCount (hlock : Locking s) (hstep : WorkerStep job s ok s')
    (hcomplete : s.pc = .tallyUpdate → stored = true) : s'.talliedCount = s.countWith stored := by
  by_cases hpc : s.pc = .tallyUpdate
  · rw [hcomplete hpc, countWith_true hpc]
    cases hstep with
    | tally _ _ => rfl
    | move hmove => cases hmove <;> simp [hpc] at *
    | _ => simp [hpc] at *
  rw [countWith_of_ne hpc]
  cases hstep with
  | tally hpc' _ => exact absurd hpc' hpc
  | move hmove =>
    cases hmove with
    | reply hpc _ =>
      have herr := hlock.err_eq_false (by simp [hpc])
      simp [Session.talliedCount, tallyCount, hpc, herr]
    | _ => simp [Session.talliedCount, tallyCount, *]
  | create hpc _ =>
    have hphase : s.pc.phase = .creating := by rw [hpc]; rfl
    rw [talliedCount_of_phase hphase (by decide) (by decide)]
    exact talliedCount_of_phase (phase_createNext _ _) (by decide) (by decide)
  | acquireJoin hpc _ =>
    rcases hpc with hpc | hpc <;> simp [Session.talliedCount, hpc]
  | freeHostname hpc _ => simp [Session.talliedCount, tallyCount, hpc, put]
  | _ => simp [Session.talliedCount, tallyCount, *]

/-- What counts a request is its point, its error and the number of the record it is at. -/
theorem countWith_congr (hpc : s'.pc = s.pc) (herr : s'.err = s.err) (hi : s'.i = s.i)
    (stored : Bool) : s'.countWith stored = s.countWith stored := by
  simp only [countWith, Session.talliedCount, tallyCount, hpc, herr, hi]

/-- A worker that wakes up has tallied nothing. -/
theorem countWith_relock (hpc : s.pc = .asleep) (hpc' : s'.pc = .relock) (stored : Bool) :
    s'.countWith stored = s.countWith stored := by
  simp [countWith, Session.talliedCount, hpc, hpc']

/-- The steps of a solver count nothing. -/
theorem SolverStep.countWith {j : Nat} {d : Dispatch} {solver : Solver}
    (hstep : SolverStep job s j d solver s') (stored : Bool) :
    s'.countWith stored = s.countWith stored := by
  have herr : s'.err = s.err := by cases hstep <;> rfl
  obtain ⟨hpc | ⟨hpc, hpc'⟩, -, hi, -⟩ := hstep.frame
  · exact countWith_congr hpc herr hi stored
  · exact countWith_relock hpc hpc' stored

/-! ### The scores that are found -/

theorem foundScore_congr
    (h : s'.dispatched.map (fun d => d.resdata.score) =
      s.dispatched.map fun d => d.resdata.score) (k : Nat) :
    s'.foundScore k = s.foundScore k := by
  have hany : ∀ t : Session, t.foundScore k =
      (t.dispatched.map fun d => d.resdata.score)[k]?.any fun score => score ≠ 0 := by
    intro t
    rw [Session.foundScore, List.getElem?_map, Option.any_map]
  rw [hany, hany, h]

/-- Behind its wait the worker only frees its records. -/
theorem WorkerStep.foundScore (hstep : WorkerStep job s ok s')
    (hphase : s.pc.phase = .tallying ∨ s.pc.phase = .replying) (k : Nat) :
    s'.foundScore k = s.foundScore k := by
  cases hstep with
  | record hpc _ => simp [hpc] at hphase
  | create hpc _ => simp [hpc] at hphase
  | freeHostname _ hd => exact foundScore_congr (map_put hd (by rfl)) k
  | freeResdata _ hd => exact foundScore_congr (map_put hd (by rfl)) k
  | _ => rfl

/-- A solver that stores its score is one that the worker waits for. -/
theorem SolverStep.foundScore {j : Nat} {d : Dispatch} {solver : Solver} {p : Phase}
    (hrec : Records job p s) (hzero : s.resolvers = 0) (hd : s.dispatched[j]? = some d)
    (hsolver : d.solver = some solver) (hstep : SolverStep job s j d solver s') (k : Nat) :
    s'.foundScore k = s.foundScore k := by
  cases hstep with
  | store hpc =>
    have hpending := hrec.not_pending hzero hd
    rw [pending_eq hsolver, hpc] at hpending
    cases hpending
  | _ => exact foundScore_congr (map_put hd (by rfl)) k

/-! ### The steps of the request -/

/-- No step counts an item but the one behind a complete update. -/
theorem countWith_step {pc : UpdatePc} {stored : UpdatePc → Bool} (hinv : Inv job s)
    (hstep : s.step job a = some s') (hstart : stored .loadQuestions = false)
    (hstored : ∀ ok, a = .worker ok → s.pc = .tallyUpdate → stored pc = true) :
    s'.countWith (stored (pc.behind a)) = s.countWith (stored pc) := by
  cases a with
  | worker ok =>
    rw [UpdatePc.behind, hstart, countWith_false]
    exact (workerStep_cases hstep).talliedCount hinv.locking (hstored ok rfl)
  | wake =>
    obtain ⟨hpc, rfl⟩ := wakeStep_cases hstep
    exact countWith_relock hpc rfl _
  | solver j ok =>
    obtain ⟨d, solver, -, -, -, hcases⟩ := solverStep_cases hstep
    exact hcases.countWith _
  | kill j =>
    obtain ⟨d, solver, -, -, -, -, -, rfl⟩ := killStep_cases hstep
    exact countWith_congr rfl rfl rfl _

/-- Behind the wait no score changes. -/
theorem foundScore_step (hinv : Inv job s) (hstep : s.step job a = some s')
    (hphase : s.pc.phase = .tallying ∨ s.pc.phase = .replying ∧ s.err = false) (k : Nat) :
    s'.foundScore k = s.foundScore k := by
  cases a with
  | worker ok => exact (workerStep_cases hstep).foundScore (hphase.imp_right And.left) k
  | wake =>
    obtain ⟨-, rfl⟩ := wakeStep_cases hstep
    rfl
  | solver j ok =>
    have hzero : s.resolvers = 0 := by
      rcases hphase with hphase | ⟨hphase, herr⟩
      · exact (hinv.tallied.tallying hphase).1
      · exact (hinv.tallied.replying hphase herr).1
    obtain ⟨d, solver, hd, hsolver, -, hcases⟩ := solverStep_cases hstep
    exact hcases.foundScore hinv.records hzero hd hsolver k
  | kill j =>
    obtain ⟨d, solver, hd, -, -, -, -, rfl⟩ := killStep_cases hstep
    exact foundScore_congr (map_put hd (by rfl)) k

/-- Only the worker's own steps lead to an update. -/
theorem tallyUpdate_of_step (hworker : ∀ ok, a ≠ .worker ok) (hstep : s.step job a = some s')
    (hpc : s'.pc = .tallyUpdate) : s.pc = .tallyUpdate ∧ s'.i = s.i := by
  cases a with
  | worker ok => exact absurd rfl (hworker ok)
  | wake =>
    obtain ⟨-, rfl⟩ := wakeStep_cases hstep
    cases hpc
  | solver j ok =>
    obtain ⟨d, solver, -, -, -, hcases⟩ := solverStep_cases hstep
    obtain ⟨hsame | ⟨-, hwoken⟩, -, hi, -⟩ := hcases.frame
    · exact ⟨hsame.symm.trans hpc, hi⟩
    · cases hwoken.symm.trans hpc
  | kill j =>
    obtain ⟨d, solver, -, -, -, -, -, rfl⟩ := killStep_cases hstep
    exact ⟨hpc, rfl⟩

/-- The request has stored the `questions` of item `k`. -/
def asks (k : Nat) (s : Session) (pc : UpdatePc) : Bool := k < s.countWith pc.asked

/-- The request has stored the `positive` of item `k`. -/
def scores (k : Nat) (s : Session) (pc : UpdatePc) : Bool :=
  k < s.countWith pc.answered ∧ s.foundScore k

theorem asks_step {pc : UpdatePc} (hinv : Inv job s) (hstep : s.step job a = some s')
    (hdone : ∀ ok, a = .worker ok → s.pc = .tallyUpdate → pc = .done) (k : Nat) :
    s'.asks k (pc.behind a) = s.asks k pc := by
  rw [asks, asks, countWith_step hinv hstep rfl]
  intro ok ha hpc
  rw [hdone ok ha hpc]
  rfl

theorem scores_step {pc : UpdatePc} (hinv : Inv job s) (hstep : s.step job a = some s')
    (hdone : ∀ ok, a = .worker ok → s.pc = .tallyUpdate → pc = .done) (k : Nat) :
    s'.scores k (pc.behind a) = s.scores k pc := by
  have hcount : s'.countWith (pc.behind a).answered = s.countWith pc.answered := by
    apply countWith_step hinv hstep rfl
    intro ok ha hpc
    rw [hdone ok ha hpc]
    rfl
  rw [scores, scores, hcount]
  -- an item that counts has a score that does not change any more
  by_cases hk : k < s.countWith pc.answered
  · rw [foundScore_step hinv hstep (phase_of_lt_countWith hk)]
  · simp [hk]

/-- Inside an update the request is done with the items before the one it is at. -/
theorem lt_countWith_iff (hpc : s.pc = .tallyUpdate) :
    k < s.countWith stored ↔ k < s.i ∨ k = s.i ∧ stored = true := by
  cases stored with
  | false => simp [countWith_false, talliedCount_of_tallyUpdate hpc]
  | true =>
    rw [countWith_true hpc]
    simp only [and_true]
    omega

theorem asks_iff (hpc : s.pc = .tallyUpdate) {pc : UpdatePc} :
    s.asks k pc = true ↔ k < s.i ∨ k = s.i ∧ pc.asked = true := by
  rw [asks, decide_eq_true_eq, lt_countWith_iff hpc]

theorem scores_iff (hpc : s.pc = .tallyUpdate) {pc : UpdatePc} :
    s.scores k pc = true ↔
      (k < s.i ∨ k = s.i ∧ pc.answered = true) ∧ s.foundScore k = true := by
  rw [scores, decide_eq_true_eq, lt_countWith_iff hpc]

end Session

/-! ### The update of one item -/

namespace UpdatePc

variable {pc pc' : UpdatePc} {item item' : Cfgitem} {score : Int} {found : Bool}

/-- A store is about to write what its item holds, plus one; `positive` is only incremented when
a score was found. -/
def Loaded (item : Cfgitem) (found : Bool) : UpdatePc → Prop
  | .storeQuestions v => v = item.questions + 1
  | .loadPositive => found = true
  | .storePositive v => found = true ∧ v = item.positive + 1
  | _ => True

theorem counted_zero (item : Cfgitem) : item.counted 0 0 = item := by
  simp [Cfgitem.counted]

theorem counted_counted (item : Cfgitem) (m n m' n' : Nat) :
    (item.counted m n).counted m' n' = item.counted (m + m') (n + n') := by
  simp [Cfgitem.counted, UInt32.ofNat_add, UInt32.add_assoc]

/-- A step that passes no store of a counter that counts. -/
theorem counted_neither {P Q : Prop} [Decidable P] [Decidable Q] (hP : ¬ P) (hQ : ¬ Q) :
    item = item.counted (if P then 1 else 0) (if Q then 1 else 0) := by
  rw [if_neg hP, if_neg hQ, counted_zero]

/-- A step of an update increments a counter when it passes the store of that counter. -/
theorem step_spec (hloaded : pc.Loaded item (decide (score ≠ 0)))
    (hstep : pc.step item score = some (item', pc')) :
    pc'.Loaded item' (decide (score ≠ 0)) ∧
      (pc.asked = true → pc'.asked = true) ∧ (pc.answered = true → pc'.answered = true) ∧
      item' = item.counted (if pc'.asked ∧ ¬ pc.asked then 1 else 0)
        (if score ≠ 0 ∧ pc'.answered ∧ ¬ pc.answered then 1 else 0) := by
  cases pc with
  | testScore =>
    obtain ⟨rfl, rfl⟩ := Prod.mk.inj (Option.some.inj hstep)
    by_cases hscore : score = 0
    · rw [if_neg (not_not.mpr hscore)]
      refine ⟨trivial, fun _ => rfl, fun _ => rfl, counted_neither (fun h => h.2 rfl) ?_⟩
      exact fun h => h.1 hscore
    · rw [if_pos hscore]
      refine ⟨decide_eq_true hscore, fun _ => rfl, nofun, counted_neither (fun h => h.2 rfl) ?_⟩
      exact fun h => Bool.false_ne_true h.2.1
  | storePositive v =>
    obtain ⟨rfl, rfl⟩ := Prod.mk.inj (Option.some.inj hstep)
    obtain ⟨hfound, rfl⟩ := hloaded
    refine ⟨trivial, fun _ => rfl, fun _ => rfl, ?_⟩
    rw [if_neg fun h => h.2 rfl, if_pos ⟨of_decide_eq_true hfound, rfl, Bool.false_ne_true⟩]
    simp [Cfgitem.counted]
  | loadPositive =>
    obtain ⟨rfl, rfl⟩ := Prod.mk.inj (Option.some.inj hstep)
    refine ⟨⟨hloaded, rfl⟩, fun _ => rfl, nofun, counted_neither (fun h => h.2 rfl) ?_⟩
    exact fun h => Bool.false_ne_true h.2.1
  | loadQuestions =>
    obtain ⟨rfl, rfl⟩ := Prod.mk.inj (Option.some.inj hstep)
    refine ⟨rfl, nofun, nofun, counted_neither (fun h => Bool.false_ne_true h.1) ?_⟩
    exact fun h => Bool.false_ne_true h.2.1
  | storeQuestions v =>
    obtain ⟨rfl, rfl⟩ := Prod.mk.inj (Option.some.inj hstep)
    obtain rfl : v = item.questions + 1 := hloaded
    refine ⟨trivial, nofun, nofun, ?_⟩
    rw [if_pos ⟨rfl, Bool.false_ne_true⟩, if_neg fun h => Bool.false_ne_true h.2.1]
    simp [Cfgitem.counted]
  | done => cases hstep

/-- A step of the request leaves the update under way alone, or leads to the next one. -/
theorem loaded_behind {job : Job} {s s' : Session} {a : Session.Action} {items : List Cfgitem}
    (hinv : Session.Inv job s) (hstep : s.step job a = some s') (hpc : s'.pc = .tallyUpdate)
    (hitem : items[s'.i]? = some item)
    (hloaded : ∀ item, s.pc = .tallyUpdate → items[s.i]? = some item →
      pc.Loaded item (s.foundScore s.i)) : (pc.behind a).Loaded item (s'.foundScore s'.i) := by
  by_cases hworker : ∃ ok, a = .worker ok
  · obtain ⟨ok, rfl⟩ := hworker
    trivial
  · rw [not_exists] at hworker
    obtain ⟨hpc', hi⟩ := Session.tallyUpdate_of_step hworker hstep hpc
    have hphase : s.pc.phase = .tallying := by rw [hpc']; rfl
    have hsame : pc.behind a = pc := by
      cases a with
      | worker ok => exact absurd rfl (hworker ok)
      | _ => rfl
    rw [hsame, Session.foundScore_step hinv hstep (.inl hphase), hi]
    rw [hi] at hitem
    exact hloaded item hpc' hitem

end UpdatePc

/-! ### The requests that have stored a counter -/

namespace Counted

variable {maxthreads : Int} {jobs : Nat → Job} {s s' t : Counted} {i k : Nat} {sess : Session}
  {system : System} {updates : Nat → UpdatePc} {p : Session → UpdatePc → Bool}
  {appstate : Appstate} {rblist : List Cfgitem} {w : List Action}

/-- The workers of which a property of session and update holds. -/
def workersWith (system : System) (updates : Nat → UpdatePc) (p : Session → UpdatePc → Bool) :
    Finset Nat :=
  (Finset.range system.sessions.length).filter fun i =>
    system.sessions[i]?.any fun sess => p sess (updates i)

theorem mem_workersWith : i ∈ workersWith system updates p ↔
    ∃ sess, system.sessions[i]? = some sess ∧ p sess (updates i) = true := by
  rw [workersWith, Finset.mem_filter, Finset.mem_range, Option.any_eq_true]
  constructor
  · exact And.right
  · rintro ⟨sess, hsess, hp⟩
    exact ⟨(List.getElem?_eq_some_iff.mp hsess).1, sess, hsess, hp⟩

/-- The step of an update brings in its worker at most. -/
theorem card_workersWith_update (hsess : system.sessions[i]? = some sess) {pc : UpdatePc}
    (hmono : p sess (updates i) = true → p sess pc = true) :
    (workersWith system (Function.update updates i pc) p).card =
      (workersWith system updates p).card +
        if p sess pc ∧ ¬ p sess (updates i) then 1 else 0 := by
  have hmem : ∀ k, k ∈ workersWith system (Function.update updates i pc) p ↔
      k ∈ workersWith system updates p ∨ k = i ∧ p sess pc = true := by
    intro k
    rw [mem_workersWith, mem_workersWith]
    by_cases hk : k = i
    · subst hk
      simpa [hsess] using hmono
    · simp [hk]
  split_ifs with hnew
  · have hnot : i ∉ workersWith system updates p := by
      rw [mem_workersWith]
      rintro ⟨other, hother, hp⟩
      obtain rfl := Option.some.inj (hsess.symm.trans hother)
      exact hnew.2 hp
    rw [← Finset.card_insert_of_notMem hnot]
    congr 1
    ext k
    rw [hmem, Finset.mem_insert, and_iff_left hnew.1, or_comm]
  · rw [add_zero]
    congr 1
    ext k
    rw [hmem, or_iff_left_iff_imp]
    rintro ⟨rfl, hp⟩
    have hold : p sess (updates k) = true := by
      by_contra hold
      exact hnew ⟨hp, hold⟩
    exact mem_workersWith.mpr ⟨sess, hsess, hold⟩

/-- What a step of a session leaves alone, and a new session does not have, is left alone by the
system. -/
theorem workersWith_system
    (hinv : ∀ (i : Nat) (sess : Session), s.system.sessions[i]? = some sess → sess.Inv (jobs i))
    {a : System.Action} (hcomplete : s.complete a = true)
    (hstep : s.system.step maxthreads jobs a = some system)
    (hinit : ∀ pc, p Session.init pc = false)
    (hp : ∀ {job sess sess' b pc}, Session.Inv job sess → sess.step job b = some sess' →
      (∀ ok, b = .worker ok → sess.pc = .tallyUpdate → pc = .done) →
        p sess' (pc.behind b) = p sess pc) :
    workersWith system (updatesBehind s.updates a) p = workersWith s.system s.updates p := by
  ext k
  rw [mem_workersWith, mem_workersWith]
  cases System.step_cases hstep with
  | daemon _ _ _ =>
    constructor
    · rintro ⟨sess, hsess, hk⟩
      rcases System.getElem?_newSessions hsess with hold | rfl
      · exact ⟨sess, hold, hk⟩
      · cases (hinit _).symm.trans hk
    · rintro ⟨sess, hsess, hk⟩
      have hlt : k < s.system.sessions.length := (List.getElem?_eq_some_iff.mp hsess).1
      exact ⟨sess, (List.getElem?_append_left hlt).trans hsess, hk⟩
  | @session i a sess sess' _ _ _ hsess hsession =>
    by_cases hik : i = k
    · subst hik
      have hdone : ∀ ok, a = .worker ok → sess.pc = .tallyUpdate → s.updates i = .done := by
        rintro ok rfl hpc
        simpa [complete, hsess, hpc] using hcomplete
      have hsame := hp (hinv i sess hsess) hsession hdone
      simp [System.getElem?_set hsess, updatesBehind, hsess, hsame]
    · have hki : k ≠ i := Ne.symm hik
      simp [System.getElem?_set hsess, updatesBehind, hik, hki]

/-! ### The counters of every state -/

/-- The requests that have stored the `questions` of item `k`. -/
def askers (s : Counted) (k : Nat) : Finset Nat :=
  workersWith s.system s.updates (Session.asks k)

/-- The requests that have stored the `positive` of item `k`. -/
def scorers (s : Counted) (k : Nat) : Finset Nat :=
  workersWith s.system s.updates (Session.scores k)

/-- The counters are those of the list that was read, with every request that has stored one
counted once. -/
structure Exact (rblist : List Cfgitem) (s : Counted) : Prop where
  loaded : ∀ (i : Nat) (sess : Session) (item : Cfgitem), s.system.sessions[i]? = some sess →
    sess.pc = .tallyUpdate → s.items[sess.i]? = some item →
      (s.updates i).Loaded item (sess.foundScore sess.i)
  items : ∀ k, s.items[k]? =
    rblist[k]?.map fun (item : Cfgitem) => item.counted (s.askers k).card (s.scorers k).card

theorem exact_init (appstate : Appstate) (rblist : List Cfgitem) :
    Exact rblist (init appstate rblist) where
  loaded _ _ _ h := by cases h
  items k := by
    have hasked : (init appstate rblist).askers k = ∅ := rfl
    have hscored : (init appstate rblist).scorers k = ∅ := rfl
    simp only [hasked, hscored, Finset.card_empty, UpdatePc.counted_zero, Option.map_id']
    rfl

theorem Exact.systemStep (h : Exact rblist s)
    (hinv : ∀ (i : Nat) (sess : Session), s.system.sessions[i]? = some sess → sess.Inv (jobs i))
    {a : System.Action} (hcomplete : s.complete a = true)
    (hstep : s.system.step maxthreads jobs a = some system) :
    Exact rblist { s with system := system, updates := updatesBehind s.updates a } where
  loaded i sess item hsess hpc hitem := by
    cases System.step_cases hstep with
    | daemon _ _ _ =>
      rcases System.getElem?_newSessions hsess with hold | rfl
      · exact h.loaded i sess item hold hpc hitem
      · cases hpc
    | @session k a before after _ _ _ hbefore hsession =>
      change (s.system.sessions.set k after)[i]? = some sess at hsess
      change (Function.update s.updates k ((s.updates k).behind a) i).Loaded item _
      rw [System.getElem?_set hbefore] at hsess
      by_cases hk : k = i
      · subst hk
        obtain rfl := Option.some.inj ((if_pos rfl).symm.trans hsess)
        rw [Function.update_self]
        exact UpdatePc.loaded_behind (hinv k before hbefore) hsession hpc hitem
          fun item => h.loaded k before item hbefore
      · rw [if_neg hk] at hsess
        rw [Function.update_of_ne (Ne.symm hk)]
        exact h.loaded i sess item hsess hpc hitem
  items k := by
    have haskers := workersWith_system hinv hcomplete hstep (p := Session.asks k)
      (by simp [Session.asks, Session.countWith, Session.talliedCount, Session.init])
      fun hinv hstep hdone => Session.asks_step hinv hstep hdone k
    have hscorers := workersWith_system hinv hcomplete hstep (p := Session.scores k)
      (by simp [Session.scores, Session.countWith, Session.talliedCount, Session.init])
      fun hinv hstep hdone => Session.scores_step hinv hstep hdone k
    rw [askers, scorers, haskers, hscorers]
    exact h.items k

/-- What a step of an update is a step of. -/
theorem updateStep_cases (h : s.updateStep i = some s') :
    ∃ (sess : Session) (d : Dispatch) (item item' : Cfgitem) (pc : UpdatePc),
      s.system.sessions[i]? = some sess ∧ sess.pc = .tallyUpdate ∧
        sess.dispatched[sess.i]? = some d ∧ s.items[sess.i]? = some item ∧
          (s.updates i).step item d.resdata.score = some (item', pc) ∧
            s' =
              { s with
                items := s.items.set sess.i item'
                updates := Function.update s.updates i pc } := by
  unfold updateStep at h
  split at h
  · cases h
  · rename_i sess hsess
    split at h
    · rename_i d item hd hitem
      obtain ⟨⟨-, -, hpc⟩, h⟩ := Option.ite_none_right_eq_some.mp h
      obtain ⟨⟨item', pc⟩, hstep, rfl⟩ := Option.map_eq_some_iff.mp h
      exact ⟨sess, d, item, item', pc, hsess, hpc, hd, hitem, hstep, rfl⟩
    · cases h

theorem holdsMutex_rblist (hsess : s.system.sessions[i]? = some sess)
    (hpc : sess.pc = .tallyUpdate) : s.system.HoldsMutex .rblist (.worker i) := by
  rw [System.HoldsMutex, hsess, Option.any_some, hpc]
  rfl

/-- A step of an update brings its worker in for the item it is at. -/
theorem card_askers_update (hsess : s.system.sessions[i]? = some sess)
    (hpc : sess.pc = .tallyUpdate) {pc : UpdatePc}
    (hasked : (s.updates i).asked = true → pc.asked = true) :
    (workersWith s.system (Function.update s.updates i pc) (Session.asks k)).card =
      (s.askers k).card + if k = sess.i ∧ pc.asked ∧ ¬ (s.updates i).asked then 1 else 0 := by
  rw [card_workersWith_update hsess]
  · congr 1
    apply if_congr _ rfl rfl
    rw [Session.asks_iff hpc, Session.asks_iff hpc]
    have hne : k = sess.i → ¬ k < sess.i := fun heq => heq.not_lt
    tauto
  · rw [Session.asks_iff hpc, Session.asks_iff hpc]
    exact Or.imp_right (And.imp_right hasked)

theorem card_scorers_update (hsess : s.system.sessions[i]? = some sess)
    (hpc : sess.pc = .tallyUpdate) {pc : UpdatePc}
    (hanswered : (s.updates i).answered = true → pc.answered = true) :
    (workersWith s.system (Function.update s.updates i pc) (Session.scores k)).card =
      (s.scorers k).card +
        if k = sess.i ∧ sess.foundScore k ∧ pc.answered ∧ ¬ (s.updates i).answered then 1
        else 0 := by
  rw [card_workersWith_update hsess]
  · congr 1
    apply if_congr _ rfl rfl
    rw [Session.scores_iff hpc, Session.scores_iff hpc]
    have hne : k = sess.i → ¬ k < sess.i := fun heq => heq.not_lt
    tauto
  · rw [Session.scores_iff hpc, Session.scores_iff hpc]
    exact And.imp_left (Or.imp_right (And.imp_right hanswered))

theorem Exact.updateStep (h : Exact rblist s)
    (hguarded : Guarded (s.system.owners .rblist) (s.system.HoldsMutex .rblist))
    (hstep : s.updateStep i = some s') : Exact rblist s' := by
  obtain ⟨sess, d, item, item', pc, hsess, hpc, hd, hitem, hupdate, rfl⟩ := updateStep_cases hstep
  have hfound : sess.foundScore sess.i = decide (d.resdata.score ≠ 0) := by
    rw [Session.foundScore, hd, Option.any_some]
  have hloaded := h.loaded i sess item hsess hpc hitem
  rw [hfound] at hloaded
  obtain ⟨hloaded', hasked, hanswered, hitem'⟩ := UpdatePc.step_spec hloaded hupdate
  have hlt : sess.i < s.items.length := (List.getElem?_eq_some_iff.mp hitem).1
  refine ⟨?_, fun k => ?_⟩
  · intro k other item'' hother hpc' hitem''
    -- no other worker is inside an update
    obtain rfl : i = k :=
      Tid.worker.inj (hguarded.unique (holdsMutex_rblist hsess hpc) (holdsMutex_rblist hother hpc'))
    obtain rfl := Option.some.inj (hsess.symm.trans hother)
    have hsame : (s.items.set sess.i item')[sess.i]? = some item'' := hitem''
    rw [List.getElem?_set_self hlt] at hsame
    obtain rfl := Option.some.inj hsame
    change (Function.update s.updates i pc i).Loaded item' _
    rw [Function.update_self, hfound]
    exact hloaded'
  · change (s.items.set sess.i item')[k]? = rblist[k]?.map fun (item : Cfgitem) =>
      item.counted (workersWith s.system (Function.update s.updates i pc) (Session.asks k)).card
        (workersWith s.system (Function.update s.updates i pc) (Session.scores k)).card
    rw [card_askers_update hsess hpc hasked, card_scorers_update hsess hpc hanswered]
    by_cases hk : k = sess.i
    · subst hk
      have hitems := hitem.symm.trans (h.items sess.i)
      obtain ⟨first, hfirst, rfl⟩ := Option.map_eq_some_iff.mp hitems.symm
      rw [List.getElem?_set_self hlt, hitem', hfirst, Option.map_some, UpdatePc.counted_counted]
      simp [hfound]
    · rw [List.getElem?_set_ne (Ne.symm hk), h.items k]
      simp [hk]

/-! ### The counters of a run -/

/-- Seen through the system, a run with the counters is a run of the system. -/
theorem run_system {ok : Counted → Action → Prop}
    (hrun : Run (step maxthreads jobs) ok (init appstate rblist) w t) :
    ∃ v, Run (System.step maxthreads jobs) (fun _ _ => True) (System.init appstate rblist) v
      t.system := by
  refine hrun.simulate Counted.system ?_
  intro s a s' _ hstep
  cases a with
  | system a =>
    obtain ⟨-, hstep⟩ := Option.ite_none_right_eq_some.mp hstep
    obtain ⟨system, hsystem, rfl⟩ := Option.map_eq_some_iff.mp hstep
    exact .inr ⟨a, trivial, hsystem⟩
  | update i =>
    obtain ⟨sess, d, item, item', pc, -, -, -, -, -, rfl⟩ := updateStep_cases hstep
    exact .inl rfl

theorem Exact.run {ok : Counted → Action → Prop}
    (hrun : Run (step maxthreads jobs) ok (init appstate rblist) w t) : Exact rblist t := by
  induction hrun with
  | nil => exact exact_init appstate rblist
  | @snoc _ s s' a hrun _ hstep ih =>
    obtain ⟨v, hsystem⟩ := run_system hrun
    cases a with
    | system a =>
      obtain ⟨hcomplete, hstep⟩ := Option.ite_none_right_eq_some.mp hstep
      obtain ⟨system, hstep', rfl⟩ := Option.map_eq_some_iff.mp hstep
      exact ih.systemStep (fun i sess => System.inv_of_run hsystem) hcomplete hstep'
    | update i => exact ih.updateStep (System.guarded_run hsystem .rblist) hstep

theorem countWith_of_quiet (hquiet : ∀ i, ¬ t.system.HoldsMutex .rblist (.worker i))
    (hsess : t.system.sessions[i]? = some sess) (stored : Bool) :
    sess.countWith stored = sess.talliedCount :=
  Session.countWith_of_ne (fun hpc => hquiet i (holdsMutex_rblist hsess hpc)) stored

/-- Outside of the updates a request has stored the `questions` of the items it has tallied. -/
theorem askers_eq (hquiet : ∀ i, ¬ t.system.HoldsMutex .rblist (.worker i)) (k : Nat) :
    t.askers k = t.system.talliedBy k := by
  apply Finset.filter_congr
  intro i _
  cases hsess : t.system.sessions[i]? with
  | none => rfl
  | some sess =>
    rw [Option.any_some, Option.any_some, Session.asks, countWith_of_quiet hquiet hsess]

theorem scorers_eq (hquiet : ∀ i, ¬ t.system.HoldsMutex .rblist (.worker i)) (k : Nat) :
    t.scorers k = t.system.scoredBy k := by
  rw [System.scoredBy, System.talliedBy, Finset.filter_filter]
  apply Finset.filter_congr
  intro i _
  cases hsess : t.system.sessions[i]? with
  | none => simp
  | some sess => simp [Session.scores, countWith_of_quiet hquiet hsess]

/-- A request that failed is at no update. -/
theorem updateStep_eq_none
    (hinv : ∀ (i : Nat) (sess : Session), s.system.sessions[i]? = some sess → sess.Inv (jobs i))
    (hfailed : prepareClient (jobs i).request = none) : s.updateStep i = none := by
  by_contra hstep
  obtain ⟨s', hstep⟩ := Option.ne_none_iff_exists'.mp hstep
  obtain ⟨sess, -, -, -, -, hsess, hpc, -⟩ := updateStep_cases hstep
  have hnoerr := (hinv i sess hsess).locking.err_eq_false (by simp [hpc])
  have hprepared := (hinv i sess hsess).records.prepared (by simp [hpc]) hnoerr
  cases hfailed.symm.trans hprepared

/-- For any number of workers on one list, in every run and whatever fails: while no worker is
inside a critical section the counters of an item have grown by the number of the requests that
have tallied it, and of those for which a score other than zero was stored, as `unsigned int`
counts; record `k` of a request is that of item `k`; and no step of a request that failed
before the lookups changes a counter. A list that was just read has all counters at zero. -/
theorem counters_eq (hlist : ∀ i, (jobs i).rblist = rblist)
    (hrun : Run (step maxthreads jobs) (fun _ _ => True) (init appstate rblist) w t) :
    ((∀ i, ¬ t.system.HoldsMutex .rblist (.worker i)) → ∀ k, t.items[k]? =
        rblist[k]?.map fun (item : Cfgitem) =>
          item.counted (t.system.talliedBy k).card (t.system.scoredBy k).card) ∧
      (∀ (i : Nat) (sess : Session), t.system.sessions[i]? = some sess →
        sess.dispatched.map (fun d => d.resdata.rblitem) =
          rblist.take sess.dispatched.length) ∧
      ∀ i, prepareClient (jobs i).request = none → ∀ (a : Action) (t' : Counted),
        a.ofRequest i = true → t.step maxthreads jobs a = some t' → t'.items = t.items := by
  obtain ⟨v, hsystem⟩ := run_system hrun
  have hinv : ∀ (i : Nat) (sess : Session), t.system.sessions[i]? = some sess →
      sess.Inv (jobs i) := fun i sess => System.inv_of_run hsystem
  refine ⟨?_, ?_, ?_⟩
  · intro hquiet k
    rw [(Exact.run hrun).items k, askers_eq hquiet, scorers_eq hquiet]
  · intro i sess hsess
    rw [(hinv i sess hsess).records.items, hlist i]
  · intro i hfailed a t' hrequest hstep
    cases a with
    | system a =>
      -- only the updates write to the items
      obtain ⟨-, hstep⟩ := Option.ite_none_right_eq_some.mp hstep
      obtain ⟨system, -, rfl⟩ := Option.map_eq_some_iff.mp hstep
      rfl
    | update k =>
      obtain rfl : k = i := of_decide_eq_true hrequest
      cases (updateStep_eq_none hinv hfailed).symm.trans hstep

/-- Two clients on the sample list; the second blacklist has only the second of them. -/
def twoClients (i : Nat) : Job :=
  { Session.sampleJob with
    answer := fun j => if i = 0 ∧ j = 1 then none else Session.sampleJob.answer j }

/-- The steps in which a second worker is created beside the first. -/
def secondWorker : List Daemon.Action :=
  Daemon.firstWorker ++ [.server true, .accept .conn] ++ List.replicate 8 (.server true) ++
    [.create (some 2)]

/-- The steps of worker `i` and its two solvers up to its first update. -/
def lookups (i : Nat) : List System.Action :=
  List.replicate 28 (.session i (.worker true)) ++
    List.replicate 6 (.session i (.solver 0 true)) ++
    List.replicate 6 (.session i (.solver 1 true)) ++ List.replicate 4 (.session i (.worker true))

/-- An update of worker `i` with `n` loads and stores, and the unlock behind it. -/
def updateOf (i n : Nat) : List Action :=
  List.replicate n (.update i) ++ List.replicate 2 (.system (.session i (.worker true)))

/-- The steps of worker `i` from one unlock to the next lock. -/
def between (i : Nat) : List Action := List.replicate 4 (.system (.session i (.worker true)))

/-- Both workers tally both items, one item each in turn. -/
def twoRequests : List Action :=
  secondWorker.map (fun a => .system (.daemon a)) ++ (lookups 0).map .system ++ updateOf 0 5 ++
    (lookups 1).map .system ++ updateOf 1 5 ++ between 0 ++ updateOf 0 3 ++ between 1 ++
    updateOf 1 5

/-- Both items have been asked about twice, and the second has been positive once. -/
theorem counters_eq_twoRequests :
    ∃ t, Run (step 10 twoClients) (fun _ _ => True) (init .run Session.sampleJob.rblist)
        twoRequests t ∧
      (∀ k, t.items[k]? = Session.sampleJob.rblist[k]?.map fun (item : Cfgitem) =>
        item.counted (t.system.talliedBy k).card (t.system.scoredBy k).card) ∧
      (t.system.talliedBy 1).card = 2 ∧ (t.system.scoredBy 1).card = 1 ∧
      t.items.map Cfgitem.questions = [2, 2] ∧ t.items.map Cfgitem.positive = [2, 1] := by
  have hexec : (exec (step 10 twoClients) (fun _ _ => True)
      (init .run Session.sampleJob.rblist) twoRequests).any
      (fun t => t.system.sessions.map Session.pc = [.freeHostname, .freeHostname] ∧
        (t.system.talliedBy 1).card = 2 ∧ (t.system.scoredBy 1).card = 1 ∧
        t.items.map Cfgitem.questions = [2, 2] ∧ t.items.map Cfgitem.positive = [2, 1]) =
      true := by decide +kernel
  obtain ⟨t, hrun, hpcs, hcounts⟩ := exists_run_of_exec hexec
  have hquiet : ∀ i, ¬ t.system.HoldsMutex .rblist (.worker i) := by
    intro i hholds
    obtain ⟨sess, hsess, hlocked⟩ := (Option.any_eq_true _ _).mp hholds
    have hmem : sess.pc ∈ t.system.sessions.map Session.pc :=
      List.mem_map_of_mem (List.mem_of_getElem? hsess)
    rw [hpcs] at hmem
    have hpc : sess.pc = .freeHostname := by simpa using hmem
    rw [hpc] at hlocked
    cases hlocked
  have hlist : ∀ i, (twoClients i).rblist = Session.sampleJob.rblist := fun _ => rfl
  exact ⟨t, hrun, (counters_eq hlist hrun).1 hquiet, hcounts⟩

end Counted

end Rblpolicyd
