import Rblpolicyd.System.Replies

/-!
# The list in force

A worker reads the list at `rblist` when it starts on its request, and follows its items until
it has sent the reply; a reload puts another list there. As long as the server frees a list
only behind the sessions, a session that reads what is in force at each of its steps is one
that has had one list from its start, and what holds of the runs with such lists holds here.

## Main definitions

* `Work`, `Work.on` — what a worker works on, for any list
* `System.stepInForce` — a step in which every session uses the list in force
* `System.Attends` — threads and memory are found, and the server frees behind the sessions

## Main results

* `System.stepInForce_eq` — the sessions may as well use lists of their own
* `System.Frozen.of_run` — in such a run each session has one list, from its start to its end
-/

namespace Rblpolicyd

open Semantics

/-- The request on a worker's connection, and the answers of the resolver for any list. -/
structure Work where
  request : ClientRequest
  answer : List Cfgitem → Nat → Option Hostent

/-- The work on a list. -/
def Work.on (work : Work) (rblist : List Cfgitem) : Job where
  request := work.request
  rblist := rblist
  answer := work.answer rblist

namespace Daemon

variable {maxthreads : Int} {s s' : Daemon} {a : Action} {P : List Cfgitem → Prop}

/-- The list in force changes only where the server frees it. -/
theorem rblist_of_step (hstep : s.step maxthreads a = some s') :
    s'.rblist = s.rblist ∨ s.FreesList ∧ ∃ ok, a = .server ok := by
  cases step_cases hstep with
  | @server ok _ h =>
    cases h with
    | free hpc => exact .inr ⟨.inr ⟨_, hpc⟩, ok, rfl⟩
    | mainFree hpc => exact .inr ⟨.inl hpc, ok, rfl⟩
    | _ => exact .inl rfl
  | worker _ h => cases h <;> exact .inl rfl
  | _ => exact .inl rfl

/-- What holds of the list in force and of the one that is about to replace it. -/
def Lists (P : List Cfgitem → Prop) (s : Daemon) : Prop :=
  P s.rblist ∧ ∀ newlist, s.pc = .reloadFree newlist → P newlist

theorem Lists.step (h : s.Lists P) (hnil : P [])
    (hread : ∀ newlist, a = .read (some newlist) → P newlist)
    (hstep : s.step maxthreads a = some s') : s'.Lists P := by
  obtain ⟨hin, hnew⟩ := h
  cases step_cases hstep with
  | server h =>
    cases h with
    | free hpc => exact ⟨hnew _ hpc, nofun⟩
    | mainFree hpc => exact ⟨hnil, nofun⟩
    | move hmove => cases hmove <;> exact ⟨hin, nofun⟩
    | @unlock _ res _ =>
      refine ⟨hin, fun newlist hpc => ?_⟩
      by_cases hres : res = 0 <;> simp [hres] at hpc
    | exitDirect hpc hmgr => exact ⟨hin, hnew⟩
    | exitWait hpc hmgr => exact ⟨hin, hnew⟩
    | exitMain hpc => exact ⟨hin, hnew⟩
    | _ => exact ⟨hin, nofun⟩
  | read hpc =>
    refine ⟨hin, fun newlist heq => ?_⟩
    obtain rfl := ServerPc.reloadFree.inj heq
    exact hread _ rfl
  | worker _ h =>
    have hpc := h.pc_eq
    have hlist : s'.rblist = s.rblist := by cases h <;> rfl
    exact ⟨hlist ▸ hin, fun newlist heq => hnew newlist (hpc ▸ heq)⟩
  | kill _ _ _ => exact ⟨hin, hnew⟩
  | xalloc => exact ⟨hin, hnew⟩
  | sigterm => exact ⟨hin, hnew⟩
  | reload => exact ⟨hin, hnew⟩
  | _ => exact ⟨hin, nofun⟩

end Daemon

/-- The work on the list is no matter to a session behind its reply. -/
theorem Session.Healthy.step_congr {job : Job} {s : Session} (h : s.Healthy job) (job' : Job)
    (hpc : s.pc = .returned) (a : Session.Action) : s.step job a = s.step job' a := by
  cases a with
  | worker ok => simp only [Session.step, Session.workerStep, hpc]
  | wake => rfl
  | kill j => rfl
  | solver j ok =>
    cases hd : s.dispatched[j]? with
    | none => simp only [Session.step, Session.solverStep, hd]
    | some d =>
      cases hsolver : d.solver with
      | none => simp only [Session.step, Session.solverStep, hd, hsolver]
      | some solver =>
        -- no solver has still to store its score
        have hstored : solver.pc ≠ .store := by
          intro hstore
          have hphase := (h.phase_of_pending hd hsolver (by rw [hstore]; rfl)).2
          exact hphase (by rw [hpc]; rfl)
        simp only [Session.step, Session.solverStep, hd, hsolver]
        split_ifs with hkilled
        · rfl
        · cases hsolverPc : solver.pc with
          | store => exact absurd hsolverPc hstored
          | _ => simp only [Session.solverPcStep, hsolverPc]

namespace System

variable {maxthreads : Int} {works : Nat → Work} {jobs jobs' : Nat → Job} {s s' t : System}
  {a : Action} {ok : System → Action → Prop} {w : List Action} {appstate : Appstate}
  {rblist : List Cfgitem} {P : List Cfgitem → Prop} {lists : Nat → List Cfgitem}

/-- A step in which every session works on the list in force. -/
def stepInForce (maxthreads : Int) (works : Nat → Work) (s : System) (a : Action) :
    Option System :=
  s.step maxthreads (fun i => (works i).on s.daemon.rblist) a

/-- What `cfg_read` returns is as expected. -/
def Reads (P : List Cfgitem → Prop) : Action → Prop
  | .daemon (.read (some newlist)) => P newlist
  | _ => True

/-- Threads can be created, memory is found, the server leaves its loop and its wait while no
worker uses the list, and the lists that it reads are as expected. -/
def Attends (P : List Cfgitem → Prop) (s : System) (a : Action) : Prop :=
  s.Succeeds a ∧ s.LeavesIdle a ∧ Reads P a

instance [DecidablePred P] : (a : Action) → Decidable (Reads P a)
  | .daemon (.read (some newlist)) => inferInstanceAs (Decidable (P newlist))
  | .daemon (.read none) => isTrue trivial
  | .daemon (.server _) | .daemon (.accept _) | .daemon (.create _) | .daemon (.worker _)
  | .daemon (.kill _) | .daemon (.xalloc _) | .daemon .sigterm | .daemon .reload
  | .session _ _ => isTrue trivial

instance [DecidablePred P] (s : System) (a : Action) : Decidable (Attends P s a) :=
  inferInstanceAs (Decidable (s.Succeeds a ∧ s.LeavesIdle a ∧ Reads P a))

theorem Attends.mono {Q : List Cfgitem → Prop} (himp : ∀ newlist, P newlist → Q newlist)
    (h : Attends P s a) : Attends Q s a := by
  obtain ⟨hsucceeds, hidle, hread⟩ := h
  refine ⟨hsucceeds, hidle, ?_⟩
  unfold Reads at hread ⊢
  split at hread
  · exact himp _ hread
  · trivial

/-! ### The work that a step depends on -/

/-- A step depends on the work of the workers that have been created. -/
theorem step_congr (hsame : ∀ i < s.sessions.length, jobs i = jobs' i) :
    s.step maxthreads jobs a = s.step maxthreads jobs' a := by
  cases a with
  | daemon a => rfl
  | session i a =>
    cases hsess : s.sessions[i]? with
    | none => simp only [step, hsess]
    | some sess =>
      have hi : i < s.sessions.length := (List.getElem?_eq_some_iff.mp hsess).1
      simp only [step, hsess, hsame i hi]

theorem length_sessions_of_step (hstep : s.step maxthreads jobs a = some s') :
    s.sessions.length ≤ s'.sessions.length := by
  cases step_cases hstep with
  | daemon _ _ _ => simp
  | session _ _ _ _ => simp

/-- And so does a run. -/
theorem run_congr (hrun : Run (step maxthreads jobs) ok s w t)
    (hsame : ∀ i < t.sessions.length, jobs i = jobs' i) : Run (step maxthreads jobs') ok s w t := by
  induction hrun with
  | nil => exact .nil
  | @snoc w t u a _ hok hstep ih =>
    have hle := length_sessions_of_step hstep
    have hbefore : ∀ i < t.sessions.length, jobs i = jobs' i :=
      fun i hi => hsame i (hi.trans_le hle)
    exact (ih hbefore).snoc hok ((step_congr hbefore).symm.trans hstep)

/-! ### Sessions with lists of their own -/

/-- Session `i` has not returned, or has not been started. -/
def Pending (s : System) (i : Nat) : Prop := ∀ sess ∈ s.sessions[i]?, sess.pc ≠ .returned

/-- A session that is pending behind a step is so in front of it. -/
theorem Pending.of_step {i : Nat} (h : s'.Pending i)
    (hstep : s.step maxthreads jobs a = some s') : s.Pending i := by
  intro sess hsess hreturned
  cases step_cases hstep with
  | daemon _ _ _ =>
    have hi := (List.getElem?_eq_some_iff.mp hsess).1
    exact h sess ((List.getElem?_append_left hi).trans hsess) hreturned
  | @session k a before after _ _ _ hbefore hsession =>
    have hafter := getElem?_set hbefore after i
    split_ifs at hafter with hki
    · subst hki
      obtain rfl := Option.some.inj (hbefore.symm.trans hsess)
      exact h after hafter (returned_session hreturned hsession)
    · exact h sess (hafter.trans hsess) hreturned

/-- A run with a list for each session, which is the list in force until the session returns. -/
structure Frozen (maxthreads : Int) (works : Nat → Work) (P : List Cfgitem → Prop)
    (appstate : Appstate) (rblist : List Cfgitem) (w : List Action) (t : System)
    (lists : Nat → List Cfgitem) : Prop where
  run : Run (step maxthreads fun i => (works i).on (lists i))
    (fun s a => s.Succeeds a ∧ s.LeavesIdle a) (init appstate rblist) w t
  inForce : ∀ i, t.Pending i → lists i = t.daemon.rblist
  expected : ∀ i, P (lists i)

/-- Where the sessions that are pending have the list in force, a step in which they use the
list in force is one in which they use their own. -/
theorem stepInForce_eq (hcoherent : Coherent maxthreads (fun i => (works i).on (lists i)) t)
    (hinForce : ∀ i, t.Pending i → lists i = t.daemon.rblist) :
    t.stepInForce maxthreads works a = t.step maxthreads (fun i => (works i).on (lists i)) a := by
  cases a with
  | daemon a => rfl
  | session i a =>
    cases hsess : t.sessions[i]? with
    | none => simp only [stepInForce, step, hsess]
    | some sess =>
      by_cases hpc : sess.pc = .returned
      · have hsame := (hcoherent.healthy i sess hsess).step_congr
          ((works i).on t.daemon.rblist) hpc a
        simp only [stepInForce, step, hsess, hsame]
      · have hlist : lists i = t.daemon.rblist := by
          apply hinForce
          intro other hother
          obtain rfl := Option.some.inj (hsess.symm.trans hother)
          exact hpc
        simp only [stepInForce, step, hsess, hlist]

theorem Frozen.coherent (h : Frozen maxthreads works P appstate rblist w t lists)
    (hmax : 0 < maxthreads) : Coherent maxthreads (fun i => (works i).on (lists i)) t :=
  .run hmax (h.run.mono fun _ _ hok => hok.1)

/-- A step that leaves the list in force where it is. -/
theorem Frozen.keep (h : Frozen maxthreads works P appstate rblist w t lists)
    (hok : t.Succeeds a ∧ t.LeavesIdle a)
    (hstep : t.step maxthreads (fun i => (works i).on (lists i)) a = some s')
    (hsame : s'.daemon.rblist = t.daemon.rblist) :
    Frozen maxthreads works P appstate rblist (w ++ [a]) s' lists where
  run := h.run.snoc hok hstep
  inForce i hpending := by
    rw [hsame]
    exact h.inForce i (hpending.of_step hstep)
  expected := h.expected

/-- A step that puts another list in force is behind the return of all sessions. -/
theorem Frozen.replace (h : Frozen maxthreads works P appstate rblist w t lists)
    (hok : t.Succeeds a ∧ t.LeavesIdle a)
    (hstep : t.step maxthreads (fun i => (works i).on (lists i)) a = some s')
    (hsessions : s'.sessions = t.sessions)
    (hreturned : ∀ sess ∈ t.sessions, sess.pc = .returned) (hnew : P s'.daemon.rblist) :
    Frozen maxthreads works P appstate rblist (w ++ [a]) s'
      (fun i => if i < t.sessions.length then lists i else s'.daemon.rblist) where
  run := by
    refine run_congr (h.run.snoc hok hstep) fun i hi => ?_
    rw [hsessions] at hi
    rw [if_pos hi]
  inForce i hpending := by
    rw [if_neg]
    intro hi
    have hsess : s'.sessions[i]? = some t.sessions[i] := by
      rw [hsessions, List.getElem?_eq_getElem hi]
    exact hpending _ hsess (hreturned _ (List.getElem_mem hi))
  expected i := by
    split_ifs
    · exact h.expected i
    · exact hnew

/-- Where the server frees lists behind the sessions, a run in which every session works on the
list in force is one in which each has had one list, that was in force until it returned. -/
theorem Frozen.of_run (hmax : 0 < maxthreads) (hnil : P []) (hinit : P rblist)
    (hrun : Run (stepInForce maxthreads works) (Attends P) (init appstate rblist) w t) :
    (∃ lists, Frozen maxthreads works P appstate rblist w t lists) ∧ t.daemon.Lists P := by
  induction hrun with
  | nil =>
    refine ⟨⟨fun _ => rblist, .nil, fun _ _ => rfl, fun _ => hinit⟩, hinit, ?_⟩
    nofun
  | @snoc w t u a _ hok hstep ih =>
    obtain ⟨⟨lists, hfrozen⟩, hlists⟩ := ih
    obtain ⟨hsucceeds, hidle, hread⟩ := hok
    rw [stepInForce_eq (hfrozen.coherent hmax) hfrozen.inForce] at hstep
    cases step_cases hstep with
    | session _ _ _ _ =>
      exact ⟨⟨lists, hfrozen.keep ⟨hsucceeds, hidle⟩ hstep rfl⟩, hlists⟩
    | @daemon a daemon owners _ _ hdaemon =>
      have hnext := hlists.step hnil (fun newlist heq => by rwa [heq] at hread) hdaemon
      refine ⟨?_, hnext⟩
      by_cases hsame : daemon.rblist = t.daemon.rblist
      · exact ⟨lists, hfrozen.keep ⟨hsucceeds, hidle⟩ hstep hsame⟩
      · obtain ⟨hfrees, ok, rfl⟩ := (Daemon.rblist_of_step hdaemon).resolve_left hsame
        have hsessions : t.sessions ++ newSessions (.server ok) = t.sessions :=
          List.append_nil _
        refine ⟨_, hfrozen.replace ⟨hsucceeds, hidle⟩ hstep hsessions ?_ hnext.1⟩
        intro sess hsess
        obtain ⟨i, hi⟩ := List.getElem?_of_mem hsess
        exact freesList_returned hmax hfrozen.run hfrees hi

end System

end Rblpolicyd
