import Mathlib.Algebra.Order.BigOperators.Group.Finset
import Rblpolicyd.Session.Termination
import Rblpolicyd.System.Deadlock
import Rblpolicyd.System.InForce

/-!
# Every request is answered

Every step of a thread that handles a request takes from a bound on the steps that are
left: to the server inside `wthread_create`, to the workers on their way to
`wthread_exit`, and to the threads of the sessions. As some thread has a step while
there is one that has not finished, every schedule comes to an end, and there all clients
whose workers had not returned have the verdict of their requests under the list in force.
Wake-ups without a broadcast are left out, for a worker could be kept busy with them for
good.

## Main definitions

* `System.GoesOn` — a thread that handles a request takes a step
* `Weighed` — the weights of a list are positive, and an `int` holds their sum
* `System.Answered` — all threads have finished, and all clients have their verdict
* `System.remaining` — a bound on the steps that are left

## Main results

* `System.Coherent.remaining_lt` — every step takes from the bound
* `System.Coherent.leads` — every schedule gets to an end
* `System.answers` — and by then it has answered all requests
-/

namespace Rblpolicyd

open Semantics

/-- The weights of the list are positive, and an `int` holds their sum. -/
def Weighed (rblist : List Cfgitem) : Prop :=
  (∀ item ∈ rblist, 0 < item.weight) ∧ (rblist.map Cfgitem.weight).sum ≤ 2 ^ 31 - 1

instance : DecidablePred Weighed := fun rblist =>
  inferInstanceAs (Decidable ((∀ item ∈ rblist, 0 < item.weight) ∧
    (rblist.map Cfgitem.weight).sum ≤ 2 ^ 31 - 1))

namespace Daemon

variable {maxthreads : Int} {s s' : Daemon} {ok : Bool}

/-- The server leaves the workers where they are. -/
theorem ServerStep.workers_remaining (h : ServerStep maxthreads s ok s') :
    (s'.workers.map fun worker => worker.phase.remaining) =
      s.workers.map fun worker => worker.phase.remaining := by
  cases h with
  | cancel _ => exact remaining_cancelLast _
  | _ => rfl

end Daemon

namespace System

variable {maxthreads : Int} {jobs : Nat → Job} {works : Nat → Work} {s s' t : System} {a : Action}
  {i : Nat} {sess sess' : Session} {w : List Action} {appstate : Appstate}
  {rblist : List Cfgitem} {lists : Nat → List Cfgitem}

/-- A thread that has not finished takes a step, and finds the threads and the memory that it
asks for; the server does so inside `wthread_create` only, and takes no other connection. -/
def GoesOn (s : System) (a : Action) : Prop :=
  s.Succeeds a ∧ ∃ p, a.thread = some p ∧ s.Live p

/-- All threads that handle requests have finished under the list in force, and every session
that was pending has written the verdict of its request. -/
structure Answered (works : Nat → Work) (s t : System) : Prop where
  finished : ∀ p, ¬ t.Live p
  inForce : t.daemon.rblist = s.daemon.rblist
  replied : ∀ (i : Nat) (sess : Session), t.sessions[i]? = some sess → sess.pc = .returned ∧
    (s.Pending i → bytesSent sess.written = some (verdict ((works i).on s.daemon.rblist)))

/-! ### The bound -/

/-- A bound on the steps that are left to the session of worker `i`. -/
def sessionRemaining (jobs : Nat → Job) (s : System) (i : Nat) : Nat :=
  match s.sessions[i]? with
  | none => 0
  | some sess => sess.remaining (jobs i)

/-- The same for a session whose worker is about to be created. -/
def openRemaining (jobs : Nat → Job) (s : System) : Nat :=
  if ServerPc.createThread.remaining ≤ s.daemon.pc.remaining then
    Session.init.remaining (jobs s.sessions.length)
  else 0

/-- A bound on the steps that are left to all threads that handle requests. -/
def remaining (jobs : Nat → Job) (s : System) : Nat :=
  s.daemon.remaining + s.openRemaining jobs +
    ∑ i ∈ Finset.range s.sessions.length, s.sessionRemaining jobs i

theorem sessionRemaining_set (hsess : s.sessions[i]? = some sess)
    (hlt : sess'.remaining (jobs i) < sess.remaining (jobs i)) (owners : Mutex → Option Tid) :
    remaining jobs { s with sessions := s.sessions.set i sess', owners := owners } <
      s.remaining jobs := by
  have hi := (List.getElem?_eq_some_iff.mp hsess).1
  have hlength : (s.sessions.set i sess').length = s.sessions.length := List.length_set ..
  have hopen : openRemaining jobs { s with sessions := s.sessions.set i sess', owners := owners } =
      s.openRemaining jobs := by
    simp only [openRemaining, hlength]
  have hterm : ∀ k, sessionRemaining jobs
      { s with sessions := s.sessions.set i sess', owners := owners } k =
        if i = k then sess'.remaining (jobs k) else s.sessionRemaining jobs k := by
    intro k
    simp only [sessionRemaining, getElem?_set hsess]
    split_ifs <;> rfl
  rw [remaining, remaining, hopen]
  apply Nat.add_lt_add_left
  rw [hlength]
  apply Finset.sum_lt_sum
  · intro k _
    rw [hterm]
    split_ifs with hik
    · subst hik
      rw [sessionRemaining, hsess]
      exact hlt.le
    · exact le_rfl
  · refine ⟨i, Finset.mem_range.mpr hi, ?_⟩
    rw [hterm, if_pos rfl, sessionRemaining, hsess]
    exact hlt

/-- A step of the daemon that creates no worker. -/
theorem remaining_of_daemon {daemon : Daemon} {owners : Mutex → Option Tid}
    (hlt : daemon.remaining < s.daemon.remaining)
    (hpc : daemon.pc.remaining ≤ s.daemon.pc.remaining) :
    remaining jobs ⟨daemon, s.sessions ++ [], owners⟩ < s.remaining jobs := by
  rw [List.append_nil]
  have hopen : openRemaining jobs ⟨daemon, s.sessions, owners⟩ ≤ s.openRemaining jobs := by
    unfold openRemaining
    dsimp only
    split_ifs with hbefore hafter
    · exact le_rfl
    · exact absurd (hbefore.trans hpc) hafter
    · exact Nat.zero_le _
    · exact le_rfl
  have hsessions : ∀ k, sessionRemaining jobs ⟨daemon, s.sessions, owners⟩ k =
      s.sessionRemaining jobs k := fun _ => rfl
  simp only [remaining, hsessions]
  omega

/-- The session of the new worker is paid for. -/
theorem remaining_of_created {daemon : Daemon} {tid : Nat} {owners : Mutex → Option Tid}
    (hlt : daemon.remaining < s.daemon.remaining) (hbefore : s.daemon.pc = .createThread)
    (hafter : daemon.pc = .createRegister tid) :
    remaining jobs ⟨daemon, s.sessions ++ [Session.init], owners⟩ < s.remaining jobs := by
  have hopen : s.openRemaining jobs = Session.init.remaining (jobs s.sessions.length) := by
    rw [openRemaining, hbefore, if_pos le_rfl]
  have hspent : openRemaining jobs ⟨daemon, s.sessions ++ [Session.init], owners⟩ = 0 := by
    simp [openRemaining, hafter, ServerPc.remaining]
  have hold : ∑ k ∈ Finset.range s.sessions.length,
      sessionRemaining jobs ⟨daemon, s.sessions ++ [Session.init], owners⟩ k =
        ∑ k ∈ Finset.range s.sessions.length, s.sessionRemaining jobs k := by
    apply Finset.sum_congr rfl
    intro k hk
    simp only [sessionRemaining, List.getElem?_append_left (Finset.mem_range.mp hk)]
  have hnew : sessionRemaining jobs ⟨daemon, s.sessions ++ [Session.init], owners⟩
      s.sessions.length = Session.init.remaining (jobs s.sessions.length) := by
    simp [sessionRemaining]
  simp only [remaining, hopen, hspent, List.length_append, List.length_singleton]
  rw [Finset.sum_range_succ, hnew, hold]
  omega

/-! ### The steps -/

/-- Every step of a thread that handles a request takes from the steps that are left. -/
theorem Coherent.remaining_lt (h : Coherent maxthreads jobs s) (hmax : 0 < maxthreads)
    (hok : s.GoesOn a) (hstep : s.step maxthreads jobs a = some s') :
    s'.daemon.exited = s.daemon.exited ∧ s'.remaining jobs < s.remaining jobs := by
  obtain ⟨hsucceeds, p, hthread, hlive⟩ := hok
  cases step_cases hstep with
  | @daemon a daemon owners _ _ hdaemon =>
    have hlocking := h.pool.locking
    cases Daemon.step_cases hdaemon with
    | server hserver =>
      obtain rfl : Tid.server = p := Option.some.inj hthread
      obtain ⟨-, hlt, hexited⟩ := hserver.handles hmax hlocking (handling_of_creating hlive)
      refine ⟨hexited, remaining_of_daemon hlt ?_⟩
      have hworkers := hserver.workers_remaining
      simp only [Daemon.remaining, hworkers] at hlt
      omega
    | createFails _ => cases hsucceeds.2
    | created hpc _ =>
      refine ⟨rfl, remaining_of_created (Daemon.remaining_append rfl ?_) hpc rfl⟩
      simp [hpc, ServerPc.remaining]
    | worker hworker hexit =>
      obtain ⟨hpc, -, hlt, hexited⟩ := hexit.handles hlocking hworker
      exact ⟨hexited, remaining_of_daemon hlt (by rw [hpc])⟩
    | _ => cases hthread
  | @session i a sess sess' owners _ _ hsess hsession =>
    refine ⟨rfl, sessionRemaining_set hsess ?_ owners⟩
    cases a with
    | worker ok => exact (Session.workerStep_cases hsession).remaining_lt
    | solver j ok =>
      obtain ⟨d, solver, hd, hsolver, -, hcases⟩ := Session.solverStep_cases hsession
      exact hcases.remaining_lt hd hsolver
    | wake => cases hthread
    | kill j => cases hthread

/-! ### The end -/

/-- Where no thread is left, every session has returned behind its reply. -/
theorem Coherent.answered (h : Coherent maxthreads (fun i => (works i).on (lists i)) s)
    (hfinished : ∀ p, ¬ s.Live p) (hweighed : Weighed (lists i))
    (hsess : s.sessions[i]? = some sess) :
    sess.pc = .returned ∧ bytesSent sess.written = some (verdict ((works i).on (lists i))) := by
  have hpc : sess.pc = .returned := by
    by_contra hpc
    exact hfinished _ (h.live_of_session hsess hpc)
  refine ⟨hpc, (h.healthy i sess hsess).inv.bytesSent_written hweighed.1 hweighed.2 ?_ ?_⟩
  · rw [hpc]
    rfl
  · rw [hpc]
    nofun

/-- From a coherent state every schedule of the threads gets to one where none is left. -/
theorem Coherent.leads (h : Coherent maxthreads jobs s) (hmax : 0 < maxthreads)
    (hruns : s.daemon.exited = none) :
    Leads (System.step maxthreads jobs) GoesOn GoesOn
      (fun t => Coherent maxthreads jobs t ∧ ∀ p, ¬ t.Live p) s := by
  apply leads_of_measure (fun s => Coherent maxthreads jobs s ∧ s.daemon.exited = none)
    (System.remaining jobs)
  · rintro s ⟨h, hruns⟩ hgoal
    -- somebody is left, and the one of them who waits for nobody has a step
    have hlive : ∃ p, s.Live p := by
      by_contra hnone
      exact hgoal ⟨h, not_exists.mp hnone⟩
    obtain ⟨p, hlive⟩ := hlive
    obtain ⟨q, hq, hfree⟩ := exists_not_waiting rank_le
      (fun _ _ _ hwaits => h.held_of_waits hmax hwaits) h.rankOrdered hlive
    obtain ⟨a, t, hthread, hok, hstep⟩ := h.enabled hmax hruns hq hfree
    exact ⟨a, t, ⟨hok, q, hthread, hq⟩, hstep⟩
  · rintro s a s' ⟨h, hruns⟩ - hok hstep
    obtain ⟨hexited, hlt⟩ := h.remaining_lt hmax hok hstep
    exact ⟨⟨h.step hmax hok.1 hstep, hexited.trans hruns⟩, hlt⟩
  · exact ⟨h, hruns⟩

/-- The threads that handle requests leave the list in force where it is. -/
theorem rblist_of_goesOn (hok : s.GoesOn a) (hstep : s.step maxthreads jobs a = some s') :
    s'.daemon.rblist = s.daemon.rblist := by
  obtain ⟨-, p, hthread, hlive⟩ := hok
  cases step_cases hstep with
  | session _ _ _ _ => rfl
  | daemon _ _ hdaemon =>
    rcases Daemon.rblist_of_step hdaemon with hsame | ⟨hfrees, ok, rfl⟩
    · exact hsame
    · obtain rfl : Tid.server = p := Option.some.inj hthread
      have hcreating : s.daemon.pc.creating = true := hlive
      rcases hfrees with hpc | ⟨newlist, hpc⟩
      · rw [hpc] at hcreating
        cases hcreating
      · rw [hpc] at hcreating
        cases hcreating

/-- Behind a run in which the server frees lists behind the sessions every schedule of the
threads comes to an end, and there the sessions that were pending have their replies. -/
theorem Frozen.leads (h : Frozen maxthreads works Weighed appstate rblist w t lists)
    (hmax : 0 < maxthreads) (hruns : t.daemon.exited = none) :
    Leads (stepInForce maxthreads works) GoesOn GoesOn (Answered works t) t := by
  have hcoherent := h.coherent hmax
  -- with a list for each session, and the list in force as it is
  have hleads := (hcoherent.leads hmax hruns).congr (stepInForce maxthreads works)
    (fun s => Coherent maxthreads (fun i => (works i).on (lists i)) s ∧
      (∀ i, s.Pending i → lists i = s.daemon.rblist) ∧ s.daemon.rblist = t.daemon.rblist)
    ⟨hcoherent, h.inForce, rfl⟩ (fun s a hinv => stepInForce_eq hinv.1 hinv.2.1) ?_
  · apply hleads.imp
    rintro s ⟨⟨hcoherent, -, hsame⟩, -, hfinished⟩
    refine ⟨hfinished, hsame, fun i sess hsess => ?_⟩
    obtain ⟨hpc, hbytes⟩ := hcoherent.answered hfinished (h.expected i) hsess
    refine ⟨hpc, fun hpending => ?_⟩
    rw [← h.inForce i hpending]
    exact hbytes
  · rintro s a s' ⟨hcoherent, hinForce, hsame⟩ hok hstep
    have hlist := rblist_of_goesOn hok hstep
    refine ⟨hcoherent.step hmax hok.1 hstep, fun i hpending => ?_, hlist.trans hsame⟩
    rw [hlist]
    exact hinForce i (hpending.of_step hstep)

/-- In every run in which threads can be created, memory is found and the server frees lists
behind the sessions: no more requests than the limit are under way, and however their threads
are scheduled from there on, they come to an end, and then every client whose worker had not
returned has been sent the verdict of its request under the list in force. -/
theorem answers (hmax : 0 < maxthreads) (hinit : Weighed rblist)
    (hrun : Run (stepInForce maxthreads works) (Attends Weighed) (init appstate rblist) w t)
    (hruns : t.daemon.exited = none) :
    ((t.sessions.countP fun sess => sess.pc ≠ .returned : Nat) : Int) ≤ maxthreads ∧
      Leads (stepInForce maxthreads works) GoesOn GoesOn (Answered works t) t := by
  obtain ⟨⟨lists, hfrozen⟩, -⟩ := Frozen.of_run hmax ⟨nofun, by decide⟩ hinit hrun
  exact ⟨running_le hmax (hfrozen.run.mono fun _ _ hok => hok.1), hfrozen.leads hmax hruns⟩

/-- The request of the sample, with an answer that does not depend on the list. -/
def sampleWork : Work where
  request := Session.sampleJob.request
  answer _ := Session.sampleJob.answer

/-- From the sleep of the only worker on. -/
theorem answers_sleepingRun :
    ∃ t, Run (stepInForce 10 fun _ => sampleWork) (Attends Weighed)
        (init .run Session.sampleJob.rblist) sleepingRun t ∧
      t.sessions.map Session.pc = [.asleep] ∧
      Leads (stepInForce 10 fun _ => sampleWork) GoesOn GoesOn
        (Answered (fun _ => sampleWork) t) t := by
  have hexec : (exec (stepInForce 10 fun _ => sampleWork) (Attends Weighed)
      (init .run Session.sampleJob.rblist) sleepingRun).any
      (fun t => t.sessions.map Session.pc = [.asleep] ∧ t.daemon.exited = none) = true := by
    decide +kernel
  obtain ⟨t, hrun, hasleep, hruns⟩ := exists_run_of_exec hexec
  exact ⟨t, hrun, hasleep, (answers (by decide) (by decide) hrun hruns).2⟩

end System

end Rblpolicyd
