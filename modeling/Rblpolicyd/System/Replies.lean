import Rblpolicyd.Daemon.ListLifetime
import Rblpolicyd.Session.Verdict
import Rblpolicyd.System.Coherence

/-!
# What the daemon does for its clients

The results about one session and about the pool, seen in the whole daemon. However its
requests and their solvers interleave, every client gets the verdict of its own request,
no more requests than the configuration allows are under way, and the list is not taken
away from them as long as the server stops and reloads between requests.

## Main definitions

* `System.LeavesIdle` — the server does not leave its loop or its wait while there are workers

## Main results

* `System.replies_verdict` — what any session writes is the verdict of its request
* `System.running_le` — the sessions that have not returned are within the limit
* `System.freesList_returned` — the list is freed behind the sessions
-/

namespace Rblpolicyd

open Libc Semantics

namespace System

variable {maxthreads : Int} {jobs : Nat → Job} {s t : System} {i : Nat} {sess : Session}
  {w : List Action} {appstate : Appstate} {rblist : List Cfgitem}

/-- In every run of the daemon a session that is behind its reply has written the verdict of its
own request, whatever the other requests are and whatever fails. -/
theorem replies_verdict (hpos : ∀ item ∈ (jobs i).rblist, 0 < item.weight)
    (hmax : ((jobs i).rblist.map Cfgitem.weight).sum ≤ 2 ^ 31 - 1)
    (hrun : Run (step maxthreads jobs) (fun _ _ => True) (init appstate rblist) w t)
    (hsess : t.sessions[i]? = some sess) (hphase : sess.pc.phase = .replying)
    (hpc : sess.pc ≠ .reply) : bytesSent sess.written = some (verdict (jobs i)) := by
  have hok : ∀ (s : System) (k : Nat) (a : Session.Action) (sess : Session),
      True → s.sessions[k]? = some sess → True := fun _ _ _ _ _ _ => trivial
  obtain ⟨v, hsession⟩ := run_session hok hrun i sess hsess
  have hinv : Session.Inv (jobs i) sess := .run hsession
  exact hinv.bytesSent_written hpos hmax hphase hpc

/-! ### The sessions that have not returned -/

/-- What holds in one list wherever it holds in the other holds there at least as often. -/
theorem countP_le_of_forall₂ {α β : Type*} {p : α → Bool} {q : β → Bool} {xs : List α}
    {ys : List β} (h : List.Forall₂ (fun x y => p x = true → q y = true) xs ys) :
    xs.countP p ≤ ys.countP q := by
  induction h with
  | nil => rfl
  | @cons x y xs ys himp _ ih =>
    rw [List.countP_cons, List.countP_cons]
    by_cases hx : p x = true
    · rw [if_pos hx, if_pos (himp hx)]
      exact Nat.succ_le_succ ih
    · rw [if_neg hx]
      exact ih.trans (Nat.le_add_right _ _)

/-- A session that has not returned is the body of its worker. -/
theorem Coherent.forall₂_running (h : Coherent maxthreads jobs s) :
    List.Forall₂ (fun (sess : Session) (worker : PoolWorker) =>
      decide (sess.pc ≠ .returned) = true → worker.phase.registered = true)
      s.sessions s.daemon.workers := by
  apply List.forall₂_iff_get.mpr
  refine ⟨h.length, ?_⟩
  intro i hsess hworker hrunning
  have hbody : (s.daemon.workers.get ⟨i, hworker⟩).phase = .body := by
    by_contra hphase
    have hreturned := h.returned i _ _ (List.getElem?_eq_getElem hworker)
      (List.getElem?_eq_getElem hsess) hphase
    exact of_decide_eq_true hrunning hreturned
  rw [hbody]
  rfl

/-- Of all the sessions that the daemon has started, no more than the limit have not returned. -/
theorem running_le (hmax : 0 < maxthreads)
    (hrun : Run (step maxthreads jobs) Succeeds (init appstate rblist) w t) :
    ((t.sessions.countP fun sess => sess.pc ≠ .returned : Nat) : Int) ≤ maxthreads := by
  have hcoherent := Coherent.run hmax hrun
  have hrunning := countP_le_of_forall₂ hcoherent.forall₂_running
  have hregistered := hcoherent.pool.registered_le hmax
  omega

/-! ### The list under the sessions -/

/-- The server leaves its loop and its wait while no worker uses the list. -/
def LeavesIdle (s : System) : Action → Prop
  | .daemon a => s.daemon.LeavesIdle a
  | .session _ _ => True

instance (s : System) : (a : Action) → Decidable (s.LeavesIdle a)
  | .daemon a => inferInstanceAs (Decidable (s.daemon.LeavesIdle a))
  | .session _ _ => isTrue trivial

/-- With threads and memory at hand, a server that leaves its loop and its wait without workers
frees the list only when every session has returned. -/
theorem freesList_returned (hmax : 0 < maxthreads)
    (hrun : Run (step maxthreads jobs) (fun s a => s.Succeeds a ∧ s.LeavesIdle a)
      (init appstate rblist) w t)
    (hfrees : t.daemon.FreesList) (hsess : t.sessions[i]? = some sess) : sess.pc = .returned := by
  have hcoherent : Coherent maxthreads jobs t := .run hmax (hrun.mono fun _ _ hok => hok.1)
  have hok : ∀ (s : System) (b : Daemon.Action),
      (s.Succeeds (.daemon b) ∧ s.LeavesIdle (.daemon b)) → s.daemon.LeavesIdle b :=
    fun _ _ hok => hok.2
  obtain ⟨v, hdaemon⟩ := run_daemon hok hrun
  -- the workers have left their bodies, and thus their sessions have returned
  have hidle : t.daemon.NoneInBody := Daemon.noneInBody_run hdaemon hfrees.freesSoon
  have hlt : i < t.daemon.workers.length := by
    rw [← hcoherent.length]
    exact (List.getElem?_eq_some_iff.mp hsess).1
  apply hcoherent.returned i _ sess (List.getElem?_eq_getElem hlt) hsess
  intro hbody
  have hexited := hidle _ (List.getElem_mem hlt)
  rw [hbody] at hexited
  cases hexited

end System

end Rblpolicyd
