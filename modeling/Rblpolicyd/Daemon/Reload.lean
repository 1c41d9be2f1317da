import Rblpolicyd.Daemon.ListLifetime
import Rblpolicyd.Daemon.Requests

/-!
# The reload of the configuration

In its branch for `APP_RELOAD` the server waits until no worker is registered, for at most
400 rounds, and reads the configuration. `thr_waitcomplete` is to return the number of the
workers that are still alive, but returns the rounds that are left: the server gives up when
the workers have left in time, and exchanges the list when they have not. Without a manager
the wait ends the process.

## Main definitions

* `Daemon.Watched`, `Daemon.watchStep` — the daemon, with the counts that the wait has seen
* `Daemon.InReloadBranch` — a step during the branch, with the outcome of `cfg_read`
* `Daemon.wantedList` — the list that a reload is to leave
* `Daemon.OutlastsWait` — the last worker leaves behind the last look, but before the wait ends

## Main results

* `Daemon.reload_returns` — with a manager the branch ends
* `Daemon.reload_iff` — when a reload leaves the list that it is to leave
-/

namespace Rblpolicyd

open Semantics

/-- The points of the branch of a reload. -/
def ServerPc.reloads : ServerPc → Bool
  | .waitManager | .reloadWait _ | .reloadRead | .reloadFree _ | .reloadReset => true
  | _ => false

/-- A bound on the steps of the server to the end of the branch. -/
def ServerPc.reloadRemaining : ServerPc → Nat
  | .waitManager => 405
  | .reloadWait err => err + 4
  | .reloadRead => 3
  | .reloadFree _ => 2
  | .reloadReset => 1
  | _ => 0

namespace Daemon

/-- The daemon, and the counts of registered workers at the looks that the wait has taken, in
their order; the last look only finds that no round is left, when it is the 401st. -/
structure Watched where
  daemon : Daemon
  counts : List Nat
  deriving DecidableEq

variable {maxthreads : Int} {s s' t : Daemon} {a : Action} {ok : Bool} {i : Nat} {w : List Action}
  {newlist : Option (List Cfgitem)} {counts : List Nat}

/-- The count of registered workers when the step takes a look at it. -/
def looks (s : Daemon) : Action → List Nat
  | .server _ =>
    match s.pc, s.workermgr with
    | .reloadWait _, some mgr => [mgr.nthreads]
    | _, _ => []
  | _ => []

/-- A step of the daemon. -/
def watchStep (maxthreads : Int) (s : Watched) (a : Action) : Option Watched :=
  (s.daemon.step maxthreads a).map fun daemon => ⟨daemon, s.counts ++ s.daemon.looks a⟩

/-- The outcome of `cfg_read`, in the step in which it returns. -/
def Action.readResult : Action → List (Option (List Cfgitem))
  | .read newlist => [newlist]
  | _ => []

/-- A step during the branch: no signal arrives, and `cfg_read` has the given outcome if it is
called. -/
def InReloadBranch (newlist : Option (List Cfgitem)) (s : Watched) (a : Action) : Prop :=
  s.daemon.pc.reloads = true ∧ a ≠ .sigterm ∧ ∀ res ∈ a.readResult, res = newlist

instance (newlist : Option (List Cfgitem)) (s : Watched) (a : Action) :
    Decidable (InReloadBranch newlist s a) :=
  inferInstanceAs (Decidable (s.daemon.pc.reloads = true ∧ a ≠ .sigterm ∧
    ∀ res ∈ a.readResult, res = newlist))

/-- The branch is over: the server is back in its loop, or has ended the process. -/
def BranchOver (s : Daemon) : Prop := s.pc = .loop ∨ s.exited = some .waitcomplete

/-- The list that a reload is to leave: the new one when there is one and no worker was registered
at the end of the wait. -/
def wantedList (newlist : Option (List Cfgitem)) (rblist : List Cfgitem) (counts : List Nat) :
    List Cfgitem :=
  if counts.getLast? = some 0 then newlist.getD rblist else rblist

/-- The branch has left the process running, and the list that it is to leave. -/
def ReloadsRight (newlist : Option (List Cfgitem)) (s : Daemon) (t : Watched) : Prop :=
  t.daemon.exited = none ∧ t.daemon.rblist = wantedList newlist s.rblist t.counts

/-- At each of the 400 looks some worker is registered, and none is when the rounds are used up. -/
def OutlastsWait (counts : List Nat) : Prop :=
  ∃ busy, counts = busy ++ [0] ∧ busy.length = 400 ∧ ∀ n ∈ busy, n ≠ 0

/-- What the looks and the list have become when the wait is over: the rounds were used up and
`cfg_read` was called, or a look found no worker and it was not. -/
inductive Waited (newlist : Option (List Cfgitem)) (rblist : List Cfgitem) :
    List Nat → List Cfgitem → Prop
  | read {busy : List Nat} (n : Nat) (hlength : busy.length = 400) (hbusy : ∀ n ∈ busy, n ≠ 0) :
      Waited newlist rblist (busy ++ [n]) (newlist.getD rblist)
  | gaveUp {busy : List Nat} (hlength : busy.length < 400) :
      Waited newlist rblist (busy ++ [0]) rblist

/-- The rounds are used up: at each of 400 looks some worker was registered. -/
def UsedUp (counts : List Nat) : Prop :=
  ∃ busy n, counts = busy ++ [n] ∧ busy.length = 400 ∧ ∀ n ∈ busy, n ≠ 0

/-- What holds in the branch, by the point of the server. -/
def AtPoint (newlist : Option (List Cfgitem)) (rblist : List Cfgitem) (s : Watched) : Prop :=
  match s.daemon.pc with
  | .waitManager => s.counts = [] ∧ s.daemon.rblist = rblist
  | .reloadWait err =>
    s.counts.length + err = 400 ∧ (∀ n ∈ s.counts, n ≠ 0) ∧ s.daemon.rblist = rblist
  | .reloadRead => UsedUp s.counts ∧ s.daemon.rblist = rblist
  | .reloadFree items => UsedUp s.counts ∧ newlist = some items
  | .reloadReset => Waited newlist rblist s.counts s.daemon.rblist
  | .loop => Waited newlist rblist s.counts s.daemon.rblist ∧ s.daemon.exited = none
  | _ => False

/-- What holds in every state of the branch that began in the state `s` with the list `rblist`. -/
structure Reloading (newlist : Option (List Cfgitem)) (s : Daemon) (u : Watched) : Prop where
  point : AtPoint newlist s.rblist u
  appstate : u.daemon.pc ≠ .loop → u.daemon.appstate = .reload
  manager : u.daemon.workermgr = none ↔ s.workermgr = none
  waited : u.daemon.pc = .waitManager ∨ s.workermgr ≠ none
  ended : u.daemon.exited = some .waitcomplete → s.workermgr = none

/-! ### The list behind the branch -/

theorem Waited.eq_wantedList_iff {rblist rblist' : List Cfgitem}
    (h : Waited newlist rblist counts rblist') :
    rblist' = wantedList newlist rblist counts ↔
      newlist.getD rblist = rblist ∨ OutlastsWait counts := by
  cases h with
  | @read busy n hlength hbusy =>
    by_cases hn : n = 0
    · subst hn
      have houtlasts : OutlastsWait (busy ++ [0]) := ⟨busy, rfl, hlength, hbusy⟩
      simp [wantedList, houtlasts]
    · have hidle : ¬ OutlastsWait (busy ++ [n]) := by
        rintro ⟨busy', heq, -⟩
        exact hn (List.singleton_inj.mp (List.append_inj' heq rfl).2)
      simp [wantedList, hidle, hn]
  | @gaveUp busy hlength =>
    have hshort : ¬ OutlastsWait (busy ++ [0]) := by
      rintro ⟨busy', heq, hlength', -⟩
      obtain rfl := (List.append_inj' heq rfl).1
      omega
    simp only [wantedList, List.getLast?_append, List.getLast?_singleton, Option.some_or, if_true,
      hshort, or_false]
    exact eq_comm

/-! ### The steps of the branch -/

theorem AtPoint.frame {rblist : List Cfgitem} {u u' : Watched} (h : AtPoint newlist rblist u)
    (hin : u.daemon.pc.reloads = true) (hpc : u'.daemon.pc = u.daemon.pc)
    (hcounts : u'.counts = u.counts) (hrblist : u'.daemon.rblist = u.daemon.rblist) :
    AtPoint newlist rblist u' := by
  unfold AtPoint at h ⊢
  rw [hpc, hcounts, hrblist]
  cases hat : u.daemon.pc with
  | loop => simp [hat, ServerPc.reloads] at hin
  | _ =>
    rw [hat] at h
    exact h

/-- A step of another thread, or one that ends the process elsewhere. -/
theorem Reloading.frame {u u' : Watched} (h : Reloading newlist s u)
    (hin : u.daemon.pc.reloads = true) (hpc : u'.daemon.pc = u.daemon.pc)
    (hcounts : u'.counts = u.counts) (hrblist : u'.daemon.rblist = u.daemon.rblist)
    (hstate : u'.daemon.appstate = u.daemon.appstate)
    (hmgr : u'.daemon.workermgr = none ↔ u.daemon.workermgr = none)
    (hended : u'.daemon.exited ≠ some .waitcomplete) : Reloading newlist s u' where
  point := h.point.frame hin hpc hcounts hrblist
  appstate := by
    rw [hpc, hstate]
    exact h.appstate
  manager := hmgr.trans h.manager
  waited := by
    rw [hpc]
    exact h.waited
  ended hexited := absurd hexited hended

/-- A step that brings the server to its next point. -/
theorem Reloading.move {u : Watched} (h : Reloading newlist s u) (hloop : u.daemon.pc ≠ .loop)
    (hmgr : u.daemon.workermgr ≠ none) (hruns : u.daemon.exited = none) {pc : ServerPc}
    (rblist : List Cfgitem) (hpoint : AtPoint newlist s.rblist
      ⟨{ u.daemon with pc := pc, rblist := rblist }, counts⟩) :
    Reloading newlist s ⟨{ u.daemon with pc := pc, rblist := rblist }, counts⟩ where
  point := hpoint
  appstate _ := h.appstate hloop
  manager := h.manager
  waited := .inr fun hnone => hmgr (h.manager.mpr hnone)
  ended hexited := by
    rw [hruns] at hexited
    cases hexited

/-- With rounds left and no signal the wait only ends when it finds no worker. -/
theorem nthreads_eq_zero {err : Nat} {mgr : ThrMgr} (hpc : s.pc = .reloadWait err)
    (hmgr : s.workermgr = some mgr) (herr : err ≠ 0) (hstate : s.appstate = .reload)
    (hstep : s.serverStep maxthreads ok = some s') (hdone : s'.pc = .reloadReset) :
    mgr.nthreads = 0 := by
  by_contra hbusy
  have hwait : err > 0 ∧ mgr.nthreads ≠ 0 ∧ s.appstate ≠ .exit :=
    ⟨Nat.pos_of_ne_zero herr, hbusy, by simp [hstate]⟩
  rw [Daemon.serverStep, hpc] at hstep
  simp only [hmgr, if_pos hwait, Option.some.injEq] at hstep
  rw [← hstep] at hdone
  cases hdone

theorem Reloading.serverStep {u : Watched} (h : Reloading newlist s u)
    (hin : u.daemon.pc.reloads = true) (hruns : u.daemon.exited = none)
    (hstep : u.daemon.serverStep maxthreads ok = some s') :
    Reloading newlist s ⟨s', u.counts ++ u.daemon.looks (.server ok)⟩ := by
  have hpoint := h.point
  have hloop : u.daemon.pc ≠ .loop := by
    intro hpc
    simp [hpc, ServerPc.reloads] at hin
  have hpast : u.daemon.pc ≠ .waitManager → u.daemon.workermgr ≠ none := fun hpc hnone =>
    (h.waited.resolve_left hpc) (h.manager.mp hnone)
  unfold AtPoint at hpoint
  cases serverStep_cases hstep with
  | move hmove =>
    cases hmove with
    | wait hpc hmgr =>
      rw [hpc] at hpoint
      obtain ⟨hcounts, hrblist⟩ := hpoint
      refine h.move hloop (by simp [hmgr]) hruns u.daemon.rblist ?_
      simp [AtPoint, looks, hpc, hcounts, hrblist]
    | @waiting err mgr hpc hmgr hwait =>
      rw [hpc] at hpoint
      obtain ⟨hcounts, hbusy, hrblist⟩ := hpoint
      obtain ⟨hpos, hthreads, -⟩ := hwait
      refine h.move hloop (by simp [hmgr]) hruns u.daemon.rblist ?_
      refine ⟨?_, ?_, hrblist⟩
      · simp only [looks, hpc, hmgr, List.length_append, List.length_singleton]
        omega
      · simp only [looks, hpc, hmgr, List.mem_append, List.mem_singleton]
        rintro n (hn | rfl)
        · exact hbusy n hn
        · exact hthreads
    | @notReloaded err mgr hpc hmgr herr =>
      have hidle := nthreads_eq_zero hpc hmgr herr (h.appstate hloop) hstep rfl
      rw [hpc] at hpoint
      obtain ⟨hcounts, -, hrblist⟩ := hpoint
      refine h.move hloop (by simp [hmgr]) hruns u.daemon.rblist ?_
      have hwaited : Waited newlist s.rblist (u.counts ++ [0]) s.rblist := .gaveUp (by omega)
      simpa [AtPoint, looks, hpc, hmgr, hidle, hrblist] using hwaited
    | @waited mgr hpc hmgr =>
      rw [hpc] at hpoint
      obtain ⟨hcounts, hbusy, hrblist⟩ := hpoint
      refine h.move hloop (by simp [hmgr]) hruns u.daemon.rblist ⟨?_, hrblist⟩
      exact ⟨u.counts, mgr.nthreads, by simp [looks, hpc, hmgr], hcounts, hbusy⟩
    | _ => simp_all [ServerPc.reloads]
  | exitWait hpc hmgr =>
    have hnone := h.manager.mp hmgr
    refine ⟨?_, h.appstate, h.manager, h.waited, fun _ => hnone⟩
    rw [hpc] at hpoint
    simpa [AtPoint, hpc, looks, hmgr] using hpoint
  | free hpc =>
    rw [hpc] at hpoint
    obtain ⟨⟨busy, n, hcounts, hlength, hbusy⟩, hsome⟩ := hpoint
    refine h.move hloop (hpast (by simp [hpc])) hruns _ ?_
    have hwaited : Waited newlist s.rblist (busy ++ [n]) (newlist.getD s.rblist) :=
      .read n hlength hbusy
    simpa [AtPoint, looks, hpc, hcounts, hsome] using hwaited
  | reset hpc =>
    rw [hpc] at hpoint
    refine ⟨?_, fun hne => absurd rfl hne, h.manager, .inr ?_, ?_⟩
    · simpa [AtPoint, looks, hpc, hruns] using hpoint
    · exact fun hnone => hpast (by simp [hpc]) (h.manager.mpr hnone)
    · intro hexited
      rw [hruns] at hexited
      cases hexited
  | _ => simp_all [ServerPc.reloads]

theorem Reloading.step {u u' : Watched} (h : Reloading newlist s u)
    (hok : InReloadBranch newlist u a) (hstep : watchStep maxthreads u a = some u') :
    Reloading newlist s u' := by
  obtain ⟨hin, hsignal, hread⟩ := hok
  obtain ⟨daemon, hdaemon, rfl⟩ := Option.map_eq_some_iff.mp hstep
  have hruns := runs_of_step hdaemon
  have hnot : u.daemon.exited ≠ some .waitcomplete := by simp [hruns]
  have hpoint := h.point
  have hloop : u.daemon.pc ≠ .loop := by
    intro hpc
    simp [hpc, ServerPc.reloads] at hin
  unfold AtPoint at hpoint
  have hcases := step_cases hdaemon
  cases hcases with
  | server _ =>
    obtain ⟨-, hserver⟩ := Option.ite_none_left_eq_some.mp hdaemon
    exact h.serverStep hin hruns hserver
  | readFails hpc =>
    obtain rfl := hread none (by simp [Action.readResult])
    rw [hpc] at hpoint
    obtain ⟨⟨busy, n, hcounts, hlength, hbusy⟩, hrblist⟩ := hpoint
    have hmgr : u.daemon.workermgr ≠ none := fun hnone =>
      (h.waited.resolve_left (by simp [hpc])) (h.manager.mp hnone)
    refine h.move hloop hmgr hruns u.daemon.rblist ?_
    have hwaited : Waited none s.rblist (busy ++ [n]) s.rblist := .read n hlength hbusy
    simpa [AtPoint, looks, hcounts, hrblist] using hwaited
  | @read items hpc =>
    obtain rfl := hread (some items) (by simp [Action.readResult])
    rw [hpc] at hpoint
    have hmgr : u.daemon.workermgr ≠ none := fun hnone =>
      (h.waited.resolve_left (by simp [hpc])) (h.manager.mp hnone)
    refine h.move hloop hmgr hruns u.daemon.rblist ⟨?_, rfl⟩
    simpa [looks] using hpoint.1
  | worker _ hworker =>
    cases hworker with
    | search _ hmgr =>
      exact h.frame hin rfl (List.append_nil _) rfl rfl (by simp [hmgr]) hnot
    | exitUninitialized _ _ => exact h.frame hin rfl (List.append_nil _) rfl rfl .rfl nofun
    | _ => exact h.frame hin rfl (List.append_nil _) rfl rfl .rfl hnot
  | kill _ _ _ => exact h.frame hin rfl (List.append_nil _) rfl rfl .rfl hnot
  | xalloc => exact h.frame hin rfl (List.append_nil _) rfl rfl .rfl nofun
  | sigterm => exact absurd rfl hsignal
  | reload =>
    obtain ⟨-, hreload⟩ := Option.ite_none_left_eq_some.mp hdaemon
    obtain ⟨hrun, -⟩ := Option.ite_none_right_eq_some.mp hreload
    simp [h.appstate hloop] at hrun
  | _ => simp_all [ServerPc.reloads]

/-! ### The end of the branch -/

/-- The steps of the threads, and the return of `cfg_read`. -/
def ReloadStep : Daemon → Action → Prop
  | _, .server _ | _, .read _ | _, .worker _ | _, .kill _ => True
  | _, _ => False

/-- The steps of the server in the branch. -/
def ReloadServerStep : Daemon → Action → Prop
  | _, .server _ | _, .read _ => True
  | _, _ => False

/-- A bound on the steps of all threads until the branch is over. -/
def reloadRemaining (s : Daemon) : Nat :=
  s.pc.reloadRemaining + (s.workers.map fun worker => worker.phase.remaining).sum

/-- What the steps keep until the branch is over. -/
structure Returning (s : Daemon) : Prop where
  runs : s.exited = none
  manager : s.workermgr ≠ none
  point : s.pc.reloads = true ∨ s.pc = .loop

theorem reloadRemaining_setPhase {worker : PoolWorker}
    (hworker : s.workers[i]? = some worker) (phase : WorkerPhase)
    (hlt : phase.remaining < worker.phase.remaining) :
    (s.setPhase i worker phase).reloadRemaining < s.reloadRemaining := by
  have hsum := remaining_setPhase hworker hlt
  have hpc : (s.setPhase i worker phase).pc = s.pc := rfl
  unfold remaining at hsum
  unfold reloadRemaining
  rw [hpc] at hsum ⊢
  omega

theorem Returning.serverStep (h : s.Returning) (hin : s.pc.reloads = true)
    (hstep : ServerStep maxthreads s ok s') :
    s'.Returning ∧ s'.workers = s.workers ∧ s'.pc.reloadRemaining < s.pc.reloadRemaining := by
  obtain ⟨hruns, hmanager, -⟩ := h
  cases hstep with
  | move hmove =>
    cases hmove with
    | wait hpc _ =>
      exact ⟨⟨hruns, hmanager, .inl rfl⟩, rfl, by simp [hpc, ServerPc.reloadRemaining]⟩
    | waiting hpc _ hwait =>
      obtain ⟨hpos, -⟩ := hwait
      refine ⟨⟨hruns, hmanager, .inl rfl⟩, rfl, ?_⟩
      simp only [hpc, ServerPc.reloadRemaining]
      omega
    | notReloaded hpc _ _ =>
      refine ⟨⟨hruns, hmanager, .inl rfl⟩, rfl, ?_⟩
      simp only [hpc, ServerPc.reloadRemaining]
      omega
    | waited hpc _ =>
      exact ⟨⟨hruns, hmanager, .inl rfl⟩, rfl, by simp [hpc, ServerPc.reloadRemaining]⟩
    | _ => simp_all [ServerPc.reloads]
  | exitWait _ hmgr => exact absurd hmgr hmanager
  | free hpc =>
    exact ⟨⟨hruns, hmanager, .inl rfl⟩, rfl, by simp [hpc, ServerPc.reloadRemaining]⟩
  | reset hpc =>
    exact ⟨⟨hruns, hmanager, .inr rfl⟩, rfl, by simp [hpc, ServerPc.reloadRemaining]⟩
  | _ => simp_all [ServerPc.reloads]

theorem Returning.step (h : s.Returning) (hgoal : s.pc ≠ .loop) (hok : s.ReloadStep a)
    (hstep : s.step maxthreads a = some s') :
    s'.Returning ∧ s'.reloadRemaining < s.reloadRemaining := by
  have hin : s.pc.reloads = true := h.point.resolve_right hgoal
  have hsame : ∀ {t : Daemon}, t.workers = s.workers →
      t.pc.reloadRemaining < s.pc.reloadRemaining → t.reloadRemaining < s.reloadRemaining := by
    intro t hworkers hlt
    rw [reloadRemaining, reloadRemaining, hworkers]
    exact Nat.add_lt_add_right hlt _
  obtain ⟨hruns, hmanager, -⟩ := h
  cases step_cases hstep with
  | server hserver =>
    obtain ⟨hreturning, hworkers, hlt⟩ :=
      Returning.serverStep ⟨hruns, hmanager, .inl hin⟩ hin hserver
    exact ⟨hreturning, hsame hworkers hlt⟩
  | readFails hpc =>
    exact ⟨⟨hruns, hmanager, .inl rfl⟩, hsame rfl (by simp [hpc, ServerPc.reloadRemaining])⟩
  | read hpc =>
    exact ⟨⟨hruns, hmanager, .inl rfl⟩, hsame rfl (by simp [hpc, ServerPc.reloadRemaining])⟩
  | worker hworker hstep =>
    cases hstep with
    | exitUninitialized _ hnone => exact absurd hnone hmanager
    | finish hphase _ =>
      refine ⟨⟨hruns, hmanager, .inl hin⟩, reloadRemaining_setPhase hworker _ ?_⟩
      rw [hphase]
      decide
    | lock hphase _ =>
      refine ⟨⟨hruns, hmanager, .inl hin⟩,
        reloadRemaining_setPhase hworker (.unregister .search) ?_⟩
      rw [hphase]
      decide
    | search hphase _ =>
      refine ⟨⟨hruns, by simp, .inl hin⟩,
        reloadRemaining_setPhase hworker (.unregister .unlock) ?_⟩
      rw [hphase]
      decide
    | unlock hphase =>
      refine ⟨⟨hruns, hmanager, .inl hin⟩,
        reloadRemaining_setPhase hworker .terminated ?_⟩
      rw [hphase]
      decide
  | kill hworker _ hlive =>
    exact ⟨⟨hruns, hmanager, .inl hin⟩, reloadRemaining_setPhase hworker _ (remaining_ended hlive)⟩
  | _ => cases hok

/-- The server is never blocked in the branch. -/
theorem Returning.enabled (h : s.Returning) (hgoal : s.pc ≠ .loop) :
    ∃ a t, s.ReloadServerStep a ∧ s.step maxthreads a = some t := by
  have hin : s.pc.reloads = true := h.point.resolve_right hgoal
  obtain ⟨mgr, hmgr⟩ := Option.ne_none_iff_exists'.mp h.manager
  by_cases hread : s.pc = .reloadRead
  · exact ⟨.read none, _, trivial, by simp [Daemon.step, h.runs, readStep, hread]; rfl⟩
  · suffices henabled : ∃ t, s.serverStep maxthreads true = some t by
      obtain ⟨t, ht⟩ := henabled
      exact ⟨.server true, t, trivial, by simp [Daemon.step, h.runs, ht]⟩
    unfold Daemon.serverStep
    generalize s.pc = pc at *
    cases pc with
    | waitManager => simp [hmgr]
    | reloadWait err =>
      simp only [hmgr]
      by_cases hwait : err > 0 ∧ mgr.nthreads ≠ 0 ∧ s.appstate ≠ .exit
      · exact ⟨_, if_pos hwait⟩
      · exact ⟨_, if_neg hwait⟩
    | reloadRead => exact absurd rfl hread
    | reloadFree newlist => exact ⟨_, rfl⟩
    | reloadReset => exact ⟨_, rfl⟩
    | _ => cases hin

/-- With a manager the server comes back to its loop. -/
theorem reload_returns (hpc : s.pc = .waitManager) (hruns : s.exited = none)
    (hmgr : s.workermgr ≠ none) :
    Leads (Daemon.step maxthreads) ReloadStep ReloadServerStep
      (fun t => t.pc = .loop ∧ t.exited = none) s := by
  refine leads_of_measure Returning reloadRemaining ?_ ?_ ⟨hruns, hmgr, .inl (by rw [hpc]; rfl)⟩
  · intro s h hgoal
    exact h.enabled fun hpc => hgoal ⟨hpc, h.runs⟩
  · intro s a s' h hgoal hok hstep
    exact h.step (fun hpc => hgoal ⟨hpc, h.runs⟩) hok hstep

/-- For every state in which the server takes the branch, every outcome of `cfg_read` and every
interleaving with the workers in which no signal arrives: the branch leaves the process running
and the list that it is to leave exactly when there is a manager and either the two lists are the
same, or the workers outlast the wait and are gone at its end. It does end when there is a
manager. -/
theorem reload_iff (maxthreads : Int) (newlist : Option (List Cfgitem)) (s : Daemon)
    (hpc : s.pc = .waitManager) (hstate : s.appstate = .reload) (hruns : s.exited = none) :
    (∀ w t, Run (watchStep maxthreads) (InReloadBranch newlist) ⟨s, []⟩ w t →
      BranchOver t.daemon →
      (ReloadsRight newlist s t ↔
        s.workermgr ≠ none ∧ (newlist.getD s.rblist = s.rblist ∨ OutlastsWait t.counts))) ∧
    (s.workermgr ≠ none →
      Leads (Daemon.step maxthreads) ReloadStep ReloadServerStep
        (fun t => t.pc = .loop ∧ t.exited = none) s) := by
  refine ⟨fun w t hrun hover => ?_, reload_returns hpc hruns⟩
  have hreloading : Reloading newlist s t := by
    refine hrun.invariant ⟨?_, fun _ => hstate, .rfl, .inl hpc, ?_⟩ fun _ _ _ h hok hstep =>
      h.step hok hstep
    · unfold AtPoint
      rw [hpc]
      exact ⟨rfl, rfl⟩
    · intro hexited
      rw [hruns] at hexited
      cases hexited
  rcases hover with hloop | hexited
  · have hpoint := hreloading.point
    unfold AtPoint at hpoint
    rw [hloop] at hpoint
    obtain ⟨hwaited, hexited⟩ := hpoint
    have hmgr : s.workermgr ≠ none := hreloading.waited.resolve_left (by simp [hloop])
    simp only [ReloadsRight, hexited, true_and, hmgr, ne_eq, not_false_eq_true]
    exact hwaited.eq_wantedList_iff
  · simp [ReloadsRight, hexited, hreloading.ended hexited]

/-! ### Reloads of an idle daemon and of a busy one -/

/-- A worker has been created and has ended, a reload has been asked for, and the server has
entered its branch. -/
def reloadRequest : List Action :=
  firstWorker ++ List.replicate 4 (.worker 0) ++
    [.reload, .server true, .accept .conn, .server true]

/-- The server has entered its branch while one worker is in its body. -/
def busyReload : Daemon where
  pc := .waitManager
  appstate := .reload
  rblist := []
  workermgr := some ⟨1, [1]⟩
  initOwner := none
  mgrOwner := none
  workers := [⟨1, .body, false⟩]
  exited := none

/-- With a worker that stays registered the rounds of the wait are used up one after the other. -/
theorem run_reloadWait {mgr : ThrMgr} (err : Nat) (counts : List Nat)
    (hmgr : s.workermgr = some mgr) (hbusy : mgr.nthreads ≠ 0) (hstate : s.appstate ≠ .exit)
    (hruns : s.exited = none) :
    Run (watchStep maxthreads) (InReloadBranch newlist) ⟨{ s with pc := .reloadWait err }, counts⟩
      (List.replicate err (.server true))
      ⟨{ s with pc := .reloadWait 0 }, counts ++ List.replicate err mgr.nthreads⟩ := by
  induction err generalizing counts with
  | zero =>
    rw [List.replicate_zero, List.replicate_zero, List.append_nil]
    exact .nil
  | succ err ih =>
    have hround : watchStep maxthreads ⟨{ s with pc := .reloadWait (err + 1) }, counts⟩
        (.server true) =
          some ⟨{ s with pc := .reloadWait err }, counts ++ [mgr.nthreads]⟩ := by
      simp [watchStep, Daemon.step, hruns, Daemon.serverStep, hmgr, hbusy, hstate, looks]
    have hin : InReloadBranch newlist ⟨{ s with pc := .reloadWait (err + 1) }, counts⟩
        (.server true) := by
      simp [InReloadBranch, ServerPc.reloads, Action.readResult]
    have hrest := ih (counts ++ [mgr.nthreads])
    rw [List.append_assoc, List.singleton_append, ← List.replicate_succ] at hrest
    rw [List.replicate_succ]
    exact .cons hin hround hrest

/-- The worker is there at each look and leaves behind the last one; the list is exchanged. -/
theorem reload_iff_busyReload :
    ∃ w t, Run (watchStep 10) (InReloadBranch (some [⟨[97], 1, 0, 0⟩])) ⟨busyReload, []⟩ w t ∧
      t.daemon.pc = .loop ∧ t.counts = List.replicate 400 1 ++ [0] ∧
      ReloadsRight (some [⟨[97], 1, 0, 0⟩]) busyReload t := by
  have hfirst : watchStep 10 ⟨busyReload, []⟩ (.server true) =
      some ⟨{ busyReload with pc := .reloadWait 400 }, []⟩ := by decide
  have hrounds : Run (watchStep 10) (InReloadBranch (some [⟨[97], 1, 0, 0⟩]))
      ⟨{ busyReload with pc := .reloadWait 400 }, []⟩ (List.replicate 400 (.server true))
      ⟨{ busyReload with pc := .reloadWait 0 }, List.replicate 400 1⟩ :=
    run_reloadWait (s := busyReload) 400 [] rfl Nat.one_ne_zero (by decide) rfl
  have hexec : (exec (watchStep 10) (InReloadBranch (some [⟨[97], 1, 0, 0⟩]))
      ⟨{ busyReload with pc := .reloadWait 0 }, List.replicate 400 1⟩
      (List.replicate 4 (.worker 0) ++
        [.server true, .read (some [⟨[97], 1, 0, 0⟩]), .server true, .server true])).any
      (fun t => t.daemon.pc = .loop ∧ t.counts = List.replicate 400 1 ++ [0]) = true := by
    decide +kernel
  obtain ⟨t, hlast, hpc, hcounts⟩ := exists_run_of_exec hexec
  have hrun := (hrounds.append hlast).cons (by decide) hfirst
  have houtlasts : OutlastsWait t.counts :=
    ⟨List.replicate 400 1, hcounts, List.length_replicate, fun n hn => by
      simp [List.eq_of_mem_replicate hn]⟩
  obtain ⟨hiff, -⟩ := reload_iff 10 (some [⟨[97], 1, 0, 0⟩]) busyReload rfl rfl rfl
  exact ⟨_, t, hrun, hpc, hcounts, (hiff _ t hrun (.inl hpc)).mpr ⟨nofun, .inr houtlasts⟩⟩

/-- An idle daemon gives up its reload and keeps the old list, and a daemon that has not had a
request ends. -/
theorem reload_gives_up_idle :
    (∃ s t, Run (Daemon.step 10) (fun _ _ => True) (init .run []) reloadRequest s ∧
      s.pc = .waitManager ∧ s.appstate = .reload ∧ s.workermgr = some ⟨0, []⟩ ∧
      Run (watchStep 10) (InReloadBranch (some [⟨[97], 1, 0, 0⟩])) ⟨s, []⟩
        (List.replicate 3 (.server true)) t ∧
      t.daemon.pc = .loop ∧ t.counts = [0] ∧ t.daemon.rblist = []) ∧
    ∃ s t, Run (Daemon.step 10) (fun _ _ => True) (init .reload [])
        [.server true, .accept .conn, .server true] s ∧
      s.pc = .waitManager ∧ s.appstate = .reload ∧
      Run (watchStep 10) (InReloadBranch (some [⟨[97], 1, 0, 0⟩])) ⟨s, []⟩ [.server true] t ∧
      t.daemon.exited = some .waitcomplete := by
  constructor
  · have hexec : (exec (Daemon.step 10) (fun _ _ => True) (init .run []) reloadRequest).any
        (fun s => s.pc = .waitManager ∧ s.appstate = .reload ∧ s.workermgr = some ⟨0, []⟩ ∧
          (exec (watchStep 10) (InReloadBranch (some [⟨[97], 1, 0, 0⟩])) ⟨s, []⟩
            (List.replicate 3 (.server true))).any (fun t => t.daemon.pc = .loop ∧
              t.counts = [0] ∧ t.daemon.rblist = []) = true) = true := by decide +kernel
    obtain ⟨s, hrun, hpc, hstate, hmgr, hrest⟩ := exists_run_of_exec hexec
    obtain ⟨t, hbranch, hover⟩ := exists_run_of_exec hrest
    exact ⟨s, t, hrun, hpc, hstate, hmgr, hbranch, hover⟩
  · have hexec : (exec (Daemon.step 10) (fun _ _ => True) (init .reload [])
        [.server true, .accept .conn, .server true]).any
        (fun s => s.pc = .waitManager ∧ s.appstate = .reload ∧
          (exec (watchStep 10) (InReloadBranch (some [⟨[97], 1, 0, 0⟩])) ⟨s, []⟩
            [.server true]).any (fun t => t.daemon.exited = some .waitcomplete) = true) = true := by
      decide +kernel
    obtain ⟨s, hrun, hpc, hstate, hrest⟩ := exists_run_of_exec hexec
    obtain ⟨t, hbranch, hexited⟩ := exists_run_of_exec hrest
    exact ⟨s, t, hrun, hpc, hstate, hbranch, hexited⟩

end Daemon

end Rblpolicyd
