import Rblpolicyd.Daemon.ListLifetime
import Rblpolicyd.Daemon.Requests
import Rblpolicyd.Session.Verdict
import Rblpolicyd.System.Coherence

/-!
# The descriptors of the connections

`accept` returns a descriptor, which the server hands to the worker it creates. From
then on the worker is to close it; as long as there is none, `wthread_create` has
failed and its caller closes it. Two steps break the agreement: when `thr_register`
fails, `wthread_create` closes the descriptor and so does its caller, while the
worker may do it as well; and when a signal arrives between `accept` and the switch,
the connection goes to a branch that does not know it.

## Main definitions

* `Served`, `Served.step` — the system with the descriptors and the calls of `close`
* `Served.Handled` — some thread is still busy with the connection
* `Served.Undisturbed` — `thr_register` does not fail, and no signal arrives in front of
  the switch

## Main results

* `Served.closed_once` — then every connection is closed exactly once
* `Served.closed_twice_or_never` — and not in every run
-/

namespace Rblpolicyd

open Semantics

/-- A connection: whether `appstate` was `APP_RUN` when `accept` returned its descriptor, and
how often the descriptor has been passed to `close`. -/
structure Connection where
  running : Bool
  closes : Nat
  deriving DecidableEq

/-- The system with its connections in the order of `accept`, and the connection of each
worker. -/
structure Served where
  system : System
  conns : List Connection
  workerConns : List Nat

/-- The worker is behind its `close`. -/
def WorkerPc.pastClose : WorkerPc → Bool
  | .stats _ | .returned => true
  | _ => false

/-- The descriptor is the server's to close: there is no worker yet, or `wthread_create` has
failed. -/
def ServerPc.ownsConn : ServerPc → Bool
  | .dispatch | .createInitLock | .createInit | .createInitUnlock | .createLock => true
  | .createPoll _ | .createAppstate _ | .createLimit _ | .createThread | .closeConn => true
  | .createUnlock res | .created res => res ≠ 0
  | _ => false

/-- Only the step behind `.cleanup` leads past the `close`. -/
theorem Session.pastClose_of_step {job : Job} {s s' : Session} {a : Session.Action}
    (hstep : s.step job a = some s') :
    (∃ ok, a = .worker ok ∧ s.pc = .cleanup ∧ s'.pc.pastClose = true) ∨
      (∀ ok, a = .worker ok → s.pc ≠ .cleanup) ∧ s'.pc.pastClose = s.pc.pastClose := by
  cases a with
  | worker ok =>
    cases Session.workerStep_cases hstep with
    | move hmove =>
      cases hmove with
      | statsTest hpc => exact .inl ⟨ok, rfl, hpc, rfl⟩
      | _ => exact .inr (by simp [WorkerPc.pastClose, *])
    | create hpc _ =>
      refine .inr ⟨by simp [hpc], ?_⟩
      rw [hpc]
      unfold Session.createNext
      split <;> rfl
    | acquireJoin hpc _ =>
      refine .inr ?_
      rcases hpc with hpc | hpc <;> simp [WorkerPc.pastClose, hpc]
    | _ => exact .inr (by simp [WorkerPc.pastClose, *])
  | wake =>
    obtain ⟨hpc, rfl⟩ := Session.wakeStep_cases hstep
    exact .inr (by simp [WorkerPc.pastClose, hpc])
  | solver j ok =>
    obtain ⟨d, solver, -, -, -, hcases⟩ := Session.solverStep_cases hstep
    refine .inr ⟨nofun, ?_⟩
    rcases hcases.frame.1 with hpc | ⟨hpc, hpc'⟩
    · rw [hpc]
    · rw [hpc, hpc']
      rfl
  | kill j =>
    obtain ⟨d, solver, -, -, -, -, -, rfl⟩ := Session.killStep_cases hstep
    exact .inr ⟨nofun, rfl⟩

namespace Served

/-- No connection has been accepted. -/
def init (appstate : Appstate) (rblist : List Cfgitem) : Served where
  system := System.init appstate rblist
  conns := []
  workerConns := []

/-- The variable `conn` of `server`: the connection that was accepted last. -/
def conn (s : Served) : Nat := s.conns.length - 1

/-- The connection whose descriptor the step passes to `close`. -/
def closed (s : Served) : System.Action → Option Nat
  -- close(conn) in `wthread_create` and in `server`
  | .daemon (.server _) =>
    if s.system.daemon.pc = .createClose ∨ s.system.daemon.pc = .closeConn then some s.conn
    else none
  -- close(conn) in `worker_th`
  | .session i (.worker _) =>
    if s.system.sessions[i]?.any fun sess => sess.pc = .cleanup then s.workerConns[i]? else none
  | _ => none

/-- The connections behind a step. -/
def connsBehind (s : Served) (a : System.Action) : List Connection :=
  match a with
  | .daemon (.accept .conn) => s.conns ++ [⟨s.system.daemon.appstate = .run, 0⟩]
  | a =>
    match s.closed a with
    | some c => s.conns.modify c fun conn => { conn with closes := conn.closes + 1 }
    | none => s.conns

/-- A new worker gets the connection that was accepted last. -/
def workerConnsBehind (s : Served) : System.Action → List Nat
  | .daemon (.create (some _)) => s.workerConns ++ [s.conn]
  | _ => s.workerConns

/-- One step of the system, with what it does to the descriptors. -/
def step (maxthreads : Int) (jobs : Nat → Job) (s : Served) (a : System.Action) :
    Option Served :=
  (s.system.step maxthreads jobs a).map fun system =>
    ⟨system, s.connsBehind a, s.workerConnsBehind a⟩

/-- Worker `i` is in `worker_th`, in front of its `close`. -/
def WorkerHandles (s : Served) (i : Nat) : Prop :=
  s.system.daemon.inWorkerTh (.worker i) = true ∧
    s.system.sessions[i]?.any (fun sess => !sess.pc.pastClose) = true

/-- The server or a worker is busy with the connection. -/
def Handled (s : Served) (c : Nat) : Prop :=
  s.system.daemon.pc.handling = true ∧ c = s.conn ∨
    ∃ i : Nat, s.workerConns[i]? = some c ∧ s.WorkerHandles i

/-- In this step `thr_register` does not fail for a worker, and no signal arrives behind an
`accept` in `APP_RUN`, in front of the switch. -/
def Undisturbed (s : Served) : System.Action → Prop
  | .daemon (.server ok) => s.system.daemon.pc.registers = true → ok = true
  | .daemon .sigterm | .daemon .reload =>
    ¬ (s.system.daemon.pc = .dispatch ∧ s.system.daemon.appstate = .run)
  | _ => True

instance (s : Served) (a : System.Action) : Decidable (s.Undisturbed a) := by
  unfold Undisturbed
  split <;> infer_instance

variable {maxthreads : Int} {jobs : Nat → Job} {s s' t : Served} {a : System.Action}
  {system : System} {i c : Nat} {w : List System.Action} {appstate : Appstate}
  {rblist : List Cfgitem}

/-! ### Who is to close a connection -/

/-- Every connection is closed once by the thread it belongs to: the server, as long as it has
no worker, or its worker. -/
structure Owned (s : Served) : Prop where
  length : s.workerConns.length = s.system.sessions.length
  nodup : s.workerConns.Nodup
  lt : ∀ c ∈ s.workerConns, c < s.conns.length
  accepted : s.system.daemon.pc.ownsConn = true → s.conns ≠ []
  switch : s.system.daemon.pc = .dispatch → ∀ conn, s.conns[s.conn]? = some conn →
    conn.running = true → s.system.daemon.appstate = .run
  unshared : s.system.daemon.pc.ownsConn = true → s.conn ∉ s.workerConns
  server : s.system.daemon.pc.ownsConn = true → ∀ conn, s.conns[s.conn]? = some conn →
    conn.closes = 0
  worker : ∀ (i c : Nat) (sess : Session) (conn : Connection), s.workerConns[i]? = some c →
    s.system.sessions[i]? = some sess → s.conns[c]? = some conn →
      conn.closes = if sess.pc.pastClose then 1 else 0
  left : ∀ (c : Nat) (conn : Connection), s.conns[c]? = some conn → conn.running = true →
    c ∉ s.workerConns → (s.system.daemon.pc.ownsConn = true → c ≠ s.conn) → conn.closes = 1

theorem owned_init (appstate : Appstate) (rblist : List Cfgitem) :
    Owned (init appstate rblist) where
  length := rfl
  nodup := List.nodup_nil
  lt := nofun
  accepted h := by cases h
  switch h := by cases h
  unshared h := by cases h
  server h := by cases h
  worker _ _ _ _ h := by cases h
  left _ _ h := by cases h

/-- The system and the descriptors behind a step that closes nothing. -/
theorem Owned.frame (h : Owned s) (hlength : system.sessions.length = s.system.sessions.length)
    (hpast : ∀ (i : Nat) (sess' : Session), system.sessions[i]? = some sess' →
      ∃ sess, s.system.sessions[i]? = some sess ∧ sess'.pc.pastClose = sess.pc.pastClose)
    (hswitch : system.daemon.pc = .dispatch → s.system.daemon.pc = .dispatch ∧
      (s.system.daemon.appstate = .run → system.daemon.appstate = .run))
    (howns : system.daemon.pc.ownsConn = true → s.system.daemon.pc.ownsConn = true)
    (hkept : s.system.daemon.pc.ownsConn = true → system.daemon.pc.ownsConn = true ∨
      ∀ conn, s.conns[s.conn]? = some conn → conn.running = false) :
    Owned { s with system := system } where
  length := h.length.trans hlength.symm
  nodup := h.nodup
  lt := h.lt
  accepted hnew := h.accepted (howns hnew)
  switch hpc conn hconn hrunning := by
    obtain ⟨hbefore, hstate⟩ := hswitch hpc
    exact hstate (h.switch hbefore conn hconn hrunning)
  unshared hnew := h.unshared (howns hnew)
  server hnew := h.server (howns hnew)
  worker i c sess' conn hworker hsess' hconn := by
    obtain ⟨sess, hsess, hsame⟩ := hpast i sess' hsess'
    rw [hsame]
    exact h.worker i c sess conn hworker hsess hconn
  left c conn hconn hrunning hworker hserver := by
    apply h.left c conn hconn hrunning hworker
    rintro hbefore rfl
    rcases hkept hbefore with hstill | hnot
    · exact hserver hstill rfl
    · rw [hnot conn hconn] at hrunning
      cases hrunning

/-- A step of the server, unless it closes the descriptor, keeps it or, in front of the switch,
drops one that is not for a worker. -/
theorem ownsConn_of_serverStep {s s' : Daemon} {ok : Bool} (hmax : 0 < maxthreads)
    (hregular : s.pc.gaveUp = false) (hok : s.RecordsAllocated (.server ok))
    (hclose : s.pc ≠ .closeConn) (hstep : Daemon.ServerStep maxthreads s ok s') :
    s'.pc ≠ .dispatch ∧ (s'.pc.ownsConn = s.pc.ownsConn ∨
      s'.pc.ownsConn = false ∧ s.pc = .dispatch ∧ s.appstate ≠ .run) := by
  have hgaveUp : ∀ {pc}, s.pc = pc → pc.gaveUp = false := fun hpc => hpc ▸ hregular
  cases hstep with
  | move hmove =>
    cases hmove with
    | close hpc => cases hgaveUp hpc
    | closed hpc => exact absurd hpc hclose
    | direct _ _ hmax' => exact absurd hmax hmax'
    | reload hpc hstate => exact ⟨nofun, .inr ⟨rfl, hpc, by rw [hstate]; nofun⟩⟩
    | skip hpc hstate =>
      refine ⟨nofun, .inr ⟨rfl, hpc, ?_⟩⟩
      rcases hstate with hstate | hstate <;> rw [hstate] <;> nofun
    | _ => simp [ServerPc.ownsConn, errThrAppstate, errThrToomany, *]
  | cancel hpc => cases hgaveUp hpc
  | registerFails hpc _ => cases hok (by rw [hpc]; rfl)
  | @unlock _ res hpc =>
    by_cases hres : res = 0
    · simp [ServerPc.ownsConn, hpc, hres]
    · simp [ServerPc.ownsConn, hpc, hres]
  | _ => simp [ServerPc.ownsConn, *]

/-- One more call of `close` for connection `c`. -/
theorem getElem?_close {conns : List Connection} {k : Nat} {conn' : Connection}
    (h : (conns.modify c fun conn => { conn with closes := conn.closes + 1 })[k]? = some conn') :
    ∃ conn, conns[k]? = some conn ∧ conn'.running = conn.running ∧
      conn'.closes = conn.closes + if c = k then 1 else 0 := by
  rw [List.getElem?_modify] at h
  obtain ⟨conn, hconn, rfl⟩ := Option.map_eq_some_iff.mp h
  refine ⟨conn, hconn, ?_⟩
  split_ifs <;> exact ⟨rfl, rfl⟩

/-- The server closes the connection it owns. -/
theorem Owned.closeServer (h : Owned s) (hbefore : s.system.daemon.pc.ownsConn = true)
    (hsessions : system.sessions = s.system.sessions)
    (howns : system.daemon.pc.ownsConn = false) (hpc : system.daemon.pc ≠ .dispatch) :
    Owned
      { s with
        system := system
        conns := s.conns.modify s.conn fun conn => { conn with closes := conn.closes + 1 } } where
  length := by rw [h.length, hsessions]
  nodup := h.nodup
  lt := by simpa using h.lt
  accepted hnew := by cases howns.symm.trans hnew
  switch hnew := absurd hnew hpc
  unshared hnew := by cases howns.symm.trans hnew
  server hnew := by cases howns.symm.trans hnew
  worker i c sess conn' hworker hsess hconn := by
    obtain ⟨conn, hconn, -, hcloses⟩ := getElem?_close hconn
    have hne : s.conn ≠ c := by
      rintro rfl
      exact h.unshared hbefore (List.mem_of_getElem? hworker)
    rw [hsessions] at hsess
    rw [hcloses, if_neg hne, add_zero]
    exact h.worker i c sess conn hworker hsess hconn
  left c conn' hconn hrunning hworker _ := by
    obtain ⟨conn, hconn, hsame, hcloses⟩ := getElem?_close hconn
    rw [hcloses]
    by_cases hc : s.conn = c
    · subst hc
      rw [if_pos rfl, h.server hbefore conn hconn]
    · rw [if_neg hc, add_zero]
      rw [hsame] at hrunning
      exact h.left c conn hconn hrunning hworker fun _ => Ne.symm hc

/-- A worker closes its connection. -/
theorem Owned.closeWorker {sess sess' : Session} {owners : Mutex → Option Tid} (h : Owned s)
    (hsess : s.system.sessions[i]? = some sess) (hworker : s.workerConns[i]? = some c)
    (hpast : sess.pc.pastClose = false) (hpast' : sess'.pc.pastClose = true) :
    Owned
      { s with
        system :=
          { s.system with sessions := s.system.sessions.set i sess', owners := owners }
        conns := s.conns.modify c fun conn => { conn with closes := conn.closes + 1 } } where
  length := by rw [h.length, List.length_set]
  nodup := h.nodup
  lt := by simpa using h.lt
  accepted hnew hnil := h.accepted hnew (by simpa using congrArg List.length hnil)
  switch hpc conn' hconn' hrunning := by
    simp only [conn, List.length_modify] at hconn'
    obtain ⟨conn, hconn, hsame, -⟩ := getElem?_close hconn'
    rw [hsame] at hrunning
    exact h.switch hpc conn hconn hrunning
  unshared hnew := by simpa [conn] using h.unshared hnew
  server hnew conn' hconn' := by
    simp only [conn, List.length_modify] at hconn'
    obtain ⟨conn, hconn, -, hcloses⟩ := getElem?_close hconn'
    have hne : c ≠ s.conns.length - 1 := by
      rintro rfl
      exact h.unshared hnew (List.mem_of_getElem? hworker)
    rw [hcloses, h.server hnew conn hconn, if_neg hne]
  worker k d other conn' hworker' hother hconn' := by
    obtain ⟨conn, hconn, -, hcloses⟩ := getElem?_close hconn'
    change (s.system.sessions.set i sess')[k]? = some other at hother
    rw [System.getElem?_set hsess] at hother
    have hlt : i < s.workerConns.length := (List.getElem?_eq_some_iff.mp hworker).1
    rw [hcloses]
    by_cases hik : i = k
    · subst hik
      obtain rfl := Option.some.inj (hworker.symm.trans hworker')
      obtain rfl := Option.some.inj ((if_pos rfl).symm.trans hother)
      rw [h.worker i c sess conn hworker hsess hconn, hpast, hpast']
      simp
    · have hne : c ≠ d := by
        rintro rfl
        exact hik ((List.getElem?_inj hlt h.nodup).mp (hworker.trans hworker'.symm))
      rw [if_neg hik] at hother
      rw [if_neg hne, add_zero]
      exact h.worker k d other conn hworker' hother hconn
  left d conn' hconn' hrunning hnone hserver := by
    obtain ⟨conn, hconn, hsame, hcloses⟩ := getElem?_close hconn'
    have hne : c ≠ d := by
      rintro rfl
      exact hnone (List.mem_of_getElem? hworker)
    rw [hcloses, if_neg hne, add_zero]
    rw [hsame] at hrunning
    apply h.left d conn hconn hrunning hnone
    simpa [Served.conn] using hserver

/-- A new connection belongs to the server. -/
theorem Owned.accept (h : Owned s) (hpc : s.system.daemon.pc = .accept)
    (hsessions : system.sessions = s.system.sessions) (hpc' : system.daemon.pc = .dispatch)
    (hstate : system.daemon.appstate = s.system.daemon.appstate) :
    Owned
      { s with
        system := system
        conns := s.conns ++ [⟨s.system.daemon.appstate = .run, 0⟩] } where
  length := by rw [h.length, hsessions]
  nodup := h.nodup
  lt c hc := by
    rw [List.length_append]
    exact Nat.lt_add_right 1 (h.lt c hc)
  accepted _ := by simp
  switch _ conn hconn hrunning := by
    have hnew : conn = ⟨s.system.daemon.appstate = .run, 0⟩ := by
      simpa [Served.conn] using hconn.symm
    rw [hstate]
    simpa [hnew] using hrunning
  unshared _ hmem := by
    have hlt := h.lt _ hmem
    simp [Served.conn] at hlt
  server _ conn hconn := by
    have hnew : conn = ⟨s.system.daemon.appstate = .run, 0⟩ := by
      simpa [Served.conn] using hconn.symm
    rw [hnew]
  worker i c sess conn hworker hsess hconn := by
    have hlt := h.lt c (List.mem_of_getElem? hworker)
    rw [List.getElem?_append_left hlt] at hconn
    rw [hsessions] at hsess
    exact h.worker i c sess conn hworker hsess hconn
  left c conn hconn hrunning hworker hserver := by
    have hne := hserver (by rw [hpc']; rfl)
    have hlt : c < s.conns.length := by
      have hle := (List.getElem?_eq_some_iff.mp hconn).1
      simp only [Served.conn, List.length_append, List.length_singleton] at hne hle
      omega
    rw [List.getElem?_append_left hlt] at hconn
    apply h.left c conn hconn hrunning hworker
    intro howns
    rw [hpc] at howns
    cases howns

/-- A new worker takes over the connection of the server. -/
theorem Owned.create (h : Owned s) (hbefore : s.system.daemon.pc.ownsConn = true)
    (hsessions : system.sessions = s.system.sessions ++ [Session.init])
    (howns : system.daemon.pc.ownsConn = false) (hpc : system.daemon.pc ≠ .dispatch) :
    Owned { s with system := system, workerConns := s.workerConns ++ [s.conn] } where
  length := by rw [hsessions, List.length_append, List.length_append, h.length]; rfl
  nodup := by
    rw [← List.concat_eq_append]
    exact h.nodup.concat (h.unshared hbefore)
  lt c hc := by
    rcases List.mem_append.mp hc with hold | hnew
    · exact h.lt c hold
    · have hpos := List.length_pos_iff.mpr (h.accepted hbefore)
      obtain rfl := List.mem_singleton.mp hnew
      exact Nat.sub_lt hpos Nat.one_pos
  accepted hnew := by cases howns.symm.trans hnew
  switch hnew := absurd hnew hpc
  unshared hnew := by cases howns.symm.trans hnew
  server hnew := by cases howns.symm.trans hnew
  worker i c sess conn hworker hsess hconn := by
    rw [hsessions] at hsess
    rcases lt_or_ge i s.workerConns.length with hlt | hge
    · rw [List.getElem?_append_left hlt] at hworker
      rw [List.getElem?_append_left (h.length ▸ hlt)] at hsess
      exact h.worker i c sess conn hworker hsess hconn
    · rw [List.getElem?_append_right hge] at hworker
      rw [List.getElem?_append_right (h.length ▸ hge)] at hsess
      obtain rfl := List.mem_singleton.mp (List.mem_of_getElem? hworker)
      obtain rfl := List.mem_singleton.mp (List.mem_of_getElem? hsess)
      exact h.server hbefore conn hconn
  left c conn hconn hrunning hworker _ := by
    rw [List.mem_append, not_or] at hworker
    apply h.left c conn hconn hrunning hworker.1
    rintro _ rfl
    exact hworker.2 (List.mem_singleton.mpr rfl)

theorem connsBehind_of_closed_none (h : s.closed a = none) (ha : a ≠ .daemon (.accept .conn)) :
    s.connsBehind a = s.conns := by
  unfold connsBehind
  split
  · exact absurd rfl ha
  · rw [h]

theorem Owned.sessionStep (h : Owned s) {a : Session.Action} {sess sess' : Session}
    {owners : Mutex → Option Tid} (hsess : s.system.sessions[i]? = some sess)
    (hstep : sess.step (jobs i) a = some sess') :
    Owned
      ⟨{ s.system with sessions := s.system.sessions.set i sess', owners := owners },
        s.connsBehind (.session i a), s.workerConns⟩ := by
  rcases Session.pastClose_of_step hstep with ⟨ok, rfl, hpc, hpast'⟩ | ⟨hnot, hpast⟩
  · have hlt : i < s.workerConns.length := by
      rw [h.length]
      exact (List.getElem?_eq_some_iff.mp hsess).1
    have hworker : s.workerConns[i]? = some s.workerConns[i] := List.getElem?_eq_getElem hlt
    have hclosed : s.closed (.session i (.worker ok)) = some s.workerConns[i] := by
      simp only [closed, hsess, Option.any_some, hpc, decide_true, if_true]
      exact hworker
    simp only [connsBehind, hclosed]
    exact h.closeWorker hsess hworker (by rw [hpc]; rfl) hpast'
  · have hclosed : s.closed (.session i a) = none := by
      cases a with
      | worker ok => simp [closed, hsess, hnot ok rfl]
      | _ => rfl
    rw [connsBehind_of_closed_none hclosed nofun]
    refine h.frame (by simp) ?_ (fun hpc => ⟨hpc, id⟩) id .inl
    intro k other hother
    change (s.system.sessions.set i sess')[k]? = some other at hother
    rw [System.getElem?_set hsess] at hother
    split_ifs at hother with hik
    · subst hik
      obtain rfl := Option.some.inj hother
      exact ⟨sess, hsess, hpast⟩
    · exact ⟨other, hother, rfl⟩

/-- A step of the daemon that leaves the connections and the sessions alone. -/
theorem Owned.frameDaemon {daemon : Daemon} {owners : Mutex → Option Tid} (h : Owned s)
    (hswitch : daemon.pc = .dispatch → s.system.daemon.pc = .dispatch ∧
      (s.system.daemon.appstate = .run → daemon.appstate = .run))
    (howns : daemon.pc.ownsConn = s.system.daemon.pc.ownsConn) :
    Owned { s with system := ⟨daemon, s.system.sessions, owners⟩ } :=
  h.frame rfl (fun _ sess hsess => ⟨sess, hsess, rfl⟩) hswitch (howns ▸ id)
    fun hbefore => .inl (howns.trans hbefore)

theorem Owned.serverStep {daemon : Daemon} {owners : Mutex → Option Tid} {ok : Bool}
    (hmax : 0 < maxthreads) (hregular : s.system.daemon.pc.gaveUp = false)
    (hok : s.system.daemon.RecordsAllocated (.server ok)) (h : Owned s)
    (hstep : Daemon.ServerStep maxthreads s.system.daemon ok daemon) :
    Owned
      ⟨⟨daemon, s.system.sessions, owners⟩, s.connsBehind (.daemon (.server ok)),
        s.workerConns⟩ := by
  have hgaveUp : s.system.daemon.pc ≠ .createClose := by
    intro hpc
    rw [hpc] at hregular
    cases hregular
  by_cases hpc : s.system.daemon.pc = .closeConn
  · have hclosed : s.closed (.daemon (.server ok)) = some s.conn := if_pos (.inr hpc)
    have hloop : daemon.pc = .loop := by
      cases hstep with
      | move hmove => cases hmove <;> simp_all
      | _ => simp_all
    simp only [connsBehind, hclosed]
    exact h.closeServer (by rw [hpc]; rfl) rfl (by rw [hloop]; rfl) (by rw [hloop]; nofun)
  · have hclosed : s.closed (.daemon (.server ok)) = none :=
      if_neg (not_or.mpr ⟨hgaveUp, hpc⟩)
    rw [connsBehind_of_closed_none hclosed nofun]
    obtain ⟨hne, hsame | ⟨hnone, hdispatch, hstate⟩⟩ :=
      ownsConn_of_serverStep hmax hregular hok hpc hstep
    · exact h.frameDaemon (fun hpc => absurd hpc hne) hsame
    · refine h.frame rfl (fun _ sess hsess => ⟨sess, hsess, rfl⟩) (fun hpc => absurd hpc hne)
        (fun hnew => ?_) fun _ => .inr fun conn hconn => ?_
      · cases hnone.symm.trans hnew
      · -- what was accepted in `APP_RUN` is still dispatched in it
        rw [Bool.eq_false_iff]
        exact fun hrunning => hstate (h.switch hdispatch conn hconn hrunning)

theorem Owned.daemonStep {a : Daemon.Action} {daemon : Daemon} {owners : Mutex → Option Tid}
    (hmax : 0 < maxthreads) (hpool : Daemon.Pool maxthreads s.system.daemon)
    (hok : s.Undisturbed (.daemon a)) (h : Owned s)
    (hstep : s.system.daemon.step maxthreads a = some daemon) :
    Owned
      ⟨⟨daemon, s.system.sessions ++ System.newSessions a, owners⟩, s.connsBehind (.daemon a),
        s.workerConnsBehind (.daemon a)⟩ := by
  -- a step that only concerns the daemon, whose server does not wait in front of the switch
  have hframe : System.newSessions a = [] → s.closed (.daemon a) = none → a ≠ .accept .conn →
      s.workerConnsBehind (.daemon a) = s.workerConns →
      (daemon.pc = .dispatch → s.system.daemon.pc = .dispatch ∧
        (s.system.daemon.appstate = .run → daemon.appstate = .run)) →
      daemon.pc.ownsConn = s.system.daemon.pc.ownsConn →
      Owned
        ⟨⟨daemon, s.system.sessions ++ System.newSessions a, owners⟩, s.connsBehind (.daemon a),
          s.workerConnsBehind (.daemon a)⟩ := by
    intro hnew hclosed ha hworkers hswitch howns
    rw [hnew, List.append_nil, hworkers, connsBehind_of_closed_none hclosed (by simpa using ha)]
    exact h.frameDaemon hswitch howns
  cases Daemon.step_cases hstep with
  | @server ok _ hserver =>
    have hsessions : s.system.sessions ++ System.newSessions (.server ok) = s.system.sessions :=
      List.append_nil _
    rw [hsessions]
    exact h.serverStep hmax hpool.regular hok hserver
  | accepted hpc => exact h.accept hpc (List.append_nil _) rfl rfl
  | @created tid hpc _ =>
    have hconns : s.connsBehind (.daemon (.create (some tid))) = s.conns :=
      connsBehind_of_closed_none rfl nofun
    rw [hconns]
    exact h.create (by rw [hpc]; rfl) rfl rfl nofun
  | createFails hpc =>
    exact hframe rfl rfl nofun rfl nofun (by rw [hpc]; rfl)
  | worker _ hworker =>
    have hpc := hworker.pc_eq
    refine hframe rfl rfl nofun rfl (fun hdispatch => ?_) (by rw [hpc])
    refine ⟨hpc ▸ hdispatch, fun hrun => ?_⟩
    cases hworker <;> exact hrun
  | kill _ _ _ => exact hframe rfl rfl nofun rfl (fun hpc => ⟨hpc, id⟩) rfl
  | xalloc => exact hframe rfl rfl nofun rfl (fun hpc => ⟨hpc, id⟩) rfl
  | sigterm =>
    exact hframe rfl rfl nofun rfl (fun hpc => ⟨hpc, fun hrun => absurd ⟨hpc, hrun⟩ hok⟩) rfl
  | reload =>
    exact hframe rfl rfl nofun rfl (fun hpc => ⟨hpc, fun hrun => absurd ⟨hpc, hrun⟩ hok⟩) rfl
  | interrupted hpc _ => exact hframe rfl rfl nofun rfl nofun (by rw [hpc]; rfl)
  | stopped hpc _ => exact hframe rfl rfl nofun rfl nofun (by rw [hpc]; rfl)
  | acceptFails hpc => exact hframe rfl rfl nofun rfl nofun (by rw [hpc]; rfl)
  | readFails hpc => exact hframe rfl rfl nofun rfl nofun (by rw [hpc]; rfl)
  | read hpc => exact hframe rfl rfl nofun rfl nofun (by rw [hpc]; rfl)

theorem recordsAllocated_of_undisturbed (hok : s.Undisturbed a) (b : Daemon.Action)
    (ha : a = .daemon b) : s.system.daemon.RecordsAllocated b := by
  subst ha
  cases b with
  | server ok => exact hok
  | _ => trivial

theorem Owned.step (hmax : 0 < maxthreads) (hpaired : System.Paired maxthreads s.system)
    (hok : s.Undisturbed a) (h : Owned s) (hstep : s.step maxthreads jobs a = some s') :
    Owned s' ∧ System.Paired maxthreads s'.system := by
  obtain ⟨system, hsystem, rfl⟩ := Option.map_eq_some_iff.mp hstep
  refine ⟨?_, hpaired.step hmax (recordsAllocated_of_undisturbed hok) hsystem⟩
  cases System.step_cases hsystem with
  | daemon _ _ hdaemon => exact h.daemonStep hmax hpaired.pool hok hdaemon
  | session _ _ hsess hsession => exact h.sessionStep hsess hsession

theorem owned_run (hmax : 0 < maxthreads)
    (hrun : Run (step maxthreads jobs) Undisturbed (init appstate rblist) w t) :
    Owned t ∧ System.Paired maxthreads t.system := by
  refine hrun.invariant (P := fun s => Owned s ∧ System.Paired maxthreads s.system)
    ⟨owned_init appstate rblist, System.paired_init maxthreads appstate rblist⟩ ?_
  rintro s a s' ⟨h, hpaired⟩ hok hstep
  exact h.step hmax hpaired hok hstep

/-! ### The connections of a run -/

/-- A connection that nobody handles does not belong to the server, and its worker has closed
it. -/
theorem pastClose_of_not_handled (hpaired : System.Paired maxthreads t.system)
    {sess : Session} (hworker : t.workerConns[i]? = some c)
    (hsess : t.system.sessions[i]? = some sess) (hnone : ¬ t.Handled c) :
    sess.pc.pastClose = true := by
  by_contra hpast
  apply hnone
  refine .inr ⟨i, hworker, ?_, by simpa [hsess] using hpast⟩
  have hlt : i < t.system.daemon.workers.length := by
    rw [← hpaired.length]
    exact (List.getElem?_eq_some_iff.mp hsess).1
  have hbody : t.system.daemon.workers[i].phase = .body := by
    by_contra hphase
    have hreturned := hpaired.returned i _ sess (List.getElem?_eq_getElem hlt) hsess hphase
    rw [hreturned] at hpast
    exact hpast rfl
  simp [Daemon.inWorkerTh, List.getElem?_eq_getElem hlt, hbody]

/-- With worker threads, in every run in which `thr_register` does not fail for a worker and no
signal arrives between `accept` and the switch: a connection that was accepted in `APP_RUN` is
never closed twice, and it has been closed when neither the server nor a worker handles it any
more. -/
theorem closed_once (hmax : 0 < maxthreads)
    (hrun : Run (step maxthreads jobs) Undisturbed (init appstate rblist) w t) {conn : Connection}
    (hconn : t.conns[c]? = some conn) (hrunning : conn.running = true) :
    conn.closes ≤ 1 ∧ (¬ t.Handled c → conn.closes = 1) := by
  obtain ⟨h, hpaired⟩ := owned_run hmax hrun
  by_cases hworker : c ∈ t.workerConns
  · obtain ⟨i, hi⟩ := List.mem_iff_getElem?.mp hworker
    have hlt : i < t.system.sessions.length := by
      rw [← h.length]
      exact (List.getElem?_eq_some_iff.mp hi).1
    have hsess := List.getElem?_eq_getElem hlt
    have hcloses := h.worker i c _ conn hi hsess hconn
    refine ⟨?_, fun hnone => ?_⟩
    · rw [hcloses]
      split_ifs <;> decide
    · rw [hcloses, pastClose_of_not_handled hpaired hi hsess hnone, if_pos rfl]
  · by_cases hserver : t.system.daemon.pc.ownsConn = true ∧ c = t.conn
    · obtain ⟨howns, rfl⟩ := hserver
      have hzero := h.server howns conn hconn
      refine ⟨by omega, fun hnone => absurd (.inl ⟨?_, rfl⟩) hnone⟩
      generalize t.system.daemon.pc = pc at howns
      cases pc <;> first | rfl | cases howns
    · have hone := h.left c conn hconn hrunning hworker fun howns heq => hserver ⟨howns, heq⟩
      exact ⟨hone.le, fun _ => hone⟩

/-! ### The two ways to go wrong -/

/-- A step of the server that waits for no shared mutex. -/
theorem step_server {daemon : Daemon} {ok : Bool} (hruns : s.system.daemon.exited = none)
    (hkeep : s.system.daemon.pc.lockOp = .keep)
    (hstep : s.system.daemon.serverStep maxthreads ok = some daemon) :
    s.step maxthreads jobs (.daemon (.server ok)) =
      some
        ⟨⟨daemon, s.system.sessions, s.system.owners⟩, s.connsBehind (.daemon (.server ok)),
          s.workerConns⟩ := by
  have howners : s.system.ownersStep (.daemon (.server ok)) = some s.system.owners := by
    simp only [System.ownersStep, System.Action.thread, System.lockOp, hkeep]
    rfl
  have hdaemon : s.system.daemon.step maxthreads (.server ok) = some daemon := by
    rw [Daemon.step, if_neg (not_not.mpr hruns)]
    exact hstep
  simp [step, System.step, hruns, howners, System.bodyReturned, hdaemon, System.newSessions,
    workerConnsBehind]

/-- When `thr_register` fails, the server closes the connection in `wthread_create` and behind
it. -/
theorem exists_closed_twice {tid : Nat} {mgr : ThrMgr} {conn : Connection}
    (hpc : s.system.daemon.pc = .createRegister tid) (hmgr : s.system.daemon.workermgr = some mgr)
    (hruns : s.system.daemon.exited = none) (hconn : s.conns[s.conn]? = some conn) :
    ∃ w t, Run (step maxthreads jobs) (fun _ _ => True) s (.daemon (.server false) :: w) t ∧
      t.conns[s.conn]? = some { conn with closes := conn.closes + 2 } := by
  have hregister : s.system.daemon.serverStep maxthreads false =
      some { s.system.daemon with
        workermgr := some ⟨mgr.nthreads + 1, mgr.tlist⟩, pc := .createCancel } := by
    simp [Daemon.serverStep, hpc, hmgr, thrRegister]
  refine ⟨List.replicate 5 (.daemon (.server true)), _,
    .cons trivial (step_server hruns (by rw [hpc]; rfl) hregister) <|
    .cons trivial (step_server hruns rfl rfl) <| .cons trivial (step_server hruns rfl rfl) <|
    .cons trivial (step_server hruns rfl rfl) <| .cons trivial (step_server hruns rfl rfl) <|
    .cons trivial (step_server hruns rfl rfl) .nil, ?_⟩
  simp only [Served.conn] at hconn ⊢
  simp [connsBehind, closed, Served.conn, hpc, hconn, errThrSyserr]

/-- A signal between `accept` and the switch leaves the connection to nobody. -/
theorem exists_never_closed {a : Daemon.Action} {conn : Connection} (h : Owned s)
    (hpc : s.system.daemon.pc = .dispatch) (hstate : s.system.daemon.appstate = .run)
    (hruns : s.system.daemon.exited = none) (ha : a = .sigterm ∨ a = .reload)
    (hconn : s.conns[s.conn]? = some conn) :
    ∃ t, Run (step maxthreads jobs) (fun _ _ => True) s [.daemon a, .daemon (.server true)] t ∧
      t.conns[s.conn]? = some conn ∧ conn.closes = 0 ∧ ¬ t.Handled s.conn := by
  have howns : s.system.daemon.pc.ownsConn = true := by rw [hpc]; rfl
  -- the signal changes the state, and the switch takes another branch
  obtain ⟨state, pc, hpc', hsignal, hserver⟩ : ∃ state pc, ServerPc.handling pc = false ∧
      s.system.step maxthreads jobs (.daemon a) =
        some { s.system with daemon := { s.system.daemon with appstate := state } } ∧
      Daemon.serverStep maxthreads { s.system.daemon with appstate := state } true =
        some { s.system.daemon with appstate := state, pc := pc } := by
    rcases ha with rfl | rfl
    · refine ⟨.exit, .loop, rfl, ?_, by simp [Daemon.serverStep, hpc]⟩
      simp [System.step, System.ownersStep, System.Action.thread, hruns, System.bodyReturned,
        Daemon.step, System.newSessions]
    · refine ⟨.reload, .waitManager, rfl, ?_, by simp [Daemon.serverStep, hpc]⟩
      simp [System.step, System.ownersStep, System.Action.thread, hruns, System.bodyReturned,
        Daemon.step, System.newSessions, hstate]
  have hconns : s.connsBehind (.daemon a) = s.conns := by
    rcases ha with rfl | rfl <;> rfl
  have hworkers : s.workerConnsBehind (.daemon a) = s.workerConns := by
    rcases ha with rfl | rfl <;> rfl
  have hstep : s.step maxthreads jobs (.daemon a) =
      some
        { s with
          system := { s.system with daemon := { s.system.daemon with appstate := state } } } := by
    rw [step, hsignal, Option.map_some, hconns, hworkers]
  have hkeep : s.system.daemon.pc.lockOp = .keep := by rw [hpc]; rfl
  have hclosed : connsBehind
      { s with system := { s.system with daemon := { s.system.daemon with appstate := state } } }
      (.daemon (.server true)) = s.conns := by
    apply connsBehind_of_closed_none
    · simp [closed, hpc]
    · simp
  refine ⟨_, .cons trivial hstep (.cons trivial (step_server hruns hkeep hserver) .nil), ?_,
    h.server howns conn hconn, ?_⟩
  · rw [hclosed]
    exact hconn
  · rintro (⟨hhandling, -⟩ | ⟨i, hworker, -⟩)
    · cases hpc'.symm.trans hhandling
    · exact h.unshared howns (List.mem_of_getElem? hworker)

/-! ### Runs with a worker and without -/

/-- Nobody is busy with a connection when the server is outside of the handling and all workers
are behind their `close`. -/
theorem not_handled (hpc : t.system.daemon.pc.handling = false)
    (hpast : ∀ sess ∈ t.system.sessions, sess.pc.pastClose = true) (c : Nat) :
    ¬ t.Handled c := by
  rintro (⟨hhandling, -⟩ | ⟨i, -, -, hany⟩)
  · cases hpc.symm.trans hhandling
  · obtain ⟨sess, hsess, hnot⟩ := (Option.any_eq_true _ _).mp hany
    simp [hpast sess (List.mem_of_getElem? hsess)] at hnot

/-- A connection is handed to a worker, which closes it behind its reply. -/
def closingRun : List System.Action :=
  Daemon.firstWorker.map .daemon ++ Session.sampleRun.map (.session 0) ++
    [.session 0 (.worker true)]

/-- The worker of the only connection has closed it once. -/
theorem closed_once_closingRun :
    ∃ t, Run (step 10 fun _ => Session.sampleJob) Undisturbed (init .run []) closingRun t ∧
      ∃ conn, t.conns = [conn] ∧ ¬ t.Handled 0 ∧ conn.closes = 1 := by
  have hexec : (exec (step 10 fun _ => Session.sampleJob) Undisturbed (init .run [])
      closingRun).any (fun t => t.conns.map Connection.running = [true] ∧
        t.system.daemon.pc.handling = false ∧
        ∀ sess ∈ t.system.sessions, sess.pc.pastClose = true) = true := by decide +kernel
  obtain ⟨t, hrun, hconns, hpc, hpast⟩ := exists_run_of_exec hexec
  obtain ⟨conn, hconn, hrunning⟩ := List.map_eq_singleton_iff.mp hconns
  have hnone := not_handled hpc hpast 0
  have hclosed := closed_once (by decide) hrun (c := 0) (by rw [hconn]; rfl) hrunning
  exact ⟨t, hrun, conn, hconn, hnone, hclosed.2 hnone⟩

/-- The server accepts a connection and creates a worker, which it cannot register. -/
def unregistered : List Daemon.Action :=
  [.server true, .accept .conn] ++ List.replicate 8 (.server true) ++ [.create (some 1)] ++
    [.server false] ++ List.replicate 5 (.server true)

/-- A signal arrives between `accept` and the switch. -/
def interrupted : List Daemon.Action := [.server true, .accept .conn, .sigterm, .server true]

/-- When `thr_register` fails the connection is closed twice, and behind a signal that changes the
branch of the switch never. -/
theorem closed_twice_or_never :
    (∃ t, Run (step 10 fun _ => Session.sampleJob) (fun _ _ => True) (init .run [])
        (unregistered.map .daemon) t ∧ t.conns = [⟨true, 2⟩]) ∧
      ∃ t, Run (step 10 fun _ => Session.sampleJob) (fun _ _ => True) (init .run [])
          (interrupted.map .daemon) t ∧ t.conns = [⟨true, 0⟩] ∧ ¬ t.Handled 0 := by
  constructor
  · exact exists_run_of_exec (by decide +kernel)
  · have hexec : (exec (step 10 fun _ => Session.sampleJob) (fun _ _ => True) (init .run [])
        (interrupted.map .daemon)).any (fun t => t.conns = [⟨true, 0⟩] ∧
          t.system.daemon.pc.handling = false ∧
          ∀ sess ∈ t.system.sessions, sess.pc.pastClose = true) = true := by decide +kernel
    obtain ⟨t, hrun, hconns, hpc, hpast⟩ := exists_run_of_exec hexec
    exact ⟨t, hrun, hconns, not_handled hpc hpast 0⟩

end Served

end Rblpolicyd
