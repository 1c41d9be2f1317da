import Rblpolicyd.Config.Reload
import Rblpolicyd.Options.Settings
import Rblpolicyd.Pidfile.Check
import Rblpolicyd.Semantics.Ledger

/-!
# From the port to the end of the program

Behind its options `main` looks for a pid file, reads the configuration, opens and binds
the socket that the port names, goes into the background, serves, and ends. At each of its
ends it gives back what it has taken so far. What it takes is counted here: the strings, the
address that `getaddrinfo` returns, the log, the socket, and the memory of the list. In the
background `/` takes the place of the standard descriptors, and of a socket among them.

## Main definitions

* `PortAddress`, `portAddress` — the address that a port stands for
* `World` — what the system answers
* `Startup` — what has been taken, and the stores into address buffers
* `mainRun` — the part of `main` behind the options, up to its end

## Main results

* `mainRun_resources` — what is still held at each end
* `mainRun_stores_iff` — when the addresses fit their buffers
-/

namespace Rblpolicyd

open Libc Semantics

/-! ### The address of a port -/

/-- The three forms of a port. -/
inductive PortAddress
  | unix (path : Bytes)
  | host (hostname portname : Bytes)
  | service (name : Bytes)
  deriving DecidableEq

/-- A port that begins with a slash is a path; one with a slash is a host and a port. -/
def portAddress (port : Bytes) : PortAddress :=
  if port.head? = some 47 then .unix port
  else
    match strchr port 47 with
    | some ch => .host (port.takeWhile (· ≠ 47)) ch.tail
    | none => .service port

/-! ### What is taken and given back -/

/-- What `main` takes and has to give back. -/
inductive MainResource
  | cfgpath
  | pidfile
  | hostname
  | portname
  | addr
  | log
  | sock
  /-- the descriptor of `/` that has taken the place of the socket -/
  | root
  deriving DecidableEq

/-- A store of some bytes into a buffer. -/
structure Store where
  bytes : Nat
  room : Nat
  deriving DecidableEq

/-- What has been taken and not given back, with the list and the stores. -/
structure Startup extends Ledger MainResource where
  heap : CfgHeap
  rblist : Option Nat := none
  stores : List Store := []

namespace Startup

variable (s : Startup)

def acquire (r : MainResource) : Startup := { s with toLedger := s.toLedger.acquire r }

def release (r : MainResource) : Startup := { s with toLedger := s.toLedger.release r }

def store (bytes room : Nat) : Startup := { s with stores := s.stores ++ [⟨bytes, room⟩] }

/-- `cfg_free(&rblist)`. -/
def freeList : Startup := { s with heap := cfgFree s.heap s.rblist, rblist := none }

/-- The end of most failures. -/
def cleanup : Startup := ((s.freeList.release .pidfile).release .cfgpath).release .log

end Startup

/-- What the system answers: the pid file and the processes, the configuration, the results
of the calls, and what happens while the daemon serves. -/
structure World where
  processes : ProcessTable
  pidFile : Option PidFile
  config : Attempt
  resInit : Int
  socket : Int
  /-- the length of the first address, `none` where `getaddrinfo` fails -/
  getaddrinfo : Option Nat
  bind : Int
  listen : Int
  fork : Int
  reloads : List Attempt
  /-- the server ends because `accept` has failed -/
  acceptFails : Bool

/-- Where `main` ends. -/
inductive MainEnd
  | pidCheck
  | cfgRead
  | resInit
  | socket
  | resolve
  | bind
  | listen
  | parent
  | forkFailed
  | served
  deriving DecidableEq

/-- The status that the program ends with. -/
def MainEnd.status : MainEnd → Int
  | parent | served => 0
  | _ => 1

/-! ### The steps of `main` -/

/-- The rest of `main` goes on, or it has ended. -/
abbrev Outcome := Except (MainEnd × Startup) Startup

/-- `close(sock)`, which does nothing for -1; `r` is what the number stands for. -/
def Startup.closeSocket (s : Startup) (w : World) (r : MainResource) : Startup :=
  if w.socket < 0 then s else s.release r

/-- `socket`, and the check that follows it: it is descriptor 0 that is refused, and not -1. -/
def openSocket (w : World) (s : Startup) : Outcome :=
  let s := if w.socket < 0 then s else s.acquire .sock
  if w.socket = 0 then .error (.socket, s.cleanup) else .ok s

def bindSocket (w : World) (s : Startup) : Outcome :=
  if w.bind ≠ 0 then .error (.bind, (s.closeSocket w .sock).cleanup) else .ok s

/-- A socket in the file system: `strcpy` into `sun_path`. -/
def bindUnix (w : World) (port : Bytes) (s : Startup) : Outcome := do
  let s ← openSocket w s
  bindSocket w (s.store (port.length + 1) 108)

/-- A host and a port: the two strings are freed only where they cannot be resolved. -/
def bindHost (w : World) (s : Startup) : Outcome := do
  let s ← openSocket w s
  let s := (s.acquire .hostname).acquire .portname
  match w.getaddrinfo with
  | none =>
    .error (.resolve, (((s.release .hostname).release .portname).closeSocket w .sock).cleanup)
  | some addrlen => bindSocket w (((s.acquire .addr).store addrlen 16).release .addr)

/-- A service on all interfaces. -/
def bindService (w : World) (s : Startup) : Outcome := do
  let s ← openSocket w s
  match w.getaddrinfo with
  | none => .error (.resolve, (s.closeSocket w .sock).cleanup)
  | some addrlen => bindSocket w (((s.acquire .addr).store addrlen 16).release .addr)

def bindPort (w : World) (port : Bytes) (s : Startup) : Outcome :=
  match portAddress port with
  | .unix path => bindUnix w path s
  | .host _ _ => bindHost w s
  | .service _ => bindService w s

/-- The pid file, the configuration and the resolver library. -/
def prepare (w : World) (settings : Settings) (s : Startup) : Outcome :=
  let s := ((s.acquire .pidfile).acquire .cfgpath).acquire .log
  if (pidCheck w.processes settings.pidfile w.pidFile).result ≠ 0 then
    .error (.pidCheck, (((s.release .cfgpath).release .pidfile).freeList).release .log)
  else
    match cfgRead w.config.callocOk s.heap w.config.file with
    | (none, heap) =>
      let s := { s with heap := heap, rblist := none }
      .error (.cfgRead, (((s.release .cfgpath).release .pidfile).freeList).release .log)
    | (some first, heap) =>
      let s := { s with heap := heap, rblist := some first }
      if w.resInit ≠ 0 then .error (.resInit, s.cleanup) else .ok s

def listenSocket (w : World) (s : Startup) : Outcome :=
  if w.listen ≠ 0 then .error (.listen, (s.closeSocket w .sock).cleanup) else .ok s

/-- The socket has the number of a standard descriptor. -/
def World.SocketIsStandard (w : World) : Prop := 0 ≤ w.socket ∧ w.socket ≤ 2

instance (w : World) : Decidable w.SocketIsStandard :=
  inferInstanceAs (Decidable (0 ≤ w.socket ∧ w.socket ≤ 2))

/-- `close` of the descriptors 0, 1 and 2, `open` of `/`, which is 0 then, and the calls of `dup2`
that make it 1 and 2 as well. -/
def reopenStandard (w : World) (s : Startup) : Startup :=
  if w.SocketIsStandard then (s.release .sock).acquire .root else s

/-- The daemon goes into the background. -/
def Settings.Background (settings : Settings) : Prop :=
  settings.foreground = 0 ∧ settings.debug = 0

instance (settings : Settings) : Decidable settings.Background :=
  inferInstanceAs (Decidable (settings.foreground = 0 ∧ settings.debug = 0))

/-- The way into the background; the parent ends. -/
def background (w : World) (settings : Settings) (s : Startup) : Outcome :=
  if settings.Background then
    if w.fork > 0 then .error (.parent, s.cleanup)
    else if w.fork < 0 then .error (.forkFailed, s.cleanup)
    else .ok (reopenStandard w s)
  else .ok s

/-- What the number of the socket stands for while the daemon serves. -/
def servedSocket (w : World) (settings : Settings) : MainResource :=
  if settings.Background ∧ w.SocketIsStandard then .root else .sock

/-- The server with its reloads. Where `accept` fails it closes the socket. -/
def serve (w : World) (settings : Settings) (s : Startup) : Startup :=
  let loaded := w.reloads.foldl Loaded.reload ⟨s.heap, s.rblist⟩
  let s := { s with heap := loaded.heap, rblist := loaded.rblist }
  if w.acceptFails then s.closeSocket w (servedSocket w settings) else s

/-- `main` behind its options, up to the server. -/
def mainSteps (w : World) (settings : Settings) (port : Bytes) (s : Startup) : Outcome := do
  let s ← prepare w settings s
  let s ← bindPort w port s
  let s ← listenSocket w s
  background w settings s

/-- Where `main` ends, and what it holds there. -/
def mainRun (w : World) (settings : Settings) (port : Bytes) : MainEnd × Startup :=
  match mainSteps w settings port { heap := .empty } with
  | .error r => r
  | .ok s =>
    let s := (serve w settings s).closeSocket w (servedSocket w settings)
    (.served, (((s.release .cfgpath).release .pidfile).release .log).freeList)

/-! ### What is held on the way -/

/-- A property of the end that a step comes to, or of the state in which `main` goes on. -/
def Outcome.Meets (P : MainEnd × Startup → Prop) (Q : Startup → Prop) : Outcome → Prop
  | .error r => P r
  | .ok s => Q s

theorem Outcome.Meets.bind {P : MainEnd × Startup → Prop} {Q R : Startup → Prop} {o : Outcome}
    {f : Startup → Outcome} (h : o.Meets P Q) (hf : ∀ s, Q s → (f s).Meets P R) :
    Outcome.Meets P R (o >>= f) := by
  cases o with
  | error r => exact h
  | ok s => exact hf s h

/-- Just the resources in the set are held, each once; the memory is that of the list and of
some lost entries. -/
structure Startup.Owns (s : Startup) (taken : Finset MainResource) (lost : Nat) : Prop where
  ledger : s.toLedger.Owns ↑taken
  memory : ∃ cells, s.heap.IsList s.rblist cells ∧ s.heap.live = cells.length + lost

variable {s : Startup} {taken : Finset MainResource} {lost : Nat} {r : MainResource} {w : World}
  {port : Bytes} {settings : Settings}

namespace Startup.Owns

theorem held (h : s.Owns taken lost) (r : MainResource) :
    s.held r = if r ∈ taken then 1 else 0 := by
  have hheld := h.ledger.held_eq r
  simpa only [Finset.mem_coe] using hheld

theorem faults (h : s.Owns taken lost) : s.faults = [] := h.ledger.faults

theorem acquire (h : s.Owns taken lost) (hr : r ∉ taken) :
    (s.acquire r).Owns (insert r taken) lost := by
  refine ⟨?_, h.memory⟩
  rw [Finset.coe_insert]
  exact h.ledger.acquire hr

theorem release (h : s.Owns taken lost) (hr : r ∈ taken) :
    (s.release r).Owns (taken.erase r) lost := by
  refine ⟨?_, h.memory⟩
  rw [Finset.coe_erase]
  exact h.ledger.release hr

/-- What has been held is given back without a fault. -/
theorem release_faults (h : s.Owns taken lost) (hr : r ∈ taken) (faults : List MainResource) :
    Startup.release { s with faults := faults } r = { s.release r with faults := faults } := by
  have hheld : s.held r = 1 := h.ledger.holds r hr
  simp [Startup.release, Ledger.release, hheld]

theorem store (h : s.Owns taken lost) (bytes room : Nat) : (s.store bytes room).Owns taken lost :=
  ⟨h.ledger, h.memory⟩

/-- Freeing the list leaves the lost entries. -/
theorem freeList (h : s.Owns taken lost) :
    s.freeList.Owns taken lost ∧ s.freeList.heap.live = lost := by
  obtain ⟨cells, hlist, hlive⟩ := h.memory
  have hfree := Heap.live_freeList hlist hlist.length_le
  have hlost : s.freeList.heap.live = lost := by
    unfold Startup.freeList cfgFree
    simp only
    omega
  exact ⟨⟨h.ledger, [], rfl, by simp [hlost]⟩, hlost⟩

end Startup.Owns

@[simp] theorem Startup.release_heap (s : Startup) (r : MainResource) :
    (s.release r).heap = s.heap := rfl

/-- The two paths and the log. -/
def paths : Finset MainResource := {.pidfile, .cfgpath, .log}

/-- What the number of the socket stands for, where there is one. -/
def numbered (w : World) (r : MainResource) : Finset MainResource :=
  if w.socket < 0 then ∅ else {r}

/-- The socket, where there is one. -/
def sockets (w : World) : Finset MainResource := numbered w .sock

/-- The two strings of a host and a port. -/
def hostStrings (port : Bytes) : Finset MainResource :=
  match portAddress port with
  | .host _ _ => {.hostname, .portname}
  | _ => ∅

/-- What is not given back at an end. -/
def stillHeld (w : World) (port : Bytes) : MainEnd → Finset MainResource
  | .socket => sockets w
  | .bind | .listen | .served => hostStrings port
  | .parent | .forkFailed => hostStrings port ∪ sockets w
  | .pidCheck | .cfgRead | .resInit | .resolve => ∅

/-- The entries that are lost when `main` has come to an end. -/
def lostEntries (w : World) : MainEnd → Nat
  | .cfgRead => if w.config.leaks then 1 else 0
  | .served => w.reloads.countP Attempt.leaks
  | _ => 0

/-- What is closed twice by the server and `main` behind it. -/
def servedFaults (w : World) (settings : Settings) : List MainResource :=
  if w.acceptFails ∧ 0 ≤ w.socket then [servedSocket w settings] else []

/-- What `main` holds at an end, and what it has given back without holding it. -/
structure Ended (w : World) (settings : Settings) (port : Bytes) (r : MainEnd × Startup) :
    Prop where
  held : ∀ q, r.2.held q = if q ∈ stillHeld w port r.1 then 1 else 0
  faults : r.2.faults = if r.1 = .served then servedFaults w settings else []
  live : r.2.heap.live = lostEntries w r.1

theorem erase_paths {rest : Finset MainResource} (hrest : Disjoint paths rest) :
    (((paths ∪ rest).erase .pidfile).erase .cfgpath).erase .log = rest := by
  rw [Finset.disjoint_left] at hrest
  ext q
  have hq := @hrest q
  cases q <;> simp_all [paths]

/-- The paths and the log are given back; the rest is still held. -/
theorem Startup.Owns.cleanup {rest : Finset MainResource} (h : s.Owns (paths ∪ rest) lost)
    (hrest : Disjoint paths rest) : s.cleanup.Owns rest lost ∧ s.cleanup.heap.live = lost := by
  obtain ⟨hfree, hlost⟩ := h.freeList
  have hpid := hfree.release (r := .pidfile) (by simp [paths])
  have hcfg := hpid.release (r := .cfgpath) (by simp [paths])
  have hlog := hcfg.release (r := .log) (by simp [paths])
  rw [erase_paths hrest] at hlog
  exact ⟨hlog, by simp [Startup.cleanup, hlost]⟩

theorem disjoint_sockets (w : World) : Disjoint paths (sockets w) := by
  unfold sockets numbered
  split_ifs <;> simp [paths]

theorem disjoint_hostStrings (port : Bytes) : Disjoint paths (hostStrings port) := by
  unfold hostStrings
  split <;> simp [paths]

theorem disjoint_stillHeld (w : World) (port : Bytes) (e : MainEnd) :
    Disjoint paths (stillHeld w port e) := by
  cases e <;> simp [stillHeld, disjoint_sockets, disjoint_hostStrings]

/-- An end of `main` through the common way out. -/
theorem Ended.of_cleanup {e : MainEnd} (h : s.Owns (paths ∪ stillHeld w port e) 0)
    (hserved : e ≠ .served) (hlost : lostEntries w e = 0) : Ended w settings port (e, s.cleanup) := by
  obtain ⟨howns, hlive⟩ := h.cleanup (disjoint_stillHeld w port e)
  refine ⟨howns.held, ?_, by rw [hlive, hlost]⟩
  rw [if_neg hserved]
  exact howns.faults

/-! ### The steps -/

/-- The way out in front of the first list frees the paths first. -/
theorem Ended.of_early {e : MainEnd} (h : s.Owns paths lost) (hheld : stillHeld w port e = ∅)
    (hserved : e ≠ .served) (hlost : lostEntries w e = lost) :
    Ended w settings port (e, (((s.release .cfgpath).release .pidfile).freeList).release .log) := by
  have hcfg := h.release (r := .cfgpath) (by simp [paths])
  have hpid := hcfg.release (r := .pidfile) (by simp [paths])
  obtain ⟨hfree, hlive⟩ := hpid.freeList
  have hlog := hfree.release (r := .log) (by simp [paths])
  have hset : ((paths.erase .cfgpath).erase .pidfile).erase .log = ∅ := by decide
  rw [hset] at hlog
  refine ⟨?_, ?_, by rw [Startup.release_heap, hlive, hlost]⟩
  · rw [hheld]
    exact hlog.held
  · rw [if_neg hserved]
    exact hlog.faults

theorem prepare_meets (w : World) (settings : Settings) (port : Bytes) :
    (prepare w settings { heap := .empty }).Meets (Ended w settings port) (·.Owns paths 0) := by
  have hstart : Startup.Owns { heap := .empty } ∅ 0 := by
    refine ⟨?_, [], rfl, rfl⟩
    rw [Finset.coe_empty]
    exact .empty
  have htaken := ((hstart.acquire (r := .pidfile) (by simp)).acquire (r := .cfgpath)
    (by simp)).acquire (r := .log) (by simp)
  have hset : insert MainResource.log (insert .cfgpath (insert .pidfile ∅)) = paths := by decide
  rw [hset] at htaken
  obtain ⟨first, heap, cells, hread, hreads⟩ := w.config.reads .empty
  have hempty : (Heap.empty : CfgHeap).live = 0 := rfl
  have hlive := hreads.live
  rw [hempty, Nat.zero_add] at hlive
  unfold prepare
  dsimp only
  by_cases hpid : (pidCheck w.processes settings.pidfile w.pidFile).result ≠ 0
  · rw [if_pos hpid]
    exact Ended.of_early htaken rfl (by decide) rfl
  rw [if_neg hpid]
  have hheap : (((Startup.acquire { heap := .empty } .pidfile).acquire .cfgpath).acquire
      .log).heap = .empty := rfl
  rw [hheap, hread]
  cases first with
  | none =>
    obtain rfl := hreads.list.eq_nil
    refine Ended.of_early ?_ rfl (by decide) rfl
    exact ⟨htaken.ledger, [], rfl, hlive⟩
  | some first =>
    rw [hreads.leaks_eq] at hlive
    have howns : Startup.Owns { (((Startup.acquire { heap := .empty } .pidfile).acquire
        .cfgpath).acquire .log) with heap := heap, rblist := some first } paths 0 :=
      ⟨htaken.ledger, cells, hreads.list, hlive⟩
    dsimp only
    split_ifs with hres
    · apply Ended.of_cleanup _ (by decide) rfl
      simpa [stillHeld] using howns
    · exact howns

theorem openSocket_meets (h : s.Owns paths 0) (port : Bytes) :
    (openSocket w s).Meets (Ended w settings port) (·.Owns (paths ∪ sockets w) 0) := by
  have htaken : (if w.socket < 0 then s else s.acquire .sock).Owns (paths ∪ sockets w) 0 := by
    unfold sockets numbered
    split_ifs
    · simpa using h
    · have hsock := h.acquire (r := .sock) (by simp [paths])
      have hset : insert MainResource.sock paths = paths ∪ {.sock} := by decide
      rwa [hset] at hsock
  unfold openSocket
  dsimp only
  generalize (if w.socket < 0 then s else s.acquire .sock) = opened at htaken ⊢
  split_ifs with hzero
  · exact Ended.of_cleanup htaken (by decide) rfl
  · exact htaken

theorem Startup.Owns.closeSocket {rest : Finset MainResource}
    (h : s.Owns (rest ∪ numbered w r) lost) (hrest : r ∉ rest) :
    (s.closeSocket w r).Owns rest lost := by
  unfold Startup.closeSocket
  unfold numbered at h
  split_ifs at h ⊢
  · simpa using h
  · have hclose := h.release (r := r) (by simp)
    have hset : (rest ∪ {r}).erase r = rest := by
      ext q
      by_cases hq : q = r
      · simp [hq, hrest]
      · simp [hq]
    rwa [hset] at hclose

theorem sock_notMem (port : Bytes) : MainResource.sock ∉ paths ∪ hostStrings port := by
  unfold hostStrings
  split <;> simp [paths]

theorem root_notMem (port : Bytes) : MainResource.root ∉ paths ∪ hostStrings port := by
  unfold hostStrings
  split <;> simp [paths]

theorem bindSocket_meets (h : s.Owns (paths ∪ hostStrings port ∪ sockets w) 0) :
    (bindSocket w s).Meets (Ended w settings port)
      (·.Owns (paths ∪ hostStrings port ∪ sockets w) 0) := by
  unfold bindSocket
  split_ifs with hbind
  · apply Ended.of_cleanup _ (by decide) rfl
    exact h.closeSocket (sock_notMem port)
  · exact h

/-- The address of `getaddrinfo` is copied and given back. -/
theorem Startup.Owns.resolved (h : s.Owns (paths ∪ hostStrings port ∪ sockets w) 0)
    (addrlen : Nat) : (((s.acquire .addr).store addrlen 16).release .addr).Owns
      (paths ∪ hostStrings port ∪ sockets w) 0 := by
  have haddr : MainResource.addr ∉ paths ∪ hostStrings port ∪ sockets w := by
    unfold hostStrings sockets numbered
    split <;> split_ifs <;> simp [paths]
  have hdone := ((h.acquire haddr).store addrlen 16).release (r := .addr) (by simp)
  rwa [Finset.erase_insert haddr] at hdone

/-- The strings of a host and a port. -/
theorem Startup.Owns.strings (h : s.Owns (paths ∪ sockets w) 0)
    (hstrings : hostStrings port = {.hostname, .portname}) :
    ((s.acquire .hostname).acquire .portname).Owns (paths ∪ hostStrings port ∪ sockets w) 0 := by
  have hhost : MainResource.hostname ∉ paths ∪ sockets w := by
    unfold sockets numbered
    split_ifs <;> simp [paths]
  have hport : MainResource.portname ∉ insert .hostname (paths ∪ sockets w) := by
    unfold sockets numbered
    split_ifs <;> simp [paths]
  have hset : insert MainResource.portname (insert .hostname (paths ∪ sockets w)) =
      paths ∪ hostStrings port ∪ sockets w := by
    rw [hstrings]
    ext q
    simp only [Finset.mem_insert, Finset.mem_union, Finset.mem_singleton]
    tauto
  rw [← hset]
  exact (h.acquire hhost).acquire hport

theorem bindPort_meets (h : s.Owns paths 0) :
    (bindPort w port s).Meets (Ended w settings port)
      (·.Owns (paths ∪ hostStrings port ∪ sockets w) 0) := by
  have hsockets : hostStrings port = ∅ → paths ∪ sockets w = paths ∪ hostStrings port ∪ sockets w :=
    fun hnone => by rw [hnone, Finset.union_empty]
  unfold bindPort
  cases haddress : portAddress port with
  | unix path =>
    have hnone : hostStrings port = ∅ := by rw [hostStrings, haddress]
    apply (openSocket_meets h port).bind
    intro s hs
    rw [hsockets hnone] at hs
    exact bindSocket_meets (hs.store _ _)
  | service name =>
    have hnone : hostStrings port = ∅ := by rw [hostStrings, haddress]
    apply (openSocket_meets h port).bind
    intro s hs
    cases w.getaddrinfo with
    | none =>
      apply Ended.of_cleanup _ (by decide) rfl
      rw [stillHeld, Finset.union_empty]
      exact hs.closeSocket (by simp [paths])
    | some addrlen =>
      rw [hsockets hnone] at hs
      exact bindSocket_meets (hs.resolved addrlen)
  | host hostname portname =>
    have hboth : hostStrings port = {.hostname, .portname} := by rw [hostStrings, haddress]
    apply (openSocket_meets h port).bind
    intro s hs
    have hstrings := hs.strings hboth
    cases w.getaddrinfo with
    | none =>
      apply Ended.of_cleanup _ (by decide) rfl
      rw [hboth] at hstrings
      have hfreed := (hstrings.release (r := .hostname) (by simp)).release (r := .portname)
        (by simp)
      have hset : ((paths ∪ {.hostname, .portname} ∪ sockets w).erase .hostname).erase
          .portname = paths ∪ sockets w := by
        unfold sockets numbered
        split_ifs <;> decide
      rw [hset] at hfreed
      rw [stillHeld, Finset.union_empty]
      exact hfreed.closeSocket (by simp [paths])
    | some addrlen => exact bindSocket_meets (hstrings.resolved addrlen)

theorem listenSocket_meets (h : s.Owns (paths ∪ hostStrings port ∪ sockets w) 0) :
    (listenSocket w s).Meets (Ended w settings port)
      (·.Owns (paths ∪ hostStrings port ∪ sockets w) 0) := by
  unfold listenSocket
  split_ifs
  · apply Ended.of_cleanup _ (by decide) rfl
    exact h.closeSocket (sock_notMem port)
  · exact h

/-- A socket among the standard descriptors gives way to `/`. -/
theorem Startup.Owns.reopen (h : s.Owns (paths ∪ hostStrings port ∪ sockets w) 0)
    (hbackground : settings.Background) :
    (reopenStandard w s).Owns (paths ∪ hostStrings port ∪ numbered w (servedSocket w settings)) 0 := by
  unfold reopenStandard servedSocket
  by_cases hstandard : w.SocketIsStandard
  · have hopen : ¬ w.socket < 0 := not_lt.mpr hstandard.1
    rw [if_pos hstandard, if_pos ⟨hbackground, hstandard⟩, numbered, if_neg hopen]
    have hclosed := h.closeSocket (sock_notMem port)
    rw [Startup.closeSocket, if_neg hopen] at hclosed
    have htaken := hclosed.acquire (root_notMem port)
    rwa [← Finset.union_singleton] at htaken
  · rw [if_neg hstandard, if_neg fun h => hstandard h.2]
    exact h

theorem background_meets (h : s.Owns (paths ∪ hostStrings port ∪ sockets w) 0) :
    (background w settings s).Meets (Ended w settings port)
      (·.Owns (paths ∪ hostStrings port ∪ numbered w (servedSocket w settings)) 0) := by
  have hheld := h
  rw [Finset.union_assoc] at hheld
  unfold background
  split_ifs with hbackground
  · exact Ended.of_cleanup hheld (by decide) rfl
  · exact Ended.of_cleanup hheld (by decide) rfl
  · exact h.reopen hbackground
  · have hsame : servedSocket w settings = .sock := if_neg fun h => hbackground h.1
    rw [hsame]
    exact h

/-- Up to the server, `main` ends as it should, or holds what it has taken. -/
theorem mainSteps_meets (w : World) (settings : Settings) (port : Bytes) :
    (mainSteps w settings port { heap := .empty }).Meets (Ended w settings port)
      (·.Owns (paths ∪ hostStrings port ∪ numbered w (servedSocket w settings)) 0) := by
  unfold mainSteps
  apply (prepare_meets w settings port).bind
  intro s hs
  apply (bindPort_meets hs).bind
  intro s hs
  apply (listenSocket_meets hs).bind
  intro s hs
  exact background_meets hs

/-! ### The end of the server -/

/-- The server keeps what is held, and loses the entries of its reloads. -/
theorem Startup.Owns.served (h : s.Owns taken 0) :
    Startup.Owns { s with
        heap := (w.reloads.foldl Loaded.reload ⟨s.heap, s.rblist⟩).heap,
        rblist := (w.reloads.foldl Loaded.reload ⟨s.heap, s.rblist⟩).rblist }
      taken (w.reloads.countP Attempt.leaks) := by
  obtain ⟨cells, hlist, hlive⟩ := h.memory
  obtain ⟨cells', hlist', hmemory, -⟩ :=
    Loaded.reloads_memory (s := ⟨s.heap, s.rblist⟩) hlist w.reloads
  refine ⟨h.ledger, cells', hlist', ?_⟩
  simp only at hmemory ⊢
  omega

theorem servedSocket_notMem (w : World) (settings : Settings) (port : Bytes) :
    servedSocket w settings ∉ paths ∪ hostStrings port := by
  unfold servedSocket
  split_ifs
  · exact root_notMem port
  · exact sock_notMem port

/-- Behind the server the socket is closed, for the second time where `accept` has failed. -/
theorem Startup.Owns.closeServed {rest : Finset MainResource}
    (h : s.Owns (rest ∪ numbered w (servedSocket w settings)) lost)
    (hrest : servedSocket w settings ∉ rest) :
    ∃ t : Startup, t.Owns rest lost ∧
      (if w.acceptFails then s.closeSocket w (servedSocket w settings) else s).closeSocket w
        (servedSocket w settings) = { t with faults := servedFaults w settings } := by
  have hclosed := h.closeSocket hrest
  refine ⟨s.closeSocket w (servedSocket w settings), hclosed, ?_⟩
  have hfaults := hclosed.faults
  cases hfails : w.acceptFails with
  | false =>
    simp only [Bool.false_eq_true, if_false, servedFaults, hfails, false_and]
    rw [← hfaults]
  | true =>
    have hheld : (s.closeSocket w (servedSocket w settings)).held (servedSocket w settings) = 0 := by
      rw [hclosed.held, if_neg hrest]
    simp only [if_true, servedFaults, hfails, true_and]
    generalize s.closeSocket w (servedSocket w settings) = t at hheld hfaults ⊢
    unfold Startup.closeSocket Startup.release
    by_cases hsocket : w.socket < 0
    · simp [hsocket, not_le.mpr hsocket, ← hfaults]
    · simp [hsocket, not_lt.mp hsocket, Ledger.release, hheld, hfaults]

/-- `main` comes to the socket. -/
def Prepared (w : World) (settings : Settings) : Prop :=
  (pidCheck w.processes settings.pidfile w.pidFile).result = 0 ∧ w.config.accepted ≠ none ∧
    w.resInit = 0

/-- The store into an address buffer. -/
def addressStores (w : World) (port : Bytes) : List Store :=
  if w.socket = 0 then []
  else
    match portAddress port with
    | .unix path => [⟨path.length + 1, 108⟩]
    | .host _ _ | .service _ => (w.getaddrinfo.map fun addrlen => ⟨addrlen, 16⟩).toList

section Stores

variable (s)

@[simp] theorem Startup.acquire_stores (r : MainResource) : (s.acquire r).stores = s.stores := rfl

@[simp] theorem Startup.release_stores (r : MainResource) : (s.release r).stores = s.stores := rfl

@[simp] theorem Startup.freeList_stores : s.freeList.stores = s.stores := rfl

@[simp] theorem Startup.cleanup_stores : s.cleanup.stores = s.stores := by
  simp [Startup.cleanup]

@[simp] theorem Startup.closeSocket_stores (w : World) (r : MainResource) :
    (s.closeSocket w r).stores = s.stores := by
  unfold Startup.closeSocket
  split_ifs <;> simp

end Stores

/-- What `main` has stored at its end, or goes on with. -/
abbrev Outcome.Stored (stores : List Store) : Outcome → Prop :=
  Outcome.Meets (fun r => r.2.stores = stores) (·.stores = stores)

theorem bindSocket_stored (w : World) (s : Startup) : (bindSocket w s).Stored s.stores := by
  unfold bindSocket
  split_ifs
  · show (s.closeSocket w .sock).cleanup.stores = s.stores
    simp
  · rfl

theorem listenSocket_stored (w : World) (s : Startup) : (listenSocket w s).Stored s.stores := by
  unfold listenSocket
  split_ifs
  · show (s.closeSocket w .sock).cleanup.stores = s.stores
    simp
  · rfl

theorem background_stored (w : World) (settings : Settings) (s : Startup) :
    (background w settings s).Stored s.stores := by
  have hreopen : (reopenStandard w s).stores = s.stores := by
    unfold reopenStandard
    split_ifs <;> rfl
  unfold background
  split_ifs
  · exact s.cleanup_stores
  · exact s.cleanup_stores
  · exact hreopen
  · rfl

theorem openSocket_stored (w : World) (s : Startup) :
    if w.socket = 0 then ∃ t, openSocket w s = .error (.socket, t) ∧ t.stores = s.stores
    else ∃ t, openSocket w s = .ok t ∧ t.stores = s.stores := by
  have hopened : (if w.socket < 0 then s else s.acquire .sock).stores = s.stores := by
    split_ifs <;> rfl
  unfold openSocket
  dsimp only
  generalize (if w.socket < 0 then s else s.acquire .sock) = opened at hopened ⊢
  split_ifs
  · exact ⟨_, rfl, opened.cleanup_stores.trans hopened⟩
  · exact ⟨_, rfl, hopened⟩

theorem Outcome.Stored.of_eq {o : Outcome} {stores stores' : List Store} (h : o.Stored stores)
    (heq : stores = stores') : o.Stored stores' := heq ▸ h

theorem bindPort_stored (w : World) (port : Bytes) {s : Startup} (hs : s.stores = []) :
    (bindPort w port s).Stored (addressStores w port) := by
  have hopen := openSocket_stored w s
  rw [hs] at hopen
  unfold bindPort addressStores
  by_cases hzero : w.socket = 0
  · rw [if_pos hzero] at hopen ⊢
    obtain ⟨t, ht, hstores⟩ := hopen
    cases portAddress port with
    | unix path =>
      simp only [bindUnix, ht]
      exact hstores
    | host hostname portname =>
      simp only [bindHost, ht]
      exact hstores
    | service name =>
      simp only [bindService, ht]
      exact hstores
  · rw [if_neg hzero] at hopen ⊢
    obtain ⟨t, ht, hstores⟩ := hopen
    cases portAddress port with
    | unix path =>
      simp only [bindUnix, ht]
      exact (bindSocket_stored w _).of_eq (by simp [Startup.store, hstores])
    | host hostname portname =>
      simp only [bindHost, ht]
      cases w.getaddrinfo with
      | none =>
        show Startup.stores _ = _
        simp [hstores]
      | some addrlen =>
        exact (bindSocket_stored w _).of_eq (by simp [Startup.store, hstores])
    | service name =>
      simp only [bindService, ht]
      cases w.getaddrinfo with
      | none =>
        show Startup.stores _ = _
        simp [hstores]
      | some addrlen =>
        exact (bindSocket_stored w _).of_eq (by simp [Startup.store, hstores])

open Classical in
/-- The way to the socket stores nothing into an address buffer. -/
theorem prepare_stored (w : World) (settings : Settings) :
    if Prepared w settings then
      ∃ s, prepare w settings { heap := .empty } = .ok s ∧ s.stores = []
    else ∃ e s, prepare w settings { heap := .empty } = .error (e, s) ∧ s.stores = [] := by
  obtain ⟨first, heap, cells, hread, hreads⟩ := w.config.reads .empty
  have hheap : (((Startup.acquire { heap := .empty } .pidfile).acquire .cfgpath).acquire
      .log).heap = .empty := rfl
  unfold prepare Prepared
  dsimp only
  by_cases hpid : (pidCheck w.processes settings.pidfile w.pidFile).result = 0
  · rw [if_neg (not_not.mpr hpid), hheap, hread]
    cases first with
    | none =>
      have hrefused : w.config.accepted = none := hreads.eq_none_iff.mp rfl
      rw [if_neg fun h => h.2.1 hrefused]
      exact ⟨_, _, rfl, by simp⟩
    | some first =>
      have haccepted : w.config.accepted ≠ none :=
        fun hnone => absurd (hreads.eq_none_iff.mpr hnone) nofun
      by_cases hres : w.resInit = 0
      · rw [if_pos ⟨hpid, haccepted, hres⟩]
        dsimp only
        rw [if_neg (not_not.mpr hres)]
        exact ⟨_, rfl, rfl⟩
      · rw [if_neg fun h => hres h.2.2]
        dsimp only
        rw [if_pos hres]
        exact ⟨_, _, rfl, by simp⟩
  · rw [if_neg fun h => hpid h.1, if_pos hpid]
    exact ⟨_, _, rfl, by simp⟩

theorem serve_stores (w : World) (settings : Settings) (s : Startup) :
    (serve w settings s).stores = s.stores := by
  unfold serve
  dsimp only
  split_ifs
  · exact Startup.closeSocket_stores _ w _
  · rfl

open Classical in
/-- The stores of a run. -/
theorem mainRun_stores (w : World) (settings : Settings) (port : Bytes) :
    (mainRun w settings port).2.stores =
      if Prepared w settings then addressStores w port else [] := by
  have hprepare := prepare_stored w settings
  have hrun : (mainSteps w settings port { heap := .empty }).Stored
      (if Prepared w settings then addressStores w port else []) := by
    unfold mainSteps
    by_cases hprepared : Prepared w settings
    · rw [if_pos hprepared] at hprepare ⊢
      obtain ⟨s, hs, hstores⟩ := hprepare
      rw [hs]
      apply (bindPort_stored w port hstores).bind
      intro s hs
      apply ((listenSocket_stored w s).of_eq hs).bind
      intro s hs
      exact (background_stored w settings s).of_eq hs
    · rw [if_neg hprepared] at hprepare ⊢
      obtain ⟨e, s, hs, hstores⟩ := hprepare
      rw [hs]
      exact hstores
  unfold mainRun
  cases hsteps : mainSteps w settings port { heap := .empty } with
  | error r =>
    rw [hsteps] at hrun
    exact hrun
  | ok s =>
    rw [hsteps] at hrun
    simp only [Startup.freeList_stores, Startup.release_stores, Startup.closeSocket_stores,
      serve_stores]
    exact hrun

/-- Where `main` comes to a socket, the address fits its buffer exactly when the path has
less than 108 characters, or the first address is that of a `sockaddr_in`. -/
theorem mainRun_stores_iff (w : World) (settings : Settings) (port : Bytes) :
    (∀ st ∈ (mainRun w settings port).2.stores, st.bytes ≤ st.room) ↔
      (Prepared w settings → w.socket ≠ 0 →
        match portAddress port with
        | .unix path => path.length < 108
        | .host _ _ | .service _ => ∀ addrlen, w.getaddrinfo = some addrlen → addrlen ≤ 16) := by
  classical
  rw [mainRun_stores]
  by_cases hprepared : Prepared w settings
  · rw [if_pos hprepared]
    unfold addressStores
    by_cases hzero : w.socket = 0
    · simp [hzero]
    · cases portAddress port with
      | unix path =>
        simp only [hprepared, hzero, if_false, List.forall_mem_singleton, true_imp_iff,
          not_false_eq_true, ne_eq]
        exact Nat.succ_le_iff
      | host hostname portname => simp [hprepared, hzero]
      | service name => simp [hprepared, hzero]
  · simp [hprepared]

end Rblpolicyd
