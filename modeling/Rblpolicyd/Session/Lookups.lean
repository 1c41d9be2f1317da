import Rblpolicyd.Request.Address
import Rblpolicyd.Session.Verdict

/-!
# The names that a session looks up

The records of a session carry the names that its solvers resolve. They are the reversed address
in the domain of each blacklist, in the order of the configuration. Whether there are any is
decided by the one call of `sscanf`, which takes more for an address than a dotted quad.

## Main definitions

* `Session.Named` — each record has the name for its blacklist
* `LooksUpAddress` — only addresses are looked up, and under their names

## Main results

* `Session.Named.step`, `Session.Named.run` — the records of every state have their names
* `looksUpAddress_iff` — for which clients the check is right
-/

namespace Rblpolicyd

open Libc Semantics

namespace Session

variable {job : Job} {s s' : Session} {ok : Bool} {j : Nat} {d : Dispatch} {solver : Solver}

/-- Each record has the name of the reversed address in the domain of its blacklist. -/
def Named (s : Session) : Prop :=
  ∀ (k : Nat) (d : Dispatch), s.dispatched[k]? = some d →
    d.resdata.hostname = lookupName s.rdn d.resdata.rblitem.rbldomain

theorem Named.workerStep (h : Named s) (hrec : Records job s.pc.phase s)
    (hstep : WorkerStep job s ok s') : Named s' := by
  cases hstep with
  -- there is no record yet when the address is reversed
  | prepare hpc _ =>
    rw [hpc] at hrec
    intro k d hd
    change s.dispatched[k]? = some d at hd
    rw [(hrec.idle rfl).2] at hd
    cases hd
  | record _ _ => exact forall_append h rfl
  -- the names of the records that are there do not change
  | create _ hd =>
    have hname := h _ _ hd
    exact forall_put hd h hname
  | freeHostname _ hd =>
    have hname := h _ _ hd
    exact forall_put hd h hname
  | freeResdata _ hd =>
    have hname := h _ _ hd
    exact forall_put hd h hname
  | _ => exact h

theorem Named.solverStep (h : Named s) (hd : s.dispatched[j]? = some d)
    (hstep : SolverStep job s j d solver s') : Named s' := by
  have hname := h j d hd
  cases hstep with
  | _ => exact forall_put hd h hname

theorem Named.step {a : Action} (h : Named s) (hinv : Inv job s)
    (hstep : s.step job a = some s') : Named s' := by
  cases a with
  | worker ok => exact h.workerStep hinv.records (workerStep_cases hstep)
  | wake =>
    obtain ⟨-, rfl⟩ := wakeStep_cases hstep
    exact h
  | solver j ok =>
    obtain ⟨d, solver, hd, -, -, hcases⟩ := solverStep_cases hstep
    exact h.solverStep hd hcases
  | kill j =>
    obtain ⟨d, solver, hd, -, -, -, -, rfl⟩ := killStep_cases hstep
    exact forall_put hd h (h j d hd)

/-- The records have their names in every state a session reaches. -/
theorem Named.run {ok : Session → Action → Prop} {w : List Action} {t : Session}
    (h : Run (Session.step job) ok init w t) : Named t := by
  have hboth : Inv job t ∧ Named t :=
    h.invariant (P := fun t => Inv job t ∧ Named t) ⟨inv_init, fun k d hd => by cases hd⟩
      fun _ _ _ hinv _ hstep => ⟨hinv.1.step hstep, hinv.2.step hinv.1 hstep⟩
  exact hboth.2

/-- Without an error, the records are those of the blacklists so far, with the names that the
address has in their domains. -/
theorem Inv.names_eq (h : Inv job s) (hnamed : Named s) {client rdn : Bytes}
    (hprepare : prepareClient job.request = some (client, rdn)) :
    s.dispatched.map (fun d => (d.resdata.rblitem, d.resdata.hostname)) =
      (job.rblist.take s.dispatched.length).map fun item =>
        (item, lookupName rdn item.rbldomain) := by
  have hrdn : s.dispatched ≠ [] → s.rdn = rdn := by
    intro hne
    have hstart : s.pc.phase ≠ .start := fun hpc => hne (h.records.idle hpc).2
    have herr : s.err = false := by
      by_contra herr
      exact hne (h.records.rejected (by simpa using herr)).2
    have hsome := (h.records.prepared hstart herr).symm.trans hprepare
    exact (Prod.mk.inj (Option.some.inj hsome)).2
  rw [← h.records.items, List.map_map]
  apply List.map_congr_left
  intro d hd
  obtain ⟨k, hk⟩ := List.mem_iff_getElem?.mp hd
  rw [Function.comp_apply, hnamed k d hk, hrdn (List.ne_nil_of_mem hd)]

/-- An error is set exactly when the request cannot be prepared. -/
theorem Inv.err_eq_false_iff (h : Inv job s) (hstart : s.pc.phase ≠ .start) :
    s.err = false ↔ prepareClient job.request ≠ none := by
  constructor
  · intro herr
    rw [h.records.prepared hstart herr]
    simp
  · intro hne
    by_contra herr
    exact hne (h.records.rejected (by simpa using herr)).1

/-- A request that cannot be prepared never has a record. -/
theorem Inv.dispatched_eq_nil (h : Inv job s) (hnone : prepareClient job.request = none) :
    s.dispatched = [] := by
  by_cases hstart : s.pc.phase = .start
  · exact (h.records.idle hstart).2
  · have herr : s.err = true := by
      simpa using fun hfalse => (h.err_eq_false_iff hstart).mp hfalse hnone
    exact (h.records.rejected herr).2

/-- The first step of the worker. -/
theorem exists_run_start (job : Job) :
    ∃ w t, Run (step job) (fun _ _ => True) init w t ∧ t.pc.phase ≠ .start := by
  cases hprepare : prepareClient job.request with
  | none =>
    refine ⟨[] ++ [.worker true], { init with err := true, pc := .reply },
      .snoc .nil trivial ?_, by simp⟩
    simp [step, workerStep, init, hprepare]
  | some p =>
    refine ⟨[] ++ [.worker true],
      { init with client := p.1, rdn := p.2, rbl := job.rblist, pc := .dispatch },
      .snoc .nil trivial ?_, by simp⟩
    simp [step, workerStep, init, hprepare]

end Session

open Session

/-- Only addresses are looked up, and under their names, in every run of a worker for the given
client. -/
structure LooksUpAddress (job : Job) (client : Bytes) : Prop where
  /-- The worker goes on to the lookups exactly when the client is an address. -/
  starts : ∀ w t, Run (step job) (fun _ _ => True) init w t → t.pc.phase ≠ .start →
    (t.err = false ↔ IsAddress client)
  /-- Without an error every blacklist is looked up before the reply. -/
  complete : ∀ w t, Run (step job) (fun _ _ => True) init w t → t.pc.phase = .replying →
    t.err = false → t.dispatched.length = job.rblist.length
  /-- The names are those of the address in the domains of the list, in order. -/
  names : ∀ w t, Run (step job) (fun _ _ => True) init w t → ∀ a : Ipv4, a.SpelledBy client →
    t.dispatched.map (fun d => (d.resdata.rblitem, d.resdata.hostname)) =
      (job.rblist.take t.dispatched.length).map fun item => (item, a.queryName item.rbldomain)
  /-- A client that is not an address is refused as such, and nothing is looked up. -/
  refuses : ¬ IsAddress client → clientError job.request = some .invalidAddress ∧
    ∀ w t, Run (step job) (fun _ _ => True) init w t → t.dispatched = []

/-- The client is handled as it should exactly when the buffer for the reversed address is
allocated and the client is a dotted quad or does not even start with four numbers and dots between
them; and no two addresses share a name, whatever the domain. -/
theorem looksUpAddress_iff (job : Job) {request client : Bytes}
    (hrequest : job.request.request = some request)
    (hparse : parseRequest job.request.clientMalloc (cstr request) = some client) :
    (LooksUpAddress job client ↔
      job.request.rdnMalloc = true ∧ (IsAddress client ∨ ¬ FourNumerals client)) ∧
    ∀ domain, Function.Injective fun a : Ipv4 => a.queryName domain := by
  refine ⟨?_, queryName_injective⟩
  obtain ⟨w, t, hrun, hstart⟩ := exists_run_start job
  have herr := (Inv.run hrun).err_eq_false_iff hstart
  have hcases := prepareClient_of_parsed hrequest hparse
  constructor
  · intro h
    have hstarts := h.starts w t hrun hstart
    rcases hcases with ⟨-, hnone, herror⟩ | ⟨hmalloc, hbad, -, -⟩ | ⟨hmalloc, -, quad, -, hsome, -⟩
    -- without the buffer nothing is looked up, and no address is called invalid
    · exfalso
      by_cases haddress : IsAddress client
      · exact herr.mp (hstarts.mpr haddress) hnone
      · cases herror.symm.trans (h.refuses haddress).1
    · exact ⟨hmalloc, Or.inr hbad⟩
    · exact ⟨hmalloc, Or.inl (hstarts.mp (herr.mpr (by simp [hsome])))⟩
  · rintro ⟨hmalloc, hclient⟩
    have hreads := prepareClient_ne_none_iff hrequest hparse hmalloc hclient
    constructor
    · intro w t hrun hstart
      rw [(Inv.run hrun).err_eq_false_iff hstart, hreads]
    · intro w t hrun hphase herr
      have hitems := (Inv.run hrun).items_of_replying hphase herr
      rw [← hitems, List.length_map]
    · intro w t hrun a ha
      have hquad := scanQuad_of_spelledBy ha
      have hprepare : prepareClient job.request = some (client, inetNtop a.reversed) := by
        simp [prepareClient, hrequest, hparse, hmalloc, hquad, reverseQuad_octets]
      exact (Inv.run hrun).names_eq (Named.run hrun) hprepare
    · intro haddress
      have hnone : prepareClient job.request = none := by
        by_contra hne
        exact haddress (hreads.mp hne)
      constructor
      · rcases hcases with ⟨hfailed, -⟩ | ⟨-, -, -, herror⟩ | ⟨-, -, quad, -, hsome, -⟩
        · cases hmalloc.symm.trans hfailed
        · exact herror
        · cases hnone.symm.trans hsome
      · intro w t hrun
        exact (Inv.run hrun).dispatched_eq_nil hnone

/-- The client of the sample session is looked up as it should. -/
theorem looksUpAddress_sampleJob : LooksUpAddress sampleJob (ascii "127.0.0.2") := by
  have h127 : IsOctet (ascii "127") 127 :=
    ⟨by decide +kernel, by decide +kernel, by decide +kernel⟩
  have h0 : IsOctet (ascii "0") 0 := ⟨by decide +kernel, by decide +kernel, by decide +kernel⟩
  have h2 : IsOctet (ascii "2") 2 := ⟨by decide +kernel, by decide +kernel, by decide +kernel⟩
  have hspelled : Ipv4.SpelledBy ⟨127, 0, 0, 2⟩ (ascii "127.0.0.2") :=
    ⟨_, _, _, _, h127, h0, h0, h2, by decide +kernel⟩
  have hparse : parseRequest true (cstr (ascii "client_address=127.0.0.2\n\n")) =
      some (ascii "127.0.0.2") := by decide +kernel
  have hiff := looksUpAddress_iff sampleJob rfl hparse
  exact hiff.1.mpr ⟨rfl, Or.inl ⟨_, hspelled⟩⟩

/-- A client with a number that is not an octet. -/
def numbersJob : Job :=
  { sampleJob with request := ⟨some (ascii "client_address=999.1.1.1\n\n"), true, true⟩ }

/-- It is looked up all the same. -/
theorem numbersJob_looked_up : ¬ LooksUpAddress numbersJob (ascii "999.1.1.1") := by
  intro h
  obtain ⟨w, t, hrun, hstart⟩ := exists_run_start numbersJob
  have hprepare : prepareClient numbersJob.request ≠ none := by decide +kernel
  have herr := ((Inv.run hrun).err_eq_false_iff hstart).mpr hprepare
  obtain ⟨a, ha⟩ := (h.starts w t hrun hstart).mp herr
  -- an address would be read as its octets
  have hquad : scanQuad (ascii "999.1.1.1") = some (999, 1, 1, 1) := by decide +kernel
  have hoctets := (scanQuad_of_spelledBy ha).symm.trans hquad
  have hfirst : (a.o1.toNat : Int) = 999 := congrArg Prod.fst (Option.some.inj hoctets)
  have hlt := a.o1.toNat_lt
  omega

end Rblpolicyd
