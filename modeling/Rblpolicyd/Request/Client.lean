import Rblpolicyd.Libc.Numerals
import Rblpolicyd.Request.Attributes

/-!
# From a request to the name that is looked up

Before any lookup the worker takes the client's address out of the request and
reads it as four integers with `sscanf`; it prints them in reverse order, and a
lookup name is that text, a dot and the domain of a blacklist. Each failure on the
way ends the preparation without a lookup.

## Main definitions

* `scanQuad` — `sscanf(client, "%d.%d.%d.%d", …)` when it converts all four
* `ClientRequest` — a request as it was read, with the outcomes of the allocations
* `prepareClient` — the first part of `worker_th`
* `lookupName` — the name that is resolved for a blacklist
-/

namespace Rblpolicyd

open Libc

/-- The byte `.`. -/
abbrev dot : UInt8 := 46

/-- The literal dot of a scan format. -/
def scanDot : Bytes → Option Bytes
  | [] => none
  | b :: s => if b = dot then some s else none

/-- The four integers of `sscanf(client, "%d.%d.%d.%d", …)`, `none` when it converts fewer. -/
def scanQuad (client : Bytes) : Option (Int × Int × Int × Int) := do
  let (o1, s) ← scanInt client
  let s ← scanDot s
  let (o2, s) ← scanInt s
  let s ← scanDot s
  let (o3, s) ← scanInt s
  let s ← scanDot s
  let (o4, _) ← scanInt s
  some (o1, o2, o3, o4)

/-- `sprintf(rdn, "%d.%d.%d.%d", o4, o3, o2, o1)`. -/
def reverseQuad : Int × Int × Int × Int → Bytes
  | (o1, o2, o3, o4) =>
    printInt o4 ++ dot :: printInt o3 ++ dot :: printInt o2 ++ dot :: printInt o1

/-- What `read_request` returned, and the outcomes of the two allocations that follow:
the client's address and the buffer for its reversal. -/
structure ClientRequest where
  request : Option Bytes
  clientMalloc : Bool
  rdnMalloc : Bool
  deriving DecidableEq

/-- `worker_th` up to the first lookup: the client and its reversed address, `none` when
`err` is set. -/
def prepareClient (r : ClientRequest) : Option (Bytes × Bytes) :=
  match r.request with
  | none => none
  | some request =>
    match parseRequest r.clientMalloc (cstr request) with
    | none => none
    | some client =>
      if !r.rdnMalloc then none
      else
        match scanQuad client with
        | none => none
        | some quad => some (client, reverseQuad quad)

/-- The request cannot be handled: there is none, no address is found in it, the address is
not read as four integers, or an allocation fails. -/
def ClientRequest.Fails (r : ClientRequest) : Prop :=
  r.request = none ∨ ∃ request, r.request = some request ∧
    (parseRequest r.clientMalloc (cstr request) = none ∨
      ∃ client, parseRequest r.clientMalloc (cstr request) = some client ∧
        (r.rdnMalloc = false ∨ scanQuad client = none))

theorem prepareClient_eq_none_iff (r : ClientRequest) : prepareClient r = none ↔ r.Fails := by
  unfold prepareClient ClientRequest.Fails
  cases hrequest : r.request with
  | none => simp
  | some request =>
    cases hclient : parseRequest r.clientMalloc (cstr request) with
    | none => simp [hclient]
    | some client =>
      cases hmalloc : r.rdnMalloc with
      | false => simp [hclient]
      | true => cases hquad : scanQuad client <;> simp [hclient, hquad]

/-- `sprintf(rqname, "%s.%s", rdn, rbl->rbldomain)`. -/
def lookupName (rdn rbldomain : Bytes) : Bytes := rdn ++ dot :: rbldomain

end Rblpolicyd
