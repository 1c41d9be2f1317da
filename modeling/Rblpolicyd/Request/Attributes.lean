import Rblpolicyd.Libc.Bytes

/-!
# Policy requests as attribute lists, and `parse_request`

A policy request is a list of `name=value` lines closed by an empty line.
`parse_request` does not split it: it searches the raw text for
`client_address=` and returns what follows up to a line end. The search agrees
with the attribute the request carries exactly when the first line that contains
the key text anywhere is that attribute.

## Main definitions

* `parseRequest` — the parser of `worker.c` and `server.c` (they are the same code)
* `Attribute`, `requestText` — well-formed attribute lines and their text
* `clientAddress` — the value of the first attribute named `client_address`
* `KeyAnchored` — the first line holding the key text is the client's own

## Main results

* `parseRequest_requestText` — the parser computes a search over whole lines
* `parseRequest_isolated_iff` — when the search returns the client's address
-/

namespace Rblpolicyd

open Libc

/-- The text searched for, with its 15 bytes. -/
def clientKey : Bytes := ascii "client_address="

/-- `parse_request`. `mallocOk` is the outcome of the allocation of the result. -/
def parseRequest (mallocOk : Bool) (req : Bytes) : Option Bytes :=
  match strstr req clientKey with
  | none => none
  | some start =>
    let c := start.drop 15
    match (strchr c cr).or (strchr c lf) with
    | none => none
    | some p => if mallocOk then some (c.take (c.length - p.length)) else none

/-- One attribute of a request: a name without `=` and a value, both within a line. -/
structure Attribute where
  name : Bytes
  value : Bytes
  name_ne_nil : name ≠ []
  name_plain : ∀ b ∈ name, b ≠ 61 ∧ b ≠ cr ∧ b ≠ lf ∧ b ≠ nul
  value_plain : ∀ b ∈ value, b ≠ cr ∧ b ≠ lf ∧ b ≠ nul

namespace Attribute

/-- The line of an attribute, without its line end. -/
def line (a : Attribute) : Bytes := a.name ++ 61 :: a.value

/-- The attribute is the client's address. -/
def IsClientAddress (a : Attribute) : Prop := a.name = ascii "client_address"

instance (a : Attribute) : Decidable a.IsClientAddress :=
  inferInstanceAs (Decidable (a.name = _))

/-- The key text occurs somewhere in the attribute's line. -/
def MentionsKey (a : Attribute) : Prop := (strstr a.line clientKey).isSome

instance (a : Attribute) : Decidable a.MentionsKey :=
  inferInstanceAs (Decidable (_ = true))

theorem line_plain (a : Attribute) : ∀ b ∈ a.line, b ≠ cr ∧ b ≠ lf ∧ b ≠ nul := by
  intro b hb
  rcases List.mem_append.mp hb with hb | hb
  · exact (a.name_plain b hb).2
  · rcases List.mem_cons.mp hb with rfl | hb
    · decide
    · exact a.value_plain b hb

/-- The client's own line starts with the key, which its value follows. -/
theorem strstr_line_of_isClientAddress {a : Attribute} (h : a.IsClientAddress) :
    strstr a.line clientKey = some (clientKey ++ a.value) := by
  have hline : a.line = clientKey ++ a.value := by
    rw [line, show a.name = _ from h]
    rfl
  rw [hline]
  exact strstr_at_start (List.prefix_append _ _)

theorem IsClientAddress.mentionsKey {a : Attribute} (h : a.IsClientAddress) : a.MentionsKey := by
  simp [MentionsKey, strstr_line_of_isClientAddress h]

end Attribute

/-- The text of a request: every attribute line, then an empty line. -/
def requestText (attrs : List Attribute) : Bytes :=
  attrs.foldr (fun a text => a.line ++ lf :: text) [lf]

/-- The value of the first attribute whose whole name is `client_address`. -/
def clientAddress (attrs : List Attribute) : Option Bytes :=
  (attrs.find? fun a => a.IsClientAddress).map Attribute.value

/-- What follows the first key text of the first line that has it. -/
def scannedAddress (attrs : List Attribute) : Option Bytes :=
  attrs.findSome? fun a => (strstr a.line clientKey).map (·.drop 15)

/-- The first line that mentions the key is the client's own, or what follows the
key there is by coincidence the client's address. -/
def KeyAnchored (attrs : List Attribute) : Prop :=
  ∀ a, attrs.find? (fun a => a.MentionsKey) = some a →
    a.IsClientAddress ∨ ∃ v, strstr a.line clientKey = some (clientKey ++ v) ∧
      clientAddress attrs = some v

/-! ### The scan over lines -/

@[simp] theorem requestText_cons (a : Attribute) (attrs : List Attribute) :
    requestText (a :: attrs) = a.line ++ lf :: requestText attrs := rfl

theorem cr_notMem_requestText (attrs : List Attribute) : cr ∉ requestText attrs := by
  induction attrs with
  | nil => decide
  | cons a attrs ih =>
    rw [requestText_cons, List.mem_append, List.mem_cons]
    rintro (h | h | h)
    · exact (a.line_plain _ h).1 rfl
    · exact absurd h (by decide)
    · exact ih h

/-- Between the key and the line end there is no line end: the parser returns the
rest of the line. -/
private theorem parseRequest_of_strstr {req line rest : Bytes}
    (h : strstr req clientKey = some (line ++ lf :: rest))
    (hkey : clientKey <+: line) (hcr : cr ∉ line ++ lf :: rest) (hlf : lf ∉ line) :
    parseRequest true req = some (line.drop 15) := by
  obtain ⟨value, rfl⟩ := hkey
  have hdrop : (clientKey ++ value ++ lf :: rest).drop 15 = value ++ lf :: rest := rfl
  have hvalue : (clientKey ++ value).drop 15 = value := rfl
  have hnocr : strchr (value ++ lf :: rest) cr = none := by
    refine strchr_eq_none_iff.mpr fun hmem => hcr ?_
    rw [List.append_assoc]
    exact List.mem_append_right _ hmem
  have hfound : strchr (value ++ lf :: rest) lf = some (lf :: rest) :=
    strchr_append_cons (fun hmem => hlf (List.mem_append_right _ hmem)) rest
  simp only [parseRequest, h, hdrop, hvalue, hnocr, hfound, Option.none_or, if_true]
  simp

/-- Over the text of a request the raw search is a search over whole lines. -/
theorem strstr_requestText_cons (a : Attribute) (attrs : List Attribute) :
    strstr (requestText (a :: attrs)) clientKey =
      ((strstr a.line clientKey).map (· ++ lf :: requestText attrs)).or
        (strstr (requestText attrs) clientKey) :=
  strstr_append_cons (by decide) (by decide) a.line (requestText attrs)

/-- `parse_request` returns what follows the key in the first line that mentions it. -/
theorem parseRequest_requestText (attrs : List Attribute) :
    parseRequest true (requestText attrs) = scannedAddress attrs := by
  induction attrs with
  | nil => decide
  | cons a attrs ih =>
    rw [scannedAddress, List.findSome?_cons]
    cases hline : strstr a.line clientKey with
    | none =>
      have hskip : strstr (requestText (a :: attrs)) clientKey =
          strstr (requestText attrs) clientKey := by
        rw [strstr_requestText_cons, hline]
        rfl
      simp only [parseRequest, hskip] at ih ⊢
      exact ih
    | some found =>
      obtain ⟨hsuffix, hstarts⟩ := strstr_spec hline
      have hfound : strstr (requestText (a :: attrs)) clientKey =
          some (found ++ lf :: requestText attrs) := by
        rw [strstr_requestText_cons, hline]
        rfl
      refine parseRequest_of_strstr hfound hstarts ?_ fun h =>
        (a.line_plain _ (hsuffix.subset h)).2.1 rfl
      refine fun h => cr_notMem_requestText (a :: attrs) ?_
      rcases List.mem_append.mp h with h | h
      · exact List.mem_append_left _ (hsuffix.subset h)
      · exact List.mem_append_right _ h

/-- Without memory for the result nothing is returned. -/
theorem parseRequest_false (req : Bytes) : parseRequest false req = none := by
  unfold parseRequest
  split
  · rfl
  · dsimp only
    split <;> rfl

/-! ### When the scan finds the client's own attribute -/

theorem scannedAddress_eq (attrs : List Attribute) :
    scannedAddress attrs = (attrs.find? fun a => a.MentionsKey).bind
      fun a => (strstr a.line clientKey).map (·.drop 15) := by
  induction attrs with
  | nil => rfl
  | cons a attrs ih =>
    rw [scannedAddress, List.findSome?_cons, List.find?_cons]
    cases hline : strstr a.line clientKey with
    | none => simpa [Attribute.MentionsKey, hline, scannedAddress] using ih
    | some found => simp [Attribute.MentionsKey, hline]

theorem clientAddress_eq_none_of_find?_eq_none {attrs : List Attribute}
    (h : attrs.find? (fun a => a.MentionsKey) = none) : clientAddress attrs = none := by
  have hnone : attrs.find? (fun a => a.IsClientAddress) = none := by
    simp only [List.find?_eq_none, decide_eq_true_eq] at h ⊢
    exact fun a ha hc => h a ha hc.mentionsKey
  rw [clientAddress, hnone, Option.map_none]

theorem clientAddress_of_find? {attrs : List Attribute} {a : Attribute}
    (h : attrs.find? (fun a => a.MentionsKey) = some a) (ha : a.IsClientAddress) :
    clientAddress attrs = some a.value := by
  have hfind : attrs.find? (fun a => a.IsClientAddress) = some a := by
    rw [List.find?_eq_some_iff_append] at h ⊢
    obtain ⟨-, pre, post, rfl, hpre⟩ := h
    refine ⟨by simpa using ha, pre, post, rfl, fun b hb => ?_⟩
    have hb' := hpre b hb
    simp only [Bool.not_eq_true', decide_eq_false_iff_not] at hb' ⊢
    exact fun hc => hb' hc.mentionsKey
  rw [clientAddress, hfind, Option.map_some]

theorem scannedAddress_eq_clientAddress_iff (attrs : List Attribute) :
    scannedAddress attrs = clientAddress attrs ↔ KeyAnchored attrs := by
  rw [scannedAddress_eq]
  cases hfind : attrs.find? (fun a => a.MentionsKey) with
  | none => simp [KeyAnchored, hfind, clientAddress_eq_none_of_find?_eq_none hfind]
  | some a =>
    have hmentions : a.MentionsKey := by simpa using List.find?_some hfind
    obtain ⟨found, hline⟩ := Option.isSome_iff_exists.mp hmentions
    obtain ⟨value, rfl⟩ := (strstr_spec hline).2
    have hdrop : (clientKey ++ value).drop 15 = value := rfl
    have hscan : ((some a).bind fun a => (strstr a.line clientKey).map (·.drop 15)) =
        some value := by
      rw [Option.bind_some, hline, Option.map_some, hdrop]
    rw [hscan]
    constructor
    · intro heq b hb
      obtain rfl := Option.some.inj (hfind.symm.trans hb)
      exact Or.inr ⟨value, hline, heq.symm⟩
    · intro hanchored
      rcases hanchored a hfind with ha | ⟨v, hv, hclient⟩
      · have hvalue := Attribute.strstr_line_of_isClientAddress ha
        rw [hline, Option.some.injEq, List.append_cancel_left_eq] at hvalue
        rw [clientAddress_of_find? hfind ha, hvalue]
      · rw [hline, Option.some.injEq, List.append_cancel_left_eq] at hv
        rw [hclient, hv]

/-! ### Isolation of the client's attribute -/

/-- When the parser returns the client's own attribute: the scan is anchored, or
there is no memory for a result and none is due. -/
def AddressIsolated (mallocOk : Bool) (attrs : List Attribute) : Prop :=
  if mallocOk then KeyAnchored attrs else clientAddress attrs = none

/-- The parser returns the client's own attribute exactly on isolated requests, and
two isolated requests with the same client are scored alike whatever else they hold. -/
theorem parseRequest_isolated_iff (mallocOk : Bool) :
    (∀ attrs, parseRequest mallocOk (requestText attrs) = clientAddress attrs ↔
      AddressIsolated mallocOk attrs) ∧
    ∀ attrs attrs', AddressIsolated mallocOk attrs → AddressIsolated mallocOk attrs' →
      clientAddress attrs = clientAddress attrs' →
      parseRequest mallocOk (requestText attrs) = parseRequest mallocOk (requestText attrs') := by
  have hiff : ∀ attrs, parseRequest mallocOk (requestText attrs) = clientAddress attrs ↔
      AddressIsolated mallocOk attrs := by
    intro attrs
    cases mallocOk with
    | true =>
      rw [parseRequest_requestText]
      exact scannedAddress_eq_clientAddress_iff attrs
    | false =>
      rw [parseRequest_false]
      exact eq_comm
  refine ⟨hiff, fun attrs attrs' h h' hclient => ?_⟩
  rw [(hiff attrs).mpr h, (hiff attrs').mpr h', hclient]

/-- The client a request really names. -/
def honestClient : Attribute where
  name := ascii "client_address"
  value := ascii "10.0.0.1"
  name_ne_nil := by decide
  name_plain := List.forall_iff_forall_mem.mp (by decide)
  value_plain := List.forall_iff_forall_mem.mp (by decide)

/-- A HELO name chosen by the remote side. -/
def spoofedHelo : Attribute where
  name := ascii "helo_name"
  value := ascii "client_address=127.0.0.2"
  name_ne_nil := by decide
  name_plain := List.forall_iff_forall_mem.mp (by decide)
  value_plain := List.forall_iff_forall_mem.mp (by decide)

/-- A HELO name that carries the key decides the address that is scored: the request
names another client, and without that HELO name the parser finds it. -/
theorem parseRequest_spoofed_helo :
    requestText [spoofedHelo, honestClient] =
        ascii "helo_name=client_address=127.0.0.2\nclient_address=10.0.0.1\n\n" ∧
      clientAddress [spoofedHelo, honestClient] = some (ascii "10.0.0.1") ∧
      parseRequest true (requestText [spoofedHelo, honestClient]) = some (ascii "127.0.0.2") ∧
      parseRequest true (requestText [honestClient]) = some (ascii "10.0.0.1") ∧
      ¬ ∀ attrs, parseRequest true (requestText attrs) = clientAddress attrs := by
  refine ⟨by decide, by decide, by decide, by decide, fun h => ?_⟩
  exact absurd (h [spoofedHelo, honestClient]) (by decide)

end Rblpolicyd
