import Rblpolicyd.Request.Address
import Rblpolicyd.Request.Framing

/-!
# A policy request on its way to the worker

A client of the daemon sends its attributes and an empty line, and the kernel delivers
them in segments of any size. Where the key `client_address=` is found in the client's own
attribute and its value is an address, the worker ends up with this address, whatever the
segments and whatever was in the memory of the buffer before.

## Main definitions

* `Receiver.clientRequest` — what `worker_th` has when `read_request` has returned
* `PolicyClient` — a client with its attributes, and the segments they arrive in

## Main results

* `isRequest_requestText` — attributes and an empty line are a request
* `PolicyClient.prepareClient_request` — the worker reads the client's address
-/

namespace Rblpolicyd

open Libc Semantics

variable {attrs : List Attribute} {segments : List (Block × Bytes)} {r r' : Receiver}

/-! ### The text of the attributes is a request -/

theorem nul_notMem_requestText (attrs : List Attribute) : nul ∉ requestText attrs := by
  induction attrs with
  | nil => decide
  | cons a attrs ih =>
    rw [requestText_cons, List.mem_append, List.mem_cons]
    rintro (h | h | h)
    · exact (a.line_plain _ h).2.2 rfl
    · exact absurd h (by decide)
    · exact ih h

theorem Attribute.line_ne_nil (a : Attribute) : a.line ≠ [] := by
  simp [Attribute.line]

/-- Behind the attributes there is an empty line. -/
theorem endsRequest_requestText (hne : attrs ≠ []) : EndsRequest (requestText attrs) := by
  induction attrs with
  | nil => exact absurd rfl hne
  | cons a attrs ih =>
    rw [requestText_cons]
    cases attrs with
    | nil => exact Or.inr (List.suffix_append a.line [lf, lf])
    | cons b attrs =>
      have hlater : requestText (b :: attrs) <:+ a.line ++ lf :: requestText (b :: attrs) :=
        (List.suffix_cons _ _).trans (List.suffix_append _ _)
      exact (ih (by simp)).imp (·.trans hlater) (·.trans hlater)

/-- A line feed in front is all that is left. -/
theorem requestText_eq_of_lf {rest : Bytes} (h : requestText attrs = lf :: rest) : rest = [] := by
  cases attrs with
  | nil => exact (List.cons.inj h).2.symm
  | cons a attrs =>
    obtain ⟨b, line, hline⟩ := List.exists_cons_of_ne_nil a.line_ne_nil
    have hplain := a.line_plain b (hline ▸ List.mem_cons_self)
    rw [requestText_cons, hline] at h
    exact absurd (List.cons.inj h).1 hplain.2.1

/-- Two line feeds in a row do not come before the end. -/
theorem eq_of_lfTwice_isPrefix {pre : Bytes} (h : pre ++ lfTwice <+: requestText attrs) :
    pre ++ lfTwice = requestText attrs := by
  induction attrs generalizing pre with
  | nil =>
    have hle := h.length_le
    simp [requestText, lfTwice, ascii] at hle
  | cons a attrs ih =>
    obtain ⟨rest, hrest⟩ := h
    rw [requestText_cons, List.append_assoc] at hrest
    have htwice : lfTwice = [lf, lf] := rfl
    rw [requestText_cons]
    -- they are not inside the line, and behind it they are in the other lines
    rcases List.append_eq_append_iff.mp hrest with ⟨more, hline, hmore⟩ | ⟨more, rfl, hmore⟩
    · cases more with
      | nil =>
        rw [List.append_nil] at hline
        rw [htwice, List.nil_append] at hmore
        have hlast : requestText attrs = lf :: rest := (List.cons.inj hmore).2.symm
        obtain rfl := requestText_eq_of_lf hlast
        rw [hline, hlast, htwice]
      | cons b more =>
        obtain rfl : lf = b := (List.cons.inj hmore).1
        exact absurd rfl (a.line_plain lf (by simp [hline])).2.1
    · cases more with
      | nil =>
        have hlast : requestText attrs = lf :: rest := (List.cons.inj hmore).2
        obtain rfl := requestText_eq_of_lf hlast
        rw [List.append_nil, hlast, htwice]
      | cons b more =>
        obtain ⟨rfl, htext⟩ := List.cons.inj hmore
        have hlater := ih ⟨rest, by rw [List.append_assoc]; exact htext.symm⟩
        rw [← hlater, List.append_assoc, List.cons_append]

/-- The text of the attributes ends in an empty line, and does so only there. -/
theorem isRequest_requestText (hne : attrs ≠ []) : IsRequest (requestText attrs) := by
  refine ⟨endsRequest_requestText hne, fun text hpre hends => ?_⟩
  rcases hends with hcrlf | ⟨pre, rfl⟩
  · have hcr : cr ∈ crlfTwice := by decide
    exact absurd (hpre.subset (hcrlf.subset hcr)) (cr_notMem_requestText attrs)
  · exact eq_of_lfTwice_isPrefix hpre

/-! ### The string that is returned -/

namespace Receiver

theorem bread_receive_eq (stray : Int → Bytes → Bool) (data : Bytes) (r : Receiver) :
    (r.receive stray data).bread = r.bread + data.length := by
  rw [receive]
  dsimp only
  split_ifs <;> rfl

/-- A segment is counted, unless the buffer cannot grow. -/
theorem bread_deliver {segment : Block × Bytes} (hstep : r.deliver segment = some r') :
    r'.bread = r.bread + segment.2.length ∨ r'.returned = some none := by
  unfold deliver step at hstep
  split_ifs at hstep
  dsimp only at hstep
  split at hstep
  · obtain rfl := Option.some.inj hstep
    exact Or.inr rfl
  · rename_i g hgrow
    obtain ⟨-, hreceive⟩ := Option.ite_none_right_eq_some.mp hstep
    obtain rfl := Option.some.inj hreceive
    have hgrown : g.bread = r.bread := by
      rw [grow] at hgrow
      split_ifs at hgrow
      · obtain ⟨b, -, rfl⟩ := Option.map_eq_some_iff.mp hgrow
        rfl
      · rw [Option.some.inj hgrow]
    rw [bread_receive_eq, hgrown]
    exact Or.inl rfl

/-- After any segments all their bytes are counted. -/
theorem bread_of_run (hrun : Run deliver (fun _ _ => True) initial segments r) :
    r.bread = (segments.flatMap Prod.snd).length ∨ r.returned = some none := by
  induction hrun with
  | nil => exact Or.inl rfl
  | @snoc w r a r' _ _ hstep ih =>
    rcases ih with hbread | hnone
    · refine (bread_deliver hstep).imp_left fun hnext => ?_
      rw [hnext, hbread, List.flatMap_append, List.flatMap_singleton, List.length_append,
        Nat.cast_add]
    · -- behind the return there is no iteration
      simp [deliver, step, hnone] at hstep

/-- What `worker_th` has when `read_request` has returned and its allocations succeed: the bytes
of the buffer. -/
def clientRequest (r : Receiver) : ClientRequest :=
  ⟨r.returned.join.map fun b => b.bytes r.bufsize.toNat, true, true⟩

end Receiver

/-- A client whose attributes name its address, where the key finds it, and the segments in which
they arrive. -/
structure PolicyClient where
  attrs : List Attribute
  client : Bytes
  address : Ipv4
  segments : List (Block × Bytes)
  receiver : Receiver
  anchored : KeyAnchored attrs
  named : clientAddress attrs = some client
  spelled : address.SpelledBy client
  short : ((requestText attrs).length : Int) < 2 ^ 31 - 1 - 2048
  whole : segments.flatMap Prod.snd = requestText attrs
  delivered : Run Receiver.deliver (fun _ _ => True) .initial segments receiver

namespace PolicyClient

variable (c : PolicyClient)

theorem attrs_ne_nil : c.attrs ≠ [] := by
  intro hnil
  have hnamed := c.named
  rw [hnil] at hnamed
  cases hnamed

/-- The string in the buffer is the text of the attributes. -/
theorem exists_clientRequest_eq :
    ∃ rest, c.receiver.clientRequest = ⟨some (requestText c.attrs ++ nul :: rest), true, true⟩ := by
  have hne : c.segments ≠ [] := by
    intro hnil
    have hwhole := c.whole
    rw [hnil] at hwhole
    have hends := (isRequest_requestText c.attrs_ne_nil).1
    rw [← hwhole] at hends
    exact absurd hends (by decide)
  obtain ⟨hsize, hreturns, -⟩ := read_request_framing (isRequest_requestText c.attrs_ne_nil)
    c.short c.delivered (by rw [c.whole])
  obtain ⟨b, hreturned, hbytes, hnul⟩ := hreturns c.whole
  have hbread : c.receiver.bread = (requestText c.attrs).length := by
    rcases Receiver.bread_of_run c.delivered with hbread | hnone
    · rw [hbread, c.whole]
    · cases hnone.symm.trans hreturned
  have hroom : (requestText c.attrs).length < c.receiver.bufsize.toNat := by
    have hlt := hsize hne
    omega
  obtain ⟨k, hk⟩ := Nat.exists_eq_add_of_lt hroom
  refine ⟨(List.range' ((requestText c.attrs).length + 1) k).map b, ?_⟩
  rw [Receiver.clientRequest, hreturned, hk, Nat.add_assoc]
  simp [Block.bytes_add, hbytes, List.range'_succ, hnul]

/-- The worker reads the address of the client, and has it reversed. -/
theorem prepareClient_request :
    prepareClient c.receiver.clientRequest = some (c.client, inetNtop c.address.reversed) := by
  obtain ⟨rest, hrequest⟩ := c.exists_clientRequest_eq
  have hparse : parseRequest true (requestText c.attrs) = some c.client := by
    rw [parseRequest_requestText, (scannedAddress_eq_clientAddress_iff c.attrs).mpr c.anchored,
      c.named]
  rw [hrequest]
  simp [prepareClient, cstr_append_nul (nul_notMem_requestText c.attrs), hparse,
    scanQuad_of_spelledBy c.spelled, reverseQuad_octets]

/-- A client whose request is cut in the middle of its address. -/
def honest : PolicyClient where
  attrs := [honestClient]
  client := ascii "10.0.0.1"
  address := ⟨10, 0, 0, 1⟩
  segments := [(fun _ => 65, ascii "client_address=10"), (fun _ => 66, ascii ".0.0.1\n\n")]
  receiver := ((Receiver.initial.deliver (fun _ => 65, ascii "client_address=10")).bind
    (·.deliver (fun _ => 66, ascii ".0.0.1\n\n"))).get (by decide)
  anchored := by
    intro a ha
    have hmem := List.mem_of_find?_eq_some ha
    obtain rfl := List.mem_singleton.mp hmem
    exact Or.inl rfl
  named := by decide
  spelled := by
    have h10 : IsOctet (ascii "10") 10 :=
      ⟨by decide +kernel, by decide +kernel, by decide +kernel⟩
    have h0 : IsOctet (ascii "0") 0 := ⟨by decide +kernel, by decide +kernel, by decide +kernel⟩
    have h1 : IsOctet (ascii "1") 1 := ⟨by decide +kernel, by decide +kernel, by decide +kernel⟩
    exact ⟨_, _, _, _, h10, h0, h0, h1, by decide +kernel⟩
  short := by decide +kernel
  whole := by decide +kernel
  delivered := by
    obtain ⟨r, hfirst, hsecond⟩ := Option.bind_eq_some_iff.mp (Option.some_get _).symm
    exact .cons trivial hfirst (.cons trivial hsecond .nil)

end PolicyClient

end Rblpolicyd
