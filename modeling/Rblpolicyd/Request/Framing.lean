import Rblpolicyd.Request.Receive

/-!
# Requests are framed whatever the segments

A request is a text that ends in two line ends of the same kind and does not do so
earlier. However it is cut into reads, `read_request` returns it, whole and with
nothing behind it, in the iteration that reads its last byte. A comparison that
starts before the buffer counts here as one that fails.

## Main definitions

* `EndsRequest`, `IsRequest` — texts that end in an empty line, and do so only there
* `Receiver.deliver` — one iteration that reads a segment

## Main results

* `Received.deliver` — what one segment preserves
* `read_request_framing` — what is returned, and when, over all segmentations
-/

namespace Rblpolicyd

open Libc Semantics

/-- The text ends in an empty line. -/
def EndsRequest (text : Bytes) : Prop := crlfTwice <:+ text ∨ lfTwice <:+ text

instance (text : Bytes) : Decidable (EndsRequest text) :=
  inferInstanceAs (Decidable (crlfTwice <:+ text ∨ lfTwice <:+ text))

/-- The text ends in an empty line, and no shorter beginning of it does. -/
def IsRequest (s : Bytes) : Prop := EndsRequest s ∧ ∀ text, text <+: s → EndsRequest text → text = s

namespace Receiver

/-- An iteration that reads a segment of the stream: the block that `realloc` returns if
one is needed, and the bytes that arrive. -/
def deliver (r : Receiver) (segment : Block × Bytes) : Option Receiver :=
  r.step (fun _ _ => false) (.ready (some segment.1) (.data segment.2))

theorem closed_iff (text : Bytes) : Closed (fun _ _ => false) text ↔ EndsRequest text := by
  have hlong : ∀ {pattern : Bytes} {n : Nat}, pattern.length = n →
      ((if text.length < n then false = true else pattern <:+ text) ↔ pattern <:+ text) := by
    intro pattern n hn
    split_ifs with hshort
    · refine ⟨nofun, fun hsuffix => ?_⟩
      have hle := hsuffix.length_le
      omega
    · exact Iff.rfl
  exact or_congr (hlong rfl) (hlong rfl)

variable {r r' : Receiver} {s text : Bytes} {segment : Block × Bytes}

/-- What the segments read so far make of the loop: it runs until they are the request. -/
def Received (s text : Bytes) (r : Receiver) : Prop :=
  (text = s ∧ ∃ b, r.returned = some (some b) ∧ b.bytes s.length = s ∧ b s.length = nul) ∨
  (text ≠ s ∧ r.Holds text)

/-- One more segment of the request. -/
theorem Received.deliver (hs : IsRequest s) (hshort : (s.length : Int) < 2 ^ 31 - 1 - 2048)
    (h : Received s text r) (hmore : text ++ segment.2 <+: s)
    (hstep : r.deliver segment = some r') :
    (0 ≤ r'.bread ∧ r'.bread < r'.bufsize) ∧ Received s (text ++ segment.2) r' := by
  have hbefore : text <+: s := (List.prefix_append text segment.2).trans hmore
  rcases h with ⟨-, b, hreturned, -⟩ | ⟨-, hholds⟩
  · -- behind the return there is no iteration
    have hdone : r.returned.isSome := by rw [hreturned]; rfl
    unfold Receiver.deliver step at hstep
    rw [if_pos hdone] at hstep
    cases hstep
  · have hlength := hbefore.length_le
    obtain ⟨g, hgrow⟩ := hholds.exists_grow (by omega) segment.1
    rcases hholds.step_cases hstep with
      ⟨block, bytes, g, houtcome, hgrow', hpos, hfits, rfl⟩ | ⟨hnone, -, -⟩
    · have hready := (hholds.grow_eq_some hgrow').1
      obtain ⟨-, hdata⟩ := SelectOutcome.ready.inj houtcome
      obtain rfl := ReadOutcome.data.inj hdata
      refine ⟨hready.bread_receive (fun _ _ => false) hfits, ?_⟩
      rcases hready.receive_spec (fun _ _ => false) hfits with
        ⟨hclosed, b, hreturned, hbytes, hnul⟩ | ⟨hopen, hholds'⟩
      · left
        obtain rfl := hs.2 _ hmore ((closed_iff _).mp hclosed)
        exact ⟨rfl, b, hreturned, hbytes, hnul⟩
      · right
        refine ⟨?_, hholds'⟩
        intro hall
        exact hopen ((closed_iff _).mpr (hall ▸ hs.1))
    · rw [hnone _ _ rfl] at hgrow
      cases hgrow

/-- After any segments whose bytes begin the request. -/
theorem received_of_run (hs : IsRequest s) (hshort : (s.length : Int) < 2 ^ 31 - 1 - 2048)
    {segments : List (Block × Bytes)}
    (hrun : Run Receiver.deliver (fun _ _ => True) initial segments r)
    (hpart : segments.flatMap Prod.snd <+: s) :
    (segments ≠ [] → 0 ≤ r.bread ∧ r.bread < r.bufsize) ∧
      Received s (segments.flatMap Prod.snd) r := by
  induction hrun with
  | nil =>
    refine ⟨fun hne => absurd rfl hne, Or.inr ⟨?_, initial_holds⟩⟩
    rintro rfl
    exact absurd hs.1 (by decide)
  | snoc _ _ hstep ih =>
    rw [List.flatMap_append, List.flatMap_singleton] at hpart ⊢
    have hbefore := (ih ((List.prefix_append _ _).trans hpart)).2
    obtain ⟨hbread, hafter⟩ := hbefore.deliver hs hshort hpart hstep
    exact ⟨fun _ => hbread, hafter⟩

/-- While the request is incomplete the next read asks for at least a byte and for no
more than stands before the last byte of the buffer, and it takes any segment of such a
length. -/
theorem Holds.exists_deliver (h : r.Holds text)
    (hshort : (text.length : Int) < 2 ^ 31 - 1 - 2048) (block : Block) :
    ∃ g, r.grow (some block) = some g ∧ (0 ≤ g.bread ∧ g.bread < g.bufsize) ∧
      1 ≤ g.request ∧ g.bread + g.request ≤ g.bufsize - 1 ∧
      ∀ bytes : Bytes, 0 < bytes.length → (bytes.length : Int) ≤ g.request →
        ∃ r', r.deliver (block, bytes) = some r' := by
  obtain ⟨g, hgrow⟩ := h.exists_grow hshort block
  have hready := (h.grow_eq_some hgrow).1
  have hbread := hready.bread_eq
  have hroom := hready.room
  rw [CHUNK] at hroom
  refine ⟨g, hgrow, by omega, by rw [request]; omega, by rw [request]; omega, ?_⟩
  intro bytes hpos hfits
  have hrunning : ¬ r.returned.isSome := by rw [h.running]; simp
  unfold Receiver.deliver step
  rw [if_neg hrunning]
  dsimp only
  rw [hgrow]
  dsimp only
  rw [if_pos ⟨hpos, hfits⟩]
  exact ⟨_, rfl⟩

end Receiver

/-- Over all requests below the range of an `int` and all ways to cut them into reads:
from the first growth on `bread` stays in the buffer, the iteration that reads the last
byte returns the request and no earlier one returns, and until then every read asks for
at least one byte and for no more than fits, and goes on with whatever it is given. -/
theorem read_request_framing {s : Bytes} (hs : IsRequest s)
    (hshort : (s.length : Int) < 2 ^ 31 - 1 - 2048) {segments : List (Block × Bytes)}
    {r : Receiver} (hrun : Run Receiver.deliver (fun _ _ => True) .initial segments r)
    (hpart : segments.flatMap Prod.snd <+: s) :
    (segments ≠ [] → 0 ≤ r.bread ∧ r.bread < r.bufsize) ∧
      (segments.flatMap Prod.snd = s →
        ∃ b, r.returned = some (some b) ∧ b.bytes s.length = s ∧ b s.length = nul) ∧
      (segments.flatMap Prod.snd ≠ s → r.returned = none ∧
        ∀ block, ∃ g, r.grow (some block) = some g ∧ (0 ≤ g.bread ∧ g.bread < g.bufsize) ∧
          1 ≤ g.request ∧ g.bread + g.request ≤ g.bufsize - 1 ∧
          ∀ bytes : Bytes, 0 < bytes.length → (bytes.length : Int) ≤ g.request →
            ∃ r', r.deliver (block, bytes) = some r') := by
  have hlength := hpart.length_le
  obtain ⟨hbread, hreceived⟩ := Receiver.received_of_run hs hshort hrun hpart
  refine ⟨hbread, ?_⟩
  rcases hreceived with ⟨hall, hreturned⟩ | ⟨hmore, hholds⟩
  · exact ⟨fun _ => hreturned, fun hmore => absurd hall hmore⟩
  · refine ⟨fun hall => absurd hall hmore, fun _ => ⟨hholds.running, ?_⟩⟩
    exact hholds.exists_deliver (by omega)

/-- Two reads that cut a request between the line feeds of its empty line. -/
def cutRequest : List (Block × Bytes) :=
  [(fun _ => 65, ascii "request=x\n"), (fun _ => 66, ascii "\n")]

theorem read_request_framing_cutRequest :
    ∃ r, Run Receiver.deliver (fun _ _ => True) .initial cutRequest r ∧
      ∃ b, r.returned = some (some b) ∧ b.bytes 11 = ascii "request=x\n\n" ∧ b 11 = nul := by
  have hexec : ∃ r, Run Receiver.deliver (fun _ _ => True) .initial cutRequest r ∧ True :=
    exists_run_of_exec (by decide)
  have hearlier : ∀ text ∈ (ascii "request=x\n\n").inits, EndsRequest text →
      text = ascii "request=x\n\n" := by decide
  have hs : IsRequest (ascii "request=x\n\n") :=
    ⟨by decide, fun text hpart => hearlier text ((List.mem_inits _ _).mpr hpart)⟩
  obtain ⟨r, hrun, -⟩ := hexec
  exact ⟨r, hrun, (read_request_framing hs (by decide) hrun (by decide)).2.1 (by decide)⟩

end Rblpolicyd
