import Mathlib.Algebra.BigOperators.Group.List.Basic
import Rblpolicyd.Libc.Numerals

/-!
# The tally of the scores and the reply

After the lookups a worker walks over its records in order, sums the scores and
collects the domains of those that are not zero, separated by commas; from 100 on
the client is rejected with that text. The reply is a null pointer until the first
hit, and the sum is kept in an `int`.

## Main definitions

* `Tally`, `tallyItem` — the locals of the loop and its body
* `tallyAll` — the whole loop over domains and scores
* `replyWrites` — the buffers passed to `write`
* `hitDomains` — the domains with a score, in order
* `dunnoText`, `rejectText` — the two answers

## Main results

* `tallyAll_score`, `tallyAll_reply` — the sum and the text the loop leaves
* `bytesSent_replyWrites` — the bytes written, in terms of the scores
-/

namespace Rblpolicyd

open Libc

/-- The locals of the loop that collects the scores. -/
structure Tally where
  score : Int
  reply : Option Bytes
  replen : Int
  deriving DecidableEq

/-- The locals before the loop. -/
def Tally.init : Tally := ⟨0, none, 0⟩

/-- The body of the loop for a record: its blacklist's domain and its score. -/
def tallyItem (t : Tally) (rbldomain : Bytes) (score : Int) : Tally :=
  if score ≠ 0 then
    match t.reply with
    | some reply =>
      { score := toInt32 (t.score + score)
        replen := toInt32 (t.replen + (2 + rbldomain.length))
        reply := some (reply ++ ascii ", " ++ rbldomain) }
    | none =>
      { score := toInt32 (t.score + score)
        replen := toInt32 (t.replen + (rbldomain.length + 1))
        reply := some ([] ++ rbldomain) }
  else t

/-- The loop over all records. -/
def tallyAll (records : List (Bytes × Int)) : Tally :=
  records.foldl (fun t r => tallyItem t r.1 r.2) Tally.init

/-- The pointers passed to `write`, one after the other. -/
def replyWrites (err : Bool) (t : Tally) : List (Option Bytes) :=
  if !err ∧ t.score ≥ 100 then
    [some ((ascii "action=REJECT Blocked through ").take 30), t.reply, some (ascii "\n\n")]
  else [some ((ascii "action=DUNNO").take 12), some (ascii "\n\n")]

/-- The bytes of a sequence of writes, `none` when a pointer is null. -/
def bytesSent (writes : List (Option Bytes)) : Option Bytes :=
  (writes.mapM id).map List.flatten

/-- The domains of the records with a score, in order. -/
def hitDomains (records : List (Bytes × Int)) : List Bytes :=
  (records.filter fun r => r.2 ≠ 0).map Prod.fst

/-- The sum of all scores. -/
def totalScore (records : List (Bytes × Int)) : Int :=
  (records.map Prod.snd).sum

/-! ### The loop -/

/-- One more name behind a non-empty list of names. -/
theorem intercalate_concat {sep : Bytes} {names : List Bytes} (h : names ≠ []) (name : Bytes) :
    sep.intercalate (names ++ [name]) = sep.intercalate names ++ sep ++ name := by
  induction names with
  | nil => exact absurd rfl h
  | cons first names ih =>
    cases names with
    | nil => simp
    | cons second names =>
      rw [List.cons_append, List.cons_append, List.intercalate_cons_cons,
        List.intercalate_cons_cons, ← List.cons_append, ih (List.cons_ne_nil second names)]
      simp

theorem tallyAll_concat (records : List (Bytes × Int)) (r : Bytes × Int) :
    tallyAll (records ++ [r]) = tallyItem (tallyAll records) r.1 r.2 := by
  simp [tallyAll]

/-- A sum that is an `int` is what the score becomes. -/
theorem tallyItem_score (t : Tally) (rbldomain : Bytes) {score : Int}
    (hsum : -2 ^ 31 ≤ t.score + score ∧ t.score + score < 2 ^ 31) :
    (tallyItem t rbldomain score).score = t.score + score := by
  unfold tallyItem
  split_ifs with hscore
  · split
    · exact toInt32_of_mem hsum
    · exact toInt32_of_mem hsum
  · omega

/-- The accumulator holds the sum of the scores, wrapped to an `int`. -/
theorem tallyAll_score (records : List (Bytes × Int)) :
    (tallyAll records).score = toInt32 (totalScore records) := by
  induction records using List.reverseRecOn with
  | nil => rfl
  | append_singleton records r ih =>
    have hstep : (tallyItem (tallyAll records) r.1 r.2).score =
        toInt32 ((tallyAll records).score + r.2) := by
      unfold tallyItem
      split_ifs with hr
      · split <;> rfl
      · rw [not_not.mp hr, add_zero, ih, toInt32, toInt32, Int.bmod_bmod]
    rw [tallyAll_concat, hstep, ih, toInt32_add]
    simp [totalScore]

/-- The reply is null without a hit, and otherwise lists the hits. -/
theorem tallyAll_reply (records : List (Bytes × Int)) :
    (tallyAll records).reply =
      if hitDomains records = [] then none
      else some ((ascii ", ").intercalate (hitDomains records)) := by
  induction records using List.reverseRecOn with
  | nil => rfl
  | append_singleton records r ih =>
    rw [tallyAll_concat, tallyItem]
    by_cases hr : r.2 ≠ 0
    · have hhits : hitDomains (records ++ [r]) = hitDomains records ++ [r.1] := by
        simp [hitDomains, hr]
      rw [if_pos hr, ih, hhits]
      by_cases hempty : hitDomains records = []
      · simp [hempty]
      · simp only [hempty, if_false]
        rw [intercalate_concat hempty]
        simp
    · have hhits : hitDomains (records ++ [r]) = hitDomains records := by
        simp [hitDomains, not_not.mp hr]
      rw [if_neg hr, ih, hhits]

/-! ### The reply -/

/-- The answer that leaves the client alone. -/
def dunnoText : Bytes := ascii "action=DUNNO\n\n"

/-- The answer that rejects the client because of the given blacklists. -/
def rejectText (hits : List Bytes) : Bytes :=
  ascii "action=REJECT Blocked through " ++ (ascii ", ").intercalate hits ++ ascii "\n\n"

/-- Without a hit every score is zero, and so is their sum. -/
theorem tallyAll_score_of_hitDomains_eq_nil {records : List (Bytes × Int)}
    (h : hitDomains records = []) : (tallyAll records).score = 0 := by
  have hzero : ∀ s ∈ records.map Prod.snd, s = 0 := by
    intro s hs
    obtain ⟨r, hr, rfl⟩ := List.mem_map.mp hs
    by_contra hne
    have hmem : r.1 ∈ hitDomains records :=
      List.mem_map_of_mem (List.mem_filter.mpr ⟨hr, by simpa using hne⟩)
    rw [h] at hmem
    exact absurd hmem List.not_mem_nil
  rw [tallyAll_score, totalScore, List.sum_eq_zero hzero]
  rfl

/-- What a worker writes: no pointer is null, and the text is one of the two answers. -/
theorem bytesSent_replyWrites (err : Bool) (records : List (Bytes × Int)) :
    bytesSent (replyWrites err (tallyAll records)) =
      some (if err = false ∧ 100 ≤ (tallyAll records).score
        then rejectText (hitDomains records) else dunnoText) := by
  unfold replyWrites
  by_cases hreject : err = false ∧ 100 ≤ (tallyAll records).score
  · have hhits : hitDomains records ≠ [] := by
      intro hnil
      have hzero := tallyAll_score_of_hitDomains_eq_nil hnil
      omega
    have htake : (ascii "action=REJECT Blocked through ").take 30 =
        ascii "action=REJECT Blocked through " := rfl
    rw [if_pos (by simpa using hreject), if_pos hreject, tallyAll_reply, if_neg hhits, htake]
    simp [bytesSent, rejectText]
  · rw [if_neg (by simpa using hreject), if_neg hreject]
    rfl

/-- When the bytes of a sequence of writes are defined, no pointer was null. -/
theorem none_notMem_of_bytesSent {writes : List (Option Bytes)} {sent : Bytes}
    (h : bytesSent writes = some sent) : none ∉ writes := by
  obtain ⟨texts, htexts, -⟩ := Option.map_eq_some_iff.mp h
  clear h
  induction writes generalizing texts with
  | nil => exact List.not_mem_nil
  | cons p writes ih =>
    rw [List.mapM_cons] at htexts
    obtain ⟨text, rfl, hrest⟩ := Option.bind_eq_some_iff.mp htexts
    obtain ⟨texts, htexts, -⟩ := Option.bind_eq_some_iff.mp hrest
    simpa using ih texts htexts

end Rblpolicyd
