import Rblpolicyd.Session.Sequential

/-!
# The buffer of the reply

Both scorers build the reply in a buffer of `replen` bytes: the first hit takes a new one
for its domain and the terminating NUL, a later one makes it larger by a comma, a blank
and its domain, and `strcat` appends them one after the other. `replen` is an `int` that is
kept apart from the text, so that only the increments say that the text fits.

## Main definitions

* `Append`, `Append.Fits` — one `strcat`, and that the buffer has room for it
* `tallyHit`, `hitAppends` — a hit, and the `strcat`s it makes
* `tallyAppends`, `processAppends` — the `strcat`s of the two loops
* `processAsked`, `processHits` — the blacklists that `process_request` asks, and those that hit
* `Joined` — the reply is the hits so far, and `replen` its length with the NUL

## Main results

* `Joined.hit` — a hit keeps `Joined`, and the text fits
* `replyAppends_fit` — no `strcat` of either loop leaves the buffer
* `Session.hitAppends_fit` — nor any of a worker in any run
-/

namespace Rblpolicyd

open Libc Semantics

/-- One `strcat` onto the reply: the text that is there, what is appended, and the size last
passed to `malloc` or `realloc`. -/
structure Append where
  text : Bytes
  appended : Bytes
  size : Int

/-- The buffer has room for both texts and a NUL. -/
def Append.Fits (a : Append) : Prop := (a.text.length : Int) + a.appended.length + 1 ≤ a.size

/-- What a hit does to the locals, in both loops. -/
def tallyHit (t : Tally) (rbldomain : Bytes) (weight : Int) : Tally :=
  match t.reply with
  | some reply =>
    { score := toInt32 (t.score + weight)
      replen := toInt32 (t.replen + (2 + rbldomain.length))
      reply := some (reply ++ ascii ", " ++ rbldomain) }
  | none =>
    { score := toInt32 (t.score + weight)
      replen := toInt32 (t.replen + (rbldomain.length + 1))
      reply := some ([] ++ rbldomain) }

/-- The `strcat`s of a hit. -/
def hitAppends (t : Tally) (rbldomain : Bytes) : List Append :=
  match t.reply with
  | some reply =>
    let replen := toInt32 (t.replen + (2 + rbldomain.length))
    [⟨reply, ascii ", ", replen⟩, ⟨reply ++ ascii ", ", rbldomain, replen⟩]
  | none =>
    let replen := toInt32 (t.replen + (rbldomain.length + 1))
    [⟨[], rbldomain, replen⟩]

/-- The `strcat`s of a worker's loop over its records. -/
def tallyAppends : Tally → List (Bytes × Int) → List Append
  | _, [] => []
  | t, r :: records =>
    (if r.2 ≠ 0 then hitAppends t r.1 else []) ++ tallyAppends (tallyItem t r.1 r.2) records

/-- The `strcat`s of the loop of `process_request`. -/
def processAppends (answer : Nat → Option Hostent) : Nat → List Cfgitem → Tally → List Append
  | _, [], _ => []
  | n, rbl :: rest, t =>
    if t.score < 100 then
      let after := processAnswer t rbl (answer n)
      (if Listed (answer n) then hitAppends t rbl.rbldomain else []) ++
        if after.score ≥ 100 then [] else processAppends answer (n + 1) rest after
    else []

/-- How many blacklists `process_request` asks. -/
def processAsked (answer : Nat → Option Hostent) : Nat → List Cfgitem → Tally → Nat
  | _, [], _ => 0
  | n, rbl :: rest, t =>
    if t.score < 100 then
      let after := processAnswer t rbl (answer n)
      if after.score ≥ 100 then 1 else processAsked answer (n + 1) rest after + 1
    else 0

/-- The domains of the blacklists that `process_request` asks and that list the client. -/
def processHits (answer : Nat → Option Hostent) (n : Nat) (rbls : List Cfgitem) (t : Tally) :
    List Bytes :=
  (listedFrom answer n (rbls.take (processAsked answer n rbls t))).map Cfgitem.rbldomain

/-- The domains of some blacklists with the scores of their records. -/
def scored (score : Nat → Int) (rbls : List Cfgitem) : List (Bytes × Int) :=
  rbls.mapIdx fun j item => (item.rbldomain, score j)

/-- Names with commas between them. -/
def joinedNames (names : List Bytes) : Bytes := (ascii ", ").intercalate names

/-- The reply holds some names, and `replen` is its length with the NUL; both are unset
before the first name. -/
structure Joined (t : Tally) (names : List Bytes) : Prop where
  reply : t.reply = if names = [] then none else some (joinedNames names)
  replen : t.replen = if names = [] then 0 else ((joinedNames names).length : Int) + 1

variable {t : Tally} {names : List Bytes} {answer : Nat → Option Hostent}

/-! ### The length of the names -/

theorem length_joinedNames_cons (name : Bytes) (names : List Bytes) :
    (joinedNames (name :: names)).length =
      name.length + if names = [] then 0 else 2 + (joinedNames names).length := by
  cases names with
  | nil => simp [joinedNames]
  | cons second names =>
    have hsep : (ascii ", ").length = 2 := rfl
    simp [joinedNames, List.intercalate_cons_cons, hsep]

theorem length_joinedNames_concat (h : names ≠ []) (name : Bytes) :
    (joinedNames (names ++ [name])).length = (joinedNames names).length + (2 + name.length) := by
  have hsep : (ascii ", ").length = 2 := rfl
  simp only [joinedNames, intercalate_concat h, List.length_append, hsep]
  omega

/-- Fewer names make a text that is not longer. -/
theorem length_joinedNames_le {few many : List Bytes} (h : few.Sublist many) :
    (joinedNames few).length ≤ (joinedNames many).length := by
  induction h with
  | slnil => exact le_rfl
  | cons name h ih =>
    rename_i few many
    rw [length_joinedNames_cons]
    split_ifs with hmany
    · rw [hmany] at ih
      exact ih.trans (Nat.zero_le _)
    · omega
  | cons_cons name h ih =>
    rename_i few many
    rw [length_joinedNames_cons, length_joinedNames_cons]
    by_cases hmany : many = []
    · rw [hmany] at h
      rw [if_pos (List.sublist_nil.mp h), if_pos hmany]
    · rw [if_neg hmany]
      split_ifs with hfew
      · omega
      · omega

/-! ### One hit -/

theorem joined_init : Joined Tally.init [] := ⟨rfl, rfl⟩

theorem tallyItem_eq_tallyHit (t : Tally) (rbldomain : Bytes) (score : Int) :
    tallyItem t rbldomain score = if score ≠ 0 then tallyHit t rbldomain score else t := rfl

/-- `process_request` makes a hit of every answer in 127.0.0.0/8. -/
theorem processAnswer_eq_tallyHit (t : Tally) (rbl : Cfgitem) (h : Option Hostent) :
    processAnswer t rbl h = if Listed h then tallyHit t rbl.rbldomain rbl.weight else t := by
  cases h with
  | none => simp [processAnswer, Listed]
  | some hp =>
    have hiff : Listed (some hp) ↔ hp.hAddrtype = .inet ∧ findsLoopback hp.hAddrList = true := by
      simp [Listed, findsLoopback_iff]
    simp only [processAnswer, hiff]
    rfl

/-- The last `strcat` of a hit leaves the reply, and each has the new size of the buffer. -/
theorem hitAppends_tallyHit (t : Tally) (rbldomain : Bytes) (weight : Int) :
    (hitAppends t rbldomain).getLast?.map (fun a => a.text ++ a.appended) =
        (tallyHit t rbldomain weight).reply ∧
      ∀ a ∈ hitAppends t rbldomain, a.size = (tallyHit t rbldomain weight).replen := by
  unfold hitAppends tallyHit
  cases t.reply with
  | none => simp
  | some reply => simp

/-- A hit appends its domain, and the text fits the buffer at each `strcat`. -/
theorem Joined.hit (h : Joined t names) {rbldomain : Bytes} (weight : Int)
    (hmax : (joinedNames (names ++ [rbldomain])).length < 2 ^ 31 - 1) :
    Joined (tallyHit t rbldomain weight) (names ++ [rbldomain]) ∧
      ∀ a ∈ hitAppends t rbldomain, a.Fits := by
  have hne : names ++ [rbldomain] ≠ [] := by simp
  by_cases hnames : names = []
  -- the first hit
  · have hreply : t.reply = none := by rw [h.reply, if_pos hnames]
    have hreplen : t.replen = 0 := by rw [h.replen, if_pos hnames]
    have hjoined : joinedNames (names ++ [rbldomain]) = rbldomain := by
      simp [hnames, joinedNames]
    have hsize : toInt32 (t.replen + (rbldomain.length + 1)) = (rbldomain.length : Int) + 1 := by
      rw [hjoined] at hmax
      rw [hreplen, zero_add]
      exact toInt32_of_mem (by omega)
    refine ⟨⟨?_, ?_⟩, ?_⟩
    · rw [if_neg hne, hjoined]
      simp [tallyHit, hreply]
    · rw [if_neg hne, hjoined]
      simp [tallyHit, hreply, hsize]
    · simp [hitAppends, hreply, hsize, Append.Fits]
  -- a later hit
  · have hreply : t.reply = some (joinedNames names) := by rw [h.reply, if_neg hnames]
    have hreplen : t.replen = ((joinedNames names).length : Int) + 1 := by
      rw [h.replen, if_neg hnames]
    have hlength := length_joinedNames_concat hnames rbldomain
    have hsize : toInt32 (t.replen + (2 + rbldomain.length)) =
        ((joinedNames (names ++ [rbldomain])).length : Int) + 1 := by
      have hsum : t.replen + (2 + rbldomain.length) =
          ((joinedNames (names ++ [rbldomain])).length : Int) + 1 := by
        rw [hreplen, hlength]
        push_cast
        ring
      rw [hsum]
      exact toInt32_of_mem (by omega)
    have hsep : (ascii ", ").length = 2 := rfl
    refine ⟨⟨?_, ?_⟩, ?_⟩
    · rw [if_neg hne, joinedNames, intercalate_concat hnames]
      simp [tallyHit, hreply, joinedNames]
    · rw [if_neg hne]
      simp [tallyHit, hreply, hsize]
    · intro a ha
      simp only [hitAppends, hreply, hsize, List.mem_cons, List.not_mem_nil, or_false] at ha
      rcases ha with rfl | rfl
      · simp only [Append.Fits, hsep]
        omega
      · simp only [Append.Fits, List.length_append, hsep]
        omega

/-! ### The two loops -/

theorem hitDomains_cons (r : Bytes × Int) (records : List (Bytes × Int)) :
    hitDomains (r :: records) =
      if r.2 ≠ 0 then r.1 :: hitDomains records else hitDomains records := by
  by_cases hr : r.2 ≠ 0
  · simp [hitDomains, hr]
  · simp [hitDomains, hr]

/-- The worker's loop from locals that hold some names. -/
theorem Joined.tally {records : List (Bytes × Int)} (h : Joined t names)
    (hmax : (joinedNames (names ++ hitDomains records)).length < 2 ^ 31 - 1) :
    Joined (records.foldl (fun t r => tallyItem t r.1 r.2) t) (names ++ hitDomains records) ∧
      ∀ a ∈ tallyAppends t records, a.Fits := by
  induction records generalizing t names with
  | nil => simpa [hitDomains, tallyAppends] using h
  | cons r records ih =>
    rw [List.foldl_cons, tallyAppends, tallyItem_eq_tallyHit]
    rw [hitDomains_cons] at hmax ⊢
    split_ifs at hmax ⊢ with hr
    · rw [List.append_cons] at hmax ⊢
      have hfew := length_joinedNames_le
        (List.sublist_append_left (names ++ [r.1]) (hitDomains records))
      obtain ⟨hjoined, hfits⟩ := h.hit r.2 (hfew.trans_lt hmax)
      obtain ⟨hrest, hrestFits⟩ := ih hjoined hmax
      refine ⟨hrest, fun a ha => ?_⟩
      rcases List.mem_append.mp ha with ha | ha
      · exact hfits a ha
      · exact hrestFits a ha
    · exact ih h hmax

theorem processHits_cons (n : Nat) (rbl : Cfgitem) (rest : List Cfgitem) (hscore : t.score < 100) :
    processHits answer n (rbl :: rest) t =
      (if Listed (answer n) then [rbl.rbldomain] else []) ++
        if (processAnswer t rbl (answer n)).score ≥ 100 then []
        else processHits answer (n + 1) rest (processAnswer t rbl (answer n)) := by
  have hnil : ∀ m, listedFrom answer m [] = [] := fun m => rfl
  unfold processHits
  rw [processAsked, if_pos hscore]
  by_cases hstop : (processAnswer t rbl (answer n)).score ≥ 100
  · simp only [hstop, if_true, List.take_succ_cons, List.take_zero, listedFrom_cons, hnil]
    split_ifs with hlisted
    · rfl
    · rfl
  · simp only [hstop, if_false, List.take_succ_cons, listedFrom_cons]
    split_ifs with hlisted
    · rfl
    · rfl

/-- The loop of `process_request` from locals that hold some names. -/
theorem Joined.process {rbls : List Cfgitem} (n : Nat) (h : Joined t names)
    (hmax : (joinedNames (names ++ processHits answer n rbls t)).length < 2 ^ 31 - 1) :
    Joined (processLoop answer n rbls t) (names ++ processHits answer n rbls t) ∧
      ∀ a ∈ processAppends answer n rbls t, a.Fits := by
  induction rbls generalizing t names n with
  | nil => simpa [processLoop, processHits, processAppends, listedFrom] using h
  | cons rbl rest ih =>
    by_cases hscore : t.score < 100
    · rw [processHits_cons n rbl rest hscore, ← List.append_assoc] at hmax ⊢
      rw [processLoop, if_pos hscore, processAppends, if_pos hscore]
      -- the answer to this blacklist: a hit, or nothing at all
      have hanswer : Joined (processAnswer t rbl (answer n))
            (names ++ if Listed (answer n) then [rbl.rbldomain] else []) ∧
          ∀ a ∈ (if Listed (answer n) then hitAppends t rbl.rbldomain else []), a.Fits := by
        have hfew := (length_joinedNames_le (List.sublist_append_left _ _)).trans_lt hmax
        rw [processAnswer_eq_tallyHit]
        split_ifs at hfew ⊢ with hlisted
        · exact h.hit _ hfew
        · simpa using h
      obtain ⟨hjoined, hfits⟩ := hanswer
      by_cases hstop : (processAnswer t rbl (answer n)).score ≥ 100
      · simp only [hstop, if_true, List.append_nil]
        exact ⟨hjoined, hfits⟩
      · simp only [hstop, if_false] at hmax ⊢
        obtain ⟨hrest, hrestFits⟩ := ih (n + 1) hjoined hmax
        refine ⟨hrest, fun a ha => ?_⟩
        rcases List.mem_append.mp ha with ha | ha
        · exact hfits a ha
        · exact hrestFits a ha
    · have hnone : processHits answer n (rbl :: rest) t = [] := by
        simp [processHits, processAsked, hscore, listedFrom]
      rw [hnone, List.append_nil, processLoop, if_neg hscore, processAppends, if_neg hscore]
      exact ⟨h, by simp⟩

/-! ### Every blacklist and every set of hits -/

theorem listedFrom_sublist (n : Nat) (rbls : List Cfgitem) :
    (listedFrom answer n rbls).Sublist rbls := by
  induction rbls generalizing n with
  | nil => exact List.Sublist.slnil
  | cons rbl rest ih =>
    rw [listedFrom_cons]
    split_ifs with hlisted
    · exact (ih (n + 1)).cons_cons rbl
    · exact (ih (n + 1)).cons rbl

theorem processHits_sublist (n : Nat) (rbls : List Cfgitem) (t : Tally) :
    (processHits answer n rbls t).Sublist (rbls.map Cfgitem.rbldomain) :=
  ((listedFrom_sublist n _).trans (List.take_sublist _ rbls)).map Cfgitem.rbldomain

theorem hitDomains_take_sublist (records : List (Bytes × Int)) (k : Nat) :
    (hitDomains (records.take k)).Sublist (records.map Prod.fst) :=
  (List.filter_sublist.trans (List.take_sublist k records)).map Prod.fst

theorem scored_map_fst (score : Nat → Int) (rbls : List Cfgitem) :
    (scored score rbls).map Prod.fst = rbls.map Cfgitem.rbldomain := by
  ext j : 1
  simp [scored, List.getElem?_mapIdx, Function.comp_def]

theorem finalScores_map_fst (job : Job) :
    (finalScores job).map Prod.fst = job.rblist.map Cfgitem.rbldomain := by
  ext j : 1
  simp [finalScores, List.getElem?_mapIdx, Function.comp_def]

/-- The locals behind the first blacklists are those that the loop goes on with. -/
theorem processLoop_append (n : Nat) (first rest : List Cfgitem) (t : Tally) :
    processLoop answer n (first ++ rest) t =
      processLoop answer (n + first.length) rest (processLoop answer n first t) := by
  have hstopped : ∀ {t : Tally} (m : Nat), t.score ≥ 100 → processLoop answer m rest t = t := by
    intro t m hscore
    cases rest with
    | nil => rfl
    | cons rbl rest => rw [processLoop, if_neg (by omega)]
  induction first generalizing n t with
  | nil => rfl
  | cons rbl first ih =>
    rw [List.cons_append, processLoop, processLoop]
    by_cases hscore : t.score < 100
    · rw [if_pos hscore, if_pos hscore]
      by_cases hstop : (processAnswer t rbl (answer n)).score ≥ 100
      · simp only [hstop, if_true]
        exact (hstopped _ hstop).symm
      · simp only [hstop, if_false]
        rw [ih, List.length_cons]
        congr 1
        omega
    · rw [if_neg hscore, if_neg hscore]
      exact (hstopped _ (by omega)).symm

/-- **The reply never outgrows its buffer.** For every list whose names, joined, are below
`INT_MAX`, and any set of hits: at each `strcat` of either loop the text, what is appended and
a NUL fit the size last allocated, and behind each record the reply is the hits so far, with
`replen` its length and the NUL. -/
theorem replyAppends_fit (rblist : List Cfgitem)
    (htotal : (joinedNames (rblist.map Cfgitem.rbldomain)).length < 2 ^ 31 - 1)
    (score : Nat → Int) (answer : Nat → Option Hostent) :
    ((∀ a ∈ tallyAppends Tally.init (scored score rblist), a.Fits) ∧
      ∀ k, Joined (tallyAll ((scored score rblist).take k))
        (hitDomains ((scored score rblist).take k))) ∧
    (∀ a ∈ processAppends answer 0 rblist Tally.init, a.Fits) ∧
      ∀ k, Joined (processLoop answer 0 (rblist.take k) Tally.init)
        (processHits answer 0 (rblist.take k) Tally.init) := by
  have hscored : ∀ k, Joined (tallyAll ((scored score rblist).take k))
        (hitDomains ((scored score rblist).take k)) ∧
      ∀ a ∈ tallyAppends Tally.init ((scored score rblist).take k), a.Fits := by
    intro k
    have hfew := length_joinedNames_le (hitDomains_take_sublist (scored score rblist) k)
    rw [scored_map_fst] at hfew
    exact joined_init.tally (hfew.trans_lt htotal)
  have hasked : ∀ k, Joined (processLoop answer 0 (rblist.take k) Tally.init)
        (processHits answer 0 (rblist.take k) Tally.init) ∧
      ∀ a ∈ processAppends answer 0 (rblist.take k) Tally.init, a.Fits := by
    intro k
    have hhits : (processHits answer 0 (rblist.take k) Tally.init).Sublist
        ((rblist.take k).map Cfgitem.rbldomain) := processHits_sublist 0 _ _
    have hfew := length_joinedNames_le
      (hhits.trans ((List.take_sublist k rblist).map Cfgitem.rbldomain))
    exact joined_init.process 0 (hfew.trans_lt htotal)
  refine ⟨⟨?_, fun k => (hscored k).1⟩, ?_, fun k => (hasked k).1⟩
  · have hall := (hscored (scored score rblist).length).2
    rwa [List.take_length] at hall
  · have hall := (hasked rblist.length).2
    rwa [List.take_length] at hall

/-- Three blacklists of which the first and the last list the client. -/
theorem replyAppends_fit_three :
    let rblist : List Cfgitem :=
      [⟨ascii "a.example", 60, 0, 0⟩, ⟨ascii "b.example", 50, 0, 0⟩, ⟨ascii "c.example", 50, 0, 0⟩]
    let score : Nat → Int := fun j => if j = 1 then 0 else 60
    let answer : Nat → Option Hostent :=
      fun j => if j = 1 then none else some ⟨.inet, [⟨127, 0, 0, 2⟩]⟩
    ((∀ a ∈ tallyAppends Tally.init (scored score rblist), a.Fits) ∧
      ∀ k, Joined (tallyAll ((scored score rblist).take k))
        (hitDomains ((scored score rblist).take k))) ∧
    (∀ a ∈ processAppends answer 0 rblist Tally.init, a.Fits) ∧
      ∀ k, Joined (processLoop answer 0 (rblist.take k) Tally.init)
        (processHits answer 0 (rblist.take k) Tally.init) := by
  intro rblist score answer
  exact replyAppends_fit rblist (by decide +kernel) score answer

/-- In every run of a worker, at the record that it is about to tally, the texts of the hit fit
the buffer. -/
theorem Session.hitAppends_fit {job : Job}
    (htotal : (joinedNames (job.rblist.map Cfgitem.rbldomain)).length < 2 ^ 31 - 1)
    {w : List Session.Action} {t : Session} {d : Dispatch}
    (hrun : Run (Session.step job) (fun _ _ => True) Session.init w t)
    (hpc : t.pc = .tallyUpdate) (hd : t.dispatched[t.i]? = some d) (hhit : d.resdata.score ≠ 0) :
    ∀ a ∈ hitAppends t.tally d.resdata.rblitem.rbldomain, a.Fits := by
  have hinv : Session.Inv job t := .run hrun
  have hphase : t.pc.phase = .tallying := by rw [hpc]; rfl
  obtain ⟨hzero, htally⟩ := hinv.tallied.tallying hphase
  have hcount : t.tallyCount = t.i := by simp [Session.tallyCount, hpc]
  have hrecord := hinv.records.getElem?_finalScores hinv.scored hzero hd
  -- the names so far, and with this one the names of one record more
  have hnames : hitDomains ((finalScores job).take (t.i + 1)) =
      hitDomains ((finalScores job).take t.i) ++ [d.resdata.rblitem.rbldomain] := by
    rw [List.take_add_one, hrecord, Option.toList_some]
    simp [hitDomains, hhit]
  have hfew : ∀ k, (joinedNames (hitDomains ((finalScores job).take k))).length < 2 ^ 31 - 1 := by
    intro k
    have hsublist := hitDomains_take_sublist (finalScores job) k
    rw [finalScores_map_fst] at hsublist
    exact (length_joinedNames_le hsublist).trans_lt htotal
  have hjoined := (joined_init.tally (hfew t.i)).1
  have hnext := hfew (t.i + 1)
  rw [hnames] at hnext
  rw [htally, hcount]
  exact (hjoined.hit d.resdata.score hnext).2

end Rblpolicyd
