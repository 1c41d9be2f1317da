import Rblpolicyd.Session.Verdict

/-!
# The scorer without threads

`process_request` asks one blacklist after the other and stops as soon as the score reaches
100, where a worker asks all of them and sums afterwards. It builds its reply from a hit,
the worker from a score that is not zero. With positive weights the two choose the same
action; the names in a rejection are as many of the worker's, from the first on, as it takes
to reach 100.

## Main definitions

* `processAnswer`, `processLoop`, `processRequest` — `process_request`
* `weightOf`, `stopAfter` — the weight of some blacklists, how many of them reach 100

## Main results

* `processLoop_eq` — the loop with an early exit is a tally of the first blacklists
* `Session.processRequest_agrees` — the reply of a worker and that of `process_request`
-/

namespace Rblpolicyd

open Libc Semantics

/-- What `process_request` does with the answer to a lookup. A hit builds the reply and adds the
weight, whatever the weight is. -/
def processAnswer (t : Tally) (rbl : Cfgitem) : Option Hostent → Tally
  | none => t
  | some h =>
    if h.hAddrtype = .inet ∧ findsLoopback h.hAddrList then
      match t.reply with
      | some reply =>
        { score := toInt32 (t.score + rbl.weight)
          replen := toInt32 (t.replen + (2 + rbl.rbldomain.length))
          reply := some (reply ++ ascii ", " ++ rbl.rbldomain) }
      | none =>
        { score := toInt32 (t.score + rbl.weight)
          replen := toInt32 (t.replen + (rbl.rbldomain.length + 1))
          reply := some ([] ++ rbl.rbldomain) }
    else t

/-- The loop of `process_request`, from the blacklist with number `n` on. It has a test of the
score in its head and another one at the end of its body. -/
def processLoop (answer : Nat → Option Hostent) : Nat → List Cfgitem → Tally → Tally
  | _, [], t => t
  | n, rbl :: rest, t =>
    if t.score < 100 then
      let t := processAnswer t rbl (answer n)
      if t.score ≥ 100 then t else processLoop answer (n + 1) rest t
    else t

/-- `process_request`: what it passes to `write`. -/
def processRequest (job : Job) : List (Option Bytes) :=
  match prepareClient job.request with
  | none => replyWrites true Tally.init
  | some _ => replyWrites false (processLoop job.answer 0 job.rblist Tally.init)

/-- The weights of some blacklists, summed. -/
def weightOf (items : List Cfgitem) : Int := (items.map Cfgitem.weight).sum

/-- The number of blacklists that it takes to get a score to 100, or all of them. -/
def stopAfter : Int → List Cfgitem → Nat
  | _, [] => 0
  | score, item :: items =>
    if score + item.weight ≥ 100 then 1 else stopAfter (score + item.weight) items + 1

/-- The blacklists that list the client, from the one with number `n` on. -/
def listedFrom (answer : Nat → Option Hostent) (n : Nat) (rbls : List Cfgitem) : List Cfgitem :=
  ((rbls.zipIdx n).filter fun x => Listed (answer x.2)).map Prod.fst

variable {job : Job} {answer : Nat → Option Hostent} {items rbls : List Cfgitem} {t : Tally}
  {score : Int}

@[simp] theorem weightOf_nil : weightOf [] = 0 := rfl

@[simp] theorem weightOf_cons (item : Cfgitem) (items : List Cfgitem) :
    weightOf (item :: items) = item.weight + weightOf items := by
  simp [weightOf]

/-! ### The first blacklists that reach 100 -/

/-- Fewer of them stay below. -/
theorem weightOf_take_lt {m : Nat} (hscore : score < 100) (hm : m < stopAfter score items) :
    score + weightOf (items.take m) < 100 := by
  induction items generalizing score m with
  | nil => simp [stopAfter] at hm
  | cons item items ih =>
    cases m with
    | zero => simpa using hscore
    | succ m =>
      unfold stopAfter at hm
      split_ifs at hm with hstop
      · omega
      · have hlt := ih (not_le.mp hstop) (Nat.lt_of_succ_lt_succ hm)
        simp only [List.take_succ_cons, weightOf_cons]
        omega

/-- When all of them reach 100, so do these. -/
theorem le_weightOf_take (hscore : 100 ≤ score + weightOf items) :
    100 ≤ score + weightOf (items.take (stopAfter score items)) := by
  induction items generalizing score with
  | nil => simpa [stopAfter] using hscore
  | cons item items ih =>
    unfold stopAfter
    split_ifs with hstop
    · simpa using hstop
    · rw [weightOf_cons] at hscore
      have hle : 100 ≤ score + item.weight +
          weightOf (items.take (stopAfter (score + item.weight) items)) := ih (by omega)
      simp only [List.take_succ_cons, weightOf_cons]
      omega

theorem le_weightOf_take_zero (h : 100 ≤ weightOf items) :
    100 ≤ weightOf (items.take (stopAfter 0 items)) := by
  have hscore : 100 ≤ 0 + weightOf items := by rwa [zero_add]
  have hle := le_weightOf_take hscore
  rwa [zero_add] at hle

theorem weightOf_take_le (hpos : ∀ item ∈ items, 0 < item.weight) (m : Nat) :
    0 ≤ weightOf (items.take m) ∧ weightOf (items.take m) ≤ weightOf items := by
  induction items generalizing m with
  | nil => simp
  | cons item items ih =>
    have hitem := hpos item List.mem_cons_self
    have hrest := fun k => ih (fun other hother => hpos other (List.mem_cons_of_mem item hother)) k
    cases m with
    | zero =>
      have hall := hrest items.length
      rw [List.take_length] at hall
      simp only [List.take_zero, weightOf_nil, weightOf_cons]
      omega
    | succ m =>
      have hm := hrest m
      simp only [List.take_succ_cons, weightOf_cons]
      omega

/-! ### The loop with an early exit -/

/-- A hit with a weight is tallied like a score, and a miss is not. -/
theorem processAnswer_eq (t : Tally) {rbl : Cfgitem} (hpos : 0 < rbl.weight)
    (h : Option Hostent) :
    processAnswer t rbl h =
      if Listed h then tallyItem t rbl.rbldomain rbl.weight else t := by
  have hweight : rbl.weight ≠ 0 := hpos.ne'
  cases h with
  | none => simp [processAnswer, Listed]
  | some hp =>
    have hiff : Listed (some hp) ↔ hp.hAddrtype = .inet ∧ findsLoopback hp.hAddrList = true := by
      simp [Listed, findsLoopback_iff]
    cases hreply : t.reply with
    | none => simp [processAnswer, hiff, tallyItem, hweight, hreply]
    | some reply => simp [processAnswer, hiff, tallyItem, hweight, hreply]

theorem listedFrom_cons (answer : Nat → Option Hostent) (n : Nat) (rbl : Cfgitem)
    (rest : List Cfgitem) :
    listedFrom answer n (rbl :: rest) =
      if Listed (answer n) then rbl :: listedFrom answer (n + 1) rest
      else listedFrom answer (n + 1) rest := by
  unfold listedFrom
  by_cases hlisted : Listed (answer n)
  · simp [hlisted]
  · simp [hlisted]

/-- The loop is the tally of the blacklists that list the client, from the first one on, as many
as it takes to reach 100. -/
theorem processLoop_eq (n : Nat) (hpos : ∀ item ∈ rbls, 0 < item.weight) (hscore : t.score < 100)
    (hlow : 0 ≤ t.score) (hmax : t.score + weightOf (listedFrom answer n rbls) < 2 ^ 31) :
    processLoop answer n rbls t =
      ((listedFrom answer n rbls).take (stopAfter t.score (listedFrom answer n rbls))).foldl
        (fun t item => tallyItem t item.rbldomain item.weight) t := by
  induction rbls generalizing n t with
  | nil => rfl
  | cons rbl rest ih =>
    have hrbl : 0 < rbl.weight := hpos rbl List.mem_cons_self
    have hrest : ∀ item ∈ rest, 0 < item.weight :=
      fun item hitem => hpos item (List.mem_cons_of_mem rbl hitem)
    have hrestListed : 0 ≤ weightOf (listedFrom answer (n + 1) rest) := by
      have hlisted : ∀ item ∈ listedFrom answer (n + 1) rest, 0 < item.weight := by
        intro item hitem
        obtain ⟨x, hx, rfl⟩ := List.mem_map.mp hitem
        exact hrest x.1 (List.fst_mem_of_mem_zipIdx (List.mem_filter.mp hx).1)
      have hle := weightOf_take_le hlisted 0
      simpa using hle.2
    rw [processLoop, if_pos hscore]
    simp only [processAnswer_eq t hrbl]
    by_cases hlisted : Listed (answer n)
    · rw [listedFrom_cons, if_pos hlisted, weightOf_cons] at hmax
      have hsum : (tallyItem t rbl.rbldomain rbl.weight).score = t.score + rbl.weight :=
        tallyItem_score t _ (by omega)
      rw [listedFrom_cons, if_pos hlisted, if_pos hlisted, stopAfter, hsum]
      by_cases hstop : t.score + rbl.weight ≥ 100
      -- the second test ends the loop behind this hit
      · rw [if_pos hstop, if_pos hstop]
        rfl
      · rw [if_neg hstop, if_neg hstop, ih (n + 1) hrest (by omega) (by omega) (by omega), hsum]
        rfl
    · have hnot : ¬ t.score ≥ 100 := not_le.mpr hscore
      rw [listedFrom_cons, if_neg hlisted] at hmax
      rw [listedFrom_cons, if_neg hlisted, if_neg hlisted, if_neg hnot]
      exact ih (n + 1) hrest hscore hlow hmax

/-- The tally of blacklists whose weights are the scores. -/
theorem foldl_tallyItem (items : List Cfgitem) :
    items.foldl (fun t item => tallyItem t item.rbldomain item.weight) Tally.init =
      tallyAll (items.map fun item => (item.rbldomain, item.weight)) := by
  rw [tallyAll, List.foldl_map]

theorem listedFrom_zero (job : Job) : listedFrom job.answer 0 job.rblist = listedItems job := rfl

theorem pos_of_mem_listedItems (hpos : ∀ item ∈ job.rblist, 0 < item.weight) :
    ∀ item ∈ listedItems job, 0 < item.weight := by
  intro item hitem
  obtain ⟨x, hx, rfl⟩ := List.mem_map.mp hitem
  exact hpos x.1 (List.fst_mem_of_mem_zipIdx (List.mem_filter.mp hx).1)

/-- Blacklists with positive weights are all named in the reply. -/
theorem hitDomains_of_pos (hpos : ∀ item ∈ items, 0 < item.weight) :
    hitDomains (items.map fun item => (item.rbldomain, item.weight)) =
      items.map Cfgitem.rbldomain := by
  rw [hitDomains, List.filter_eq_self.mpr, List.map_map]
  · rfl
  · intro r hr
    obtain ⟨item, hitem, rfl⟩ := List.mem_map.mp hr
    simp [(hpos item hitem).ne']

theorem tallyAll_score_of_mem (hlow : 0 ≤ weightOf items) (hhigh : weightOf items ≤ 2 ^ 31 - 1) :
    (tallyAll (items.map fun item => (item.rbldomain, item.weight))).score = weightOf items := by
  have htotal : totalScore (items.map fun item => (item.rbldomain, item.weight)) =
      weightOf items := by
    simp [totalScore, weightOf, Function.comp_def]
  rw [tallyAll_score, htotal]
  exact toInt32_of_mem (by omega)

/-- What `process_request` writes about a client that it can read. -/
theorem bytesSent_processRequest (hclient : (prepareClient job.request).isSome)
    (hpos : ∀ item ∈ job.rblist, 0 < item.weight)
    (hmax : (job.rblist.map Cfgitem.weight).sum ≤ 2 ^ 31 - 1) :
    bytesSent (processRequest job) = some (
      if 100 ≤ listedWeight job then
        rejectText (((listedItems job).take (stopAfter 0 (listedItems job))).map Cfgitem.rbldomain)
      else dunnoText) := by
  obtain ⟨hlow, hhigh⟩ := listedWeight_mem hpos
  have hlisted := pos_of_mem_listedItems hpos
  obtain ⟨prepared, hprepared⟩ := Option.isSome_iff_exists.mp hclient
  set first := (listedItems job).take (stopAfter 0 (listedItems job)) with hfirst
  obtain ⟨hfirstLow, hfirstHigh⟩ := weightOf_take_le hlisted (stopAfter 0 (listedItems job))
  rw [← hfirst] at hfirstLow hfirstHigh
  have hweight : listedWeight job = weightOf (listedItems job) := rfl
  have hsum : Tally.init.score + weightOf (listedFrom job.answer 0 job.rblist) < 2 ^ 31 := by
    rw [listedFrom_zero, ← hweight]
    simp only [Tally.init]
    omega
  have hloop := processLoop_eq 0 hpos (by decide) (by decide) hsum
  have hinit : Tally.init.score = 0 := rfl
  rw [listedFrom_zero, foldl_tallyItem, hinit, ← hfirst] at hloop
  have hscore := tallyAll_score_of_mem hfirstLow (by omega)
  have hfirstPos : ∀ item ∈ first, 0 < item.weight :=
    fun item hitem => hlisted item (List.mem_of_mem_take hitem)
  have hnames := hitDomains_of_pos hfirstPos
  have hreach : 100 ≤ weightOf first ↔ 100 ≤ listedWeight job := by
    constructor
    · intro h
      omega
    · intro h
      have hle := le_weightOf_take_zero h
      rw [← hfirst] at hle
      omega
  simp only [processRequest, hprepared]
  rw [hloop, bytesSent_replyWrites, hscore, hnames]
  simp only [true_and, hreach]

namespace Session

/-- In every run of a worker that has written its reply, with positive weights whose sum is an
`int`: either the worker and `process_request` write the same DUNNO, or both reject the client,
the worker with the names of the blacklists that list it and `process_request` with the first of
these, as few as it takes for their weights to reach 100. -/
theorem processRequest_agrees (job : Job) (hpos : ∀ item ∈ job.rblist, 0 < item.weight)
    (hmax : (job.rblist.map Cfgitem.weight).sum ≤ 2 ^ 31 - 1) {w : List Action} {t : Session}
    (hrun : Run (step job) (fun _ _ => True) init w t) (hreply : t.pc.phase = .replying)
    (hwritten : t.pc ≠ .reply) :
    (bytesSent t.written = some dunnoText ∧ bytesSent (processRequest job) = some dunnoText) ∨
    ∃ n, bytesSent t.written = some (rejectText (listedDomains job)) ∧
      bytesSent (processRequest job) = some (rejectText ((listedDomains job).take n)) ∧
      100 ≤ weightOf ((listedItems job).take n) ∧
      ∀ m < n, weightOf ((listedItems job).take m) < 100 := by
  have hworker := (Inv.run hrun).bytesSent_written hpos hmax hreply hwritten
  unfold verdict at hworker
  by_cases hclient : (prepareClient job.request).isSome
  · have hsequential := bytesSent_processRequest hclient hpos hmax
    by_cases hweight : 100 ≤ listedWeight job
    · rw [if_pos ⟨hclient, hweight⟩] at hworker
      rw [if_pos hweight] at hsequential
      rw [List.map_take] at hsequential
      refine .inr ⟨_, hworker, hsequential, ?_, fun m hm => ?_⟩
      · exact le_weightOf_take_zero hweight
      · have hlt := weightOf_take_lt (by decide) hm
        rwa [zero_add] at hlt
    · rw [if_neg fun h => hweight h.2] at hworker
      rw [if_neg hweight] at hsequential
      exact .inl ⟨hworker, hsequential⟩
  · have hnone : prepareClient job.request = none := by simpa using hclient
    rw [if_neg fun h => hclient h.1] at hworker
    refine .inl ⟨hworker, ?_⟩
    simp only [processRequest, hnone]
    rfl

/-- The sample client, when the first of the two blacklists alone calls for a rejection. -/
def heavyJob : Job :=
  { sampleJob with
    rblist := [⟨ascii "a.example", 100, 0, 0⟩, ⟨ascii "b.example", 50, 0, 0⟩] }

/-- The worker names both blacklists, and `process_request` does not ask the second. -/
theorem processRequest_agrees_heavyJob :
    ∃ t, Run (step heavyJob) (fun _ _ => True) init sampleRun t ∧ t.pc = .cleanup ∧
      bytesSent t.written =
        some (ascii "action=REJECT Blocked through a.example, b.example\n\n") ∧
      bytesSent (processRequest heavyJob) =
        some (ascii "action=REJECT Blocked through a.example\n\n") := by
  have hexec : (exec (step heavyJob) (fun _ _ => True) init sampleRun).any
      (fun t => t.pc = .cleanup) = true := by decide +kernel
  obtain ⟨t, hrun, hpc⟩ := exists_run_of_exec hexec
  have hsequential : bytesSent (processRequest heavyJob) =
      some (ascii "action=REJECT Blocked through a.example\n\n") := by decide +kernel
  have hnames : rejectText (listedDomains heavyJob) =
      ascii "action=REJECT Blocked through a.example, b.example\n\n" := by decide +kernel
  refine ⟨t, hrun, hpc, ?_, hsequential⟩
  rcases processRequest_agrees heavyJob (by decide) (by decide) hrun (by rw [hpc]; rfl)
    (by rw [hpc]; nofun) with ⟨-, hdunno⟩ | ⟨n, hworker, -⟩
  · rw [hsequential] at hdunno
    exact absurd hdunno (by decide +kernel)
  · rw [hworker, hnames]

end Session

end Rblpolicyd
