import Rblpolicyd.Session.Tallied

/-!
# The verdict of a session

Whatever the order in which the solvers are created and finish, a worker that gets to
its reply has the final score of every blacklist, and the bytes it writes are a
function of the list and the answers alone.

## Main definitions

* `listedItems`, `listedWeight`, `listedDomains` — the blacklists that list the client
* `verdict` — the reply that they call for

## Main results

* `Session.verdict_correct` — every run that gets to the reply writes the verdict
-/

namespace Rblpolicyd

open Libc Semantics

/-- The blacklists that list the client, in the order of the configuration. -/
def listedItems (job : Job) : List Cfgitem :=
  (job.rblist.zipIdx.filter fun x => Listed (job.answer x.2)).map Prod.fst

/-- The weights of the blacklists that list the client, summed. -/
def listedWeight (job : Job) : Int := ((listedItems job).map Cfgitem.weight).sum

/-- The domains of the blacklists that list the client. -/
def listedDomains (job : Job) : List Bytes := (listedItems job).map Cfgitem.rbldomain

/-- The reply to a job: a rejection when the client can be read from the request and the
blacklists that list it weigh at least 100. -/
def verdict (job : Job) : Bytes :=
  if (prepareClient job.request).isSome ∧ 100 ≤ listedWeight job then
    rejectText (listedDomains job)
  else dunnoText

variable {job : Job}

/-! ### The scores and the blacklists that list the client -/

theorem finalScores_eq (job : Job) :
    finalScores job = job.rblist.zipIdx.map fun x =>
      (x.1.rbldomain, if Listed (job.answer x.2) then x.1.weight else 0) := by
  rw [finalScores, List.mapIdx_eq_zipIdx_map]
  apply List.map_congr_left
  intro x _
  rw [← solverScore_eq]

/-- The sum of the scores is the weight of the blacklists that list the client. -/
theorem totalScore_finalScores (job : Job) : totalScore (finalScores job) = listedWeight job := by
  rw [finalScores_eq, totalScore, listedWeight, listedItems]
  generalize job.rblist.zipIdx = items
  induction items with
  | nil => rfl
  | cons x items ih =>
    by_cases hx : Listed (job.answer x.2)
    · simpa [hx] using ih
    · simpa [hx] using ih

/-- With positive weights the hits are the blacklists that list the client. -/
theorem hitDomains_finalScores (hpos : ∀ item ∈ job.rblist, 0 < item.weight) :
    hitDomains (finalScores job) = listedDomains job := by
  have hpos' : ∀ x ∈ job.rblist.zipIdx, 0 < x.1.weight :=
    fun x hx => hpos x.1 (List.fst_mem_of_mem_zipIdx hx)
  rw [finalScores_eq, hitDomains, listedDomains, listedItems]
  generalize job.rblist.zipIdx = items at hpos'
  induction items with
  | nil => rfl
  | cons x items ih =>
    have hx : x.1.weight ≠ 0 := (hpos' x List.mem_cons_self).ne'
    have ih := ih fun y hy => hpos' y (List.mem_cons_of_mem x hy)
    by_cases hlisted : Listed (job.answer x.2)
    · simpa [hlisted, hx] using ih
    · simpa [hlisted] using ih

/-- With positive weights the blacklists that list the client weigh no more than all. -/
theorem listedWeight_mem (hpos : ∀ item ∈ job.rblist, 0 < item.weight) :
    0 ≤ listedWeight job ∧ listedWeight job ≤ (job.rblist.map Cfgitem.weight).sum := by
  have hpos' : ∀ x ∈ job.rblist.zipIdx, 0 < x.1.weight :=
    fun x hx => hpos x.1 (List.fst_mem_of_mem_zipIdx hx)
  have hall : job.rblist.map Cfgitem.weight =
      job.rblist.zipIdx.map fun x => x.1.weight := by
    rw [← List.zipIdx_map_fst 0 job.rblist, List.map_map]
    simp [Function.comp_def]
  rw [hall, listedWeight, listedItems]
  generalize job.rblist.zipIdx = items at hpos'
  induction items with
  | nil => simp
  | cons x items ih =>
    have hx := hpos' x List.mem_cons_self
    have ih := ih fun y hy => hpos' y (List.mem_cons_of_mem x hy)
    by_cases hlisted : Listed (job.answer x.2)
    · simp only [hlisted, decide_true, List.filter_cons_of_pos, List.map_cons, List.sum_cons]
      omega
    · simp only [hlisted, decide_false, Bool.false_eq_true, not_false_eq_true,
        List.filter_cons_of_neg, List.map_cons, List.sum_cons]
      omega

/-- The text of the verdict is what the scores make the worker write. -/
theorem bytesSent_finalScores (hpos : ∀ item ∈ job.rblist, 0 < item.weight)
    (hmax : (job.rblist.map Cfgitem.weight).sum ≤ 2 ^ 31 - 1) :
    bytesSent (replyWrites false (tallyAll (finalScores job))) =
      some (if 100 ≤ listedWeight job then rejectText (listedDomains job) else dunnoText) := by
  obtain ⟨hlow, hhigh⟩ := listedWeight_mem hpos
  have hscore : (tallyAll (finalScores job)).score = listedWeight job := by
    rw [tallyAll_score, totalScore_finalScores]
    exact toInt32_of_mem (by omega)
  rw [bytesSent_replyWrites, hscore, hitDomains_finalScores hpos]
  simp

namespace Session

/-- Behind the reply `write` has been called with it. -/
theorem Inv.written_eq {t : Session} (h : Inv job t) (hphase : t.pc.phase = .replying)
    (hpc : t.pc ≠ .reply) : t.written = replyWrites t.err t.tally := by
  rw [h.tallied.written, expectedWrites]
  cases hpc' : t.pc <;> simp_all

/-- With an error the reply is DUNNO. -/
theorem bytesSent_of_err {t : Session} (h : Inv job t) (hphase : t.pc.phase = .replying)
    (hpc : t.pc ≠ .reply) (herr : t.err = true) : bytesSent t.written = some dunnoText := by
  have htally : t.tally = tallyAll [] := h.tallied.rejected herr
  rw [h.written_eq hphase hpc, htally, bytesSent_replyWrites, herr]
  rfl

/-- In front of the reply and behind it there is a record for every blacklist. -/
theorem Inv.items_of_replying {t : Session} (h : Inv job t) (hphase : t.pc.phase = .replying)
    (herr : t.err = false) : t.dispatched.map (fun d => d.resdata.rblitem) = job.rblist := by
  have hrec := h.records
  rw [hphase] at hrec
  obtain ⟨-, hrbl, -⟩ := h.tallied.replying hphase herr
  have hlength := (hrec.length_eq (by simp) (by simp) herr hrbl).1
  rw [hrec.items, hlength, List.take_length]

/-- By then every solver has stored its final score. -/
theorem Inv.stored_of_replying {t : Session} (h : Inv job t) (hphase : t.pc.phase = .replying)
    {j : Nat} {d : Dispatch} (hd : t.dispatched[j]? = some d) :
    d.stored = true ∧
      d.resdata.score = if Listed (job.answer j) then d.resdata.rblitem.weight else 0 := by
  have herr : t.err = false := by
    by_contra herr
    rw [(h.records.rejected (by simpa using herr)).2] at hd
    cases hd
  obtain ⟨hres, -, -⟩ := h.tallied.replying hphase herr
  have hstored := stored_of_not_pending (h.records.not_pending hres hd)
  have hscored := h.scored j d hd
  rw [Dispatch.Scored, if_pos hstored, solverScore_eq] at hscored
  exact ⟨hstored, hscored⟩

/-- What the worker has written is the verdict. -/
theorem Inv.bytesSent_written {t : Session} (h : Inv job t)
    (hpos : ∀ item ∈ job.rblist, 0 < item.weight)
    (hmax : (job.rblist.map Cfgitem.weight).sum ≤ 2 ^ 31 - 1) (hphase : t.pc.phase = .replying)
    (hpc : t.pc ≠ .reply) : bytesSent t.written = some (verdict job) := by
  cases herr : t.err with
  | true =>
    rw [bytesSent_of_err h hphase hpc herr, verdict, (h.records.rejected herr).1]
    rfl
  | false =>
    have hprepared := h.records.prepared (by rw [hphase]; simp) herr
    obtain ⟨-, -, htally⟩ := h.tallied.replying hphase herr
    rw [h.written_eq hphase hpc, htally, herr, bytesSent_finalScores hpos hmax, verdict, hprepared]
    simp

/-- Every run that gets to the reply has the final score of each blacklist, and what it then
writes is the verdict. -/
theorem verdict_correct (job : Job) (hpos : ∀ item ∈ job.rblist, 0 < item.weight)
    (hmax : (job.rblist.map Cfgitem.weight).sum ≤ 2 ^ 31 - 1) {w : List Action} {t : Session}
    (hrun : Run (step job) (fun _ _ => True) init w t) (hreply : t.pc.phase = .replying) :
    (t.err = false → t.dispatched.map (fun d => d.resdata.rblitem) = job.rblist) ∧
    (∀ j d, t.dispatched[j]? = some d → d.stored = true ∧
      d.resdata.score = if Listed (job.answer j) then d.resdata.rblitem.weight else 0) ∧
    (t.pc ≠ .reply → bytesSent t.written = some (verdict job)) := by
  have hinv : Inv job t := .run hrun
  refine ⟨?_, ?_, ?_⟩
  · intro herr
    exact hinv.items_of_replying hreply herr
  · intro j d hd
    exact hinv.stored_of_replying hreply hd
  · intro hpc
    exact hinv.bytesSent_written hpos hmax hreply hpc

/-- A client that two blacklists list, whose weights only together call for a rejection. -/
def sampleJob : Job where
  request := ⟨some (ascii "client_address=127.0.0.2\n\n"), true, true⟩
  rblist := [⟨ascii "a.example", 60, 0, 0⟩, ⟨ascii "b.example", 50, 0, 0⟩]
  answer _ := some ⟨.inet, [⟨127, 0, 0, 2⟩]⟩

/-- The second solver finishes first, and the worker sleeps before and after. -/
def sampleRun : List Action :=
  List.replicate 28 (.worker true) ++ List.replicate 6 (.solver 1 true) ++
    List.replicate 2 (.worker true) ++ List.replicate 6 (.solver 0 true) ++
    List.replicate 16 (.worker true)

/-- The sample run ends behind the reply, and the client is rejected through both. -/
theorem verdict_correct_sampleRun :
    ∃ t, Run (step sampleJob) (fun _ _ => True) init sampleRun t ∧ t.pc = .cleanup ∧
      bytesSent t.written = some (verdict sampleJob) ∧
      verdict sampleJob =
        ascii "action=REJECT Blocked through a.example, b.example\n\n" := by
  have hexec : (exec (step sampleJob) (fun _ _ => True) init sampleRun).any
      (fun t => t.pc = .cleanup) = true := by decide +kernel
  obtain ⟨t, hrun, hpc⟩ := exists_run_of_exec hexec
  have hcorrect := verdict_correct sampleJob (by decide) (by decide) hrun (by rw [hpc]; rfl)
  exact ⟨t, hrun, hpc, hcorrect.2.2 (by rw [hpc]; nofun), by decide +kernel⟩

end Session

end Rblpolicyd
