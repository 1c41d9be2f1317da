import Rblpolicyd.Config.Grammar
import Rblpolicyd.Session.Verdict

/-!
# The shape of the reply

For every list that `cfg_read` returns, every outcome of reading the request and every
answer, what a worker writes is one of the two responses and nothing else: the pointers
are not null, and no byte in front of the empty line ends a line or a string. The domains
of a list contribute none, as the tokenizer stops at white space.

## Main definitions

* `CfgList` — the lists that `cfg_read` returns
* `IsPolicyAction` — the text of a response for a list

## Main results

* `Session.reply_wellFormed` — every reply is one response, and a failure answers DUNNO
-/

namespace Rblpolicyd

open Libc Semantics

/-- A list that `cfg_read` returns, for some file and some outcomes of its allocations. -/
def CfgList (rblist : List Cfgitem) : Prop :=
  ∃ callocOk heap file first cells, (cfgRead callocOk heap file).1 = some first ∧
    (cfgRead callocOk heap file).2.IsList (some first) cells ∧ rblist = cells.map Prod.snd

/-- The text of a response: DUNNO, or a rejection through some of the domains. -/
def IsPolicyAction (rblist : List Cfgitem) (text : Bytes) : Prop :=
  text = ascii "action=DUNNO" ∨
    ∃ hits : List Bytes, hits ≠ [] ∧ (∀ domain ∈ hits, domain ∈ rblist.map Cfgitem.rbldomain) ∧
      text = ascii "action=REJECT Blocked through " ++ (ascii ", ").intercalate hits

/-- No byte of the text ends a line or a string. -/
def SingleLine (text : Bytes) : Prop := ∀ b ∈ text, b ≠ cr ∧ b ≠ lf ∧ b ≠ nul

-- The instance runs along the text; the default search would run over every byte value.
instance : DecidablePred SingleLine := fun text => List.decidableBAll _ text

theorem CfgList.plain {rblist : List Cfgitem} (h : CfgList rblist) :
    ∀ item ∈ rblist, item.Plain := by
  obtain ⟨callocOk, heap, file, first, cells, hfirst, hlist, rfl⟩ := h
  intro item hitem
  obtain ⟨c, hc, rfl⟩ := List.mem_map.mp hitem
  exact cfgRead_plain hfirst hlist nofun c hc

theorem Cfgitem.Plain.singleLine {item : Cfgitem} (h : item.Plain) :
    SingleLine item.rbldomain := by
  intro b hb
  obtain ⟨hspace, hnul⟩ := h.domain_plain b hb
  refine ⟨?_, ?_, hnul⟩
  · rintro rfl
    cases hspace
  · rintro rfl
    cases hspace

theorem SingleLine.append {s t : Bytes} (hs : SingleLine s) (ht : SingleLine t) :
    SingleLine (s ++ t) := by
  intro b hb
  rcases List.mem_append.mp hb with hb | hb
  · exact hs b hb
  · exact ht b hb

theorem SingleLine.intercalate {sep : Bytes} (hsep : SingleLine sep) {names : List Bytes}
    (hnames : ∀ name ∈ names, SingleLine name) : SingleLine (sep.intercalate names) := by
  induction names with
  | nil => exact nofun
  | cons first names ih =>
    have hfirst := hnames first List.mem_cons_self
    have ih := ih fun name hname => hnames name (List.mem_cons_of_mem first hname)
    cases names with
    | nil => simpa using hfirst
    | cons second names =>
      rw [List.intercalate_cons_cons]
      exact (hfirst.append hsep).append ih

/-- The text of a response for plain entries is on one line. -/
theorem IsPolicyAction.singleLine {rblist : List Cfgitem} {text : Bytes}
    (hplain : ∀ item ∈ rblist, item.Plain) (h : IsPolicyAction rblist text) :
    SingleLine text := by
  rcases h with rfl | ⟨hits, -, hmem, rfl⟩
  · decide
  · apply SingleLine.append (by decide)
    apply SingleLine.intercalate (by decide)
    intro domain hdomain
    obtain ⟨item, hitem, rfl⟩ := List.mem_map.mp (hmem domain hdomain)
    exact (hplain item hitem).singleLine

variable {job : Job}

theorem mem_of_mem_hitDomains {domain : Bytes} (h : domain ∈ hitDomains (finalScores job)) :
    domain ∈ job.rblist.map Cfgitem.rbldomain := by
  obtain ⟨r, hr, rfl⟩ := List.mem_map.mp h
  rw [finalScores_eq] at hr
  obtain ⟨x, hx, rfl⟩ := List.mem_map.mp (List.mem_of_mem_filter hr)
  exact List.mem_map_of_mem (List.fst_mem_of_mem_zipIdx hx)

/-- What a worker writes behind its loops is one response and an empty line. -/
theorem bytesSent_isPolicyAction (job : Job) :
    ∃ text, bytesSent (replyWrites false (tallyAll (finalScores job))) =
      some (text ++ [lf, lf]) ∧ IsPolicyAction job.rblist text := by
  rw [bytesSent_replyWrites]
  split_ifs with hreject
  · refine ⟨_, rfl, .inr ⟨hitDomains (finalScores job), ?_, fun _ => mem_of_mem_hitDomains, rfl⟩⟩
    intro hnil
    have hzero := tallyAll_score_of_hitDomains_eq_nil hnil
    omega
  · exact ⟨_, rfl, .inl rfl⟩

namespace Session

/-- Every reply is one response on one line and an empty line behind it; no pointer passed to
`write` is null; and a request that fails starts no lookup and is answered DUNNO. -/
theorem reply_wellFormed (job : Job) (hcfg : CfgList job.rblist) {w : List Action} {t : Session}
    (hrun : Run (step job) (fun _ _ => True) init w t) :
    (t.pc.phase = .replying → t.pc ≠ .reply →
      none ∉ t.written ∧ ∃ text, bytesSent t.written = some (text ++ [lf, lf]) ∧
        IsPolicyAction job.rblist text ∧ SingleLine text) ∧
    (job.request.Fails → t.dispatched = [] ∧
      (t.pc.phase = .replying → t.pc ≠ .reply → bytesSent t.written = some dunnoText)) := by
  have hinv : Inv job t := .run hrun
  constructor
  · intro hphase hpc
    obtain ⟨text, hsent, haction⟩ : ∃ text, bytesSent t.written = some (text ++ [lf, lf]) ∧
        IsPolicyAction job.rblist text := by
      cases herr : t.err with
      | true => exact ⟨ascii "action=DUNNO", bytesSent_of_err hinv hphase hpc herr, .inl rfl⟩
      | false =>
        obtain ⟨-, -, htally⟩ := hinv.tallied.replying hphase herr
        rw [hinv.written_eq hphase hpc, htally, herr]
        exact bytesSent_isPolicyAction job
    exact ⟨none_notMem_of_bytesSent hsent, text, hsent, haction, haction.singleLine hcfg.plain⟩
  · intro hfails
    have hnone := (prepareClient_eq_none_iff job.request).mpr hfails
    by_cases hstart : t.pc.phase = .start
    · refine ⟨(hinv.records.idle hstart).2, fun hphase => ?_⟩
      cases hstart.symm.trans hphase
    · have herr : t.err = true := by
        by_contra herr
        have hsome := hinv.records.prepared hstart (by simpa using herr)
        cases hnone.symm.trans hsome
      exact ⟨(hinv.records.rejected herr).2,
        fun hphase hpc => bytesSent_of_err hinv hphase hpc herr⟩

/-- A file with the list of the sample. -/
theorem cfgList_sampleJob : CfgList sampleJob.rblist := by
  refine ⟨fun _ => true, Heap.empty, some (ascii "a.example 60\n b.example 0x32 # half\n"), 0,
    [(0, freshItem (ascii "a.example", 60)), (1, freshItem (ascii "b.example", 50))],
    by decide, ?_, rfl⟩
  exact ⟨rfl, some 1, by decide, rfl, none, by decide, rfl⟩

/-- The sample run on the list read from this file is answered with one line, which rejects. -/
theorem reply_wellFormed_sampleJob :
    ∃ t, Run (step sampleJob) (fun _ _ => True) init sampleRun t ∧ t.pc = .cleanup ∧
      bytesSent t.written =
        some (ascii "action=REJECT Blocked through a.example, b.example\n\n") ∧
      none ∉ t.written ∧ ∃ text, bytesSent t.written = some (text ++ [lf, lf]) ∧
        IsPolicyAction sampleJob.rblist text ∧ SingleLine text := by
  have hexec : (exec (step sampleJob) (fun _ _ => True) init sampleRun).any
      (fun t => t.pc = .cleanup ∧ bytesSent t.written =
        some (ascii "action=REJECT Blocked through a.example, b.example\n\n")) = true := by
    decide +kernel
  obtain ⟨t, hrun, hpc, hrejects⟩ := exists_run_of_exec hexec
  have hreply := (reply_wellFormed sampleJob cfgList_sampleJob hrun).1 (by rw [hpc]; rfl)
    (by rw [hpc]; nofun)
  exact ⟨t, hrun, hpc, hrejects, hreply⟩

end Session

end Rblpolicyd
