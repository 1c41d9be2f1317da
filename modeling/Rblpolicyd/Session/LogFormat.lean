import Rblpolicyd.Libc.Printf
import Rblpolicyd.Session.Verdict

/-!
# What a worker logs with `dbg`

`dbg` formats its message into a buffer of 4095 bytes and passes the buffer to `syslog`,
where it is a format once more. The client is logged as the request spells it, before it
has been checked, and the reply names blacklists as the configuration spells them.

## Main definitions

* `LogCall`, `LogCall.syslogFormat` — a call of `dbg`, and the format that `syslog` gets
* `workerCalls` — the calls of a worker for a job
* `LogCall.Literal` — what is logged is the message, and no argument is read
* `PercentFree` — no `%` is in the part of a text that is logged

## Main results

* `literal_iff` — a message with one `%s` is logged as it is when its text has no `%`
* `Session.workerCalls_of_run` — the calls are made with what a session has tallied
* `workerCalls_literal_iff` — when all messages of a worker are
-/

namespace Rblpolicyd

open Libc Semantics

/-- A call of `dbg`. -/
structure LogCall where
  format : Bytes
  args : List Argument

/-- The buffer that `dbg` passes to `syslog` as its format. -/
def LogCall.syslogFormat (call : LogCall) : Option Bytes := vsnprintf 4095 call.format call.args

/-- What `syslog` writes is the message, and it takes no argument, whatever is in its place. -/
def LogCall.Literal (call : LogCall) : Prop :=
  ∃ text, call.syslogFormat = some text ∧ FixedPoint text

/-- A call whose format has one `%s`. -/
def stringCall (before behind s : Bytes) : LogCall :=
  ⟨before ++ ascii "%s" ++ behind, [.string s]⟩

/-- The calls up to the lookups: the client, and its reversed address. -/
def clientCalls (r : ClientRequest) : List LogCall :=
  match r.request with
  | none => []
  | some request =>
    match parseRequest r.clientMalloc (cstr request) with
    | none => []
    | some client =>
      stringCall (ascii "Client address: '") (ascii "'") client ::
        match prepareClient r with
        | none => []
        | some (_, rdn) => [stringCall (ascii "Reverse client address: '") (ascii "'") rdn]

/-- The call before the reply is written. -/
def replyCall (err : Bool) (t : Tally) : LogCall :=
  if !err ∧ t.score ≥ 100 then
    stringCall (ascii "Reply: 'action=REJECT Blocked through ") (ascii "'")
      (t.reply.getD (ascii "(null)"))
  else ⟨ascii "Reply: 'action=DUNNO'", []⟩

/-- The messages that a worker builds for a job. -/
def workerCalls (job : Job) : List LogCall :=
  clientCalls job.request ++
    [match prepareClient job.request with
      | none => replyCall true Tally.init
      | some _ => replyCall false (tallyAll (finalScores job))]

/-- No `%` in the bytes of the client and of the reply that are logged. -/
structure PercentFree (job : Job) : Prop where
  client : ∀ request client, job.request.request = some request →
    parseRequest job.request.clientMalloc (cstr request) = some client →
    percent ∉ client.take 4077
  reply : prepareClient job.request ≠ none → 100 ≤ toInt32 (listedWeight job) →
    percent ∉ ((ascii ", ").intercalate (hitDomains (finalScores job))).take 4056

variable {before behind s : Bytes} {job : Job}

/-- In every run that gets to the reply, the last call is made with what has been tallied. -/
theorem Session.workerCalls_of_run {ok : Session → Session.Action → Prop}
    {w : List Session.Action} {t : Session}
    (hrun : Run (Session.step job) ok Session.init w t) (hphase : t.pc.phase = .replying) :
    workerCalls job = clientCalls job.request ++ [replyCall t.err t.tally] := by
  have hinv : Session.Inv job t := .run hrun
  have hstart : t.pc.phase ≠ .start := by
    rw [hphase]
    nofun
  cases herr : t.err with
  | true => rw [workerCalls, (hinv.records.rejected herr).1]; rfl
  | false =>
    have hsome := hinv.records.prepared hstart herr
    obtain ⟨-, -, htally⟩ := hinv.tallied.replying hphase herr
    rw [workerCalls, hsome, htally]

/-! ### One message -/

theorem expandFrom_append {render : Nat → Conversion → Bytes} (hbefore : percent ∉ before)
    (fuel k : Nat) (t : Bytes) :
    expandFrom render (before.length + fuel) k (before ++ t) =
      (expandFrom render fuel k t).map fun r => (before ++ r.1, r.2) := by
  induction before with
  | nil => simp
  | cons b before ih =>
    obtain ⟨hb, hrest⟩ := not_or.mp (mt List.mem_cons.mpr hbefore)
    rw [List.length_cons, Nat.add_right_comm, List.cons_append, expandFrom, if_neg (Ne.symm hb),
      ih hrest, Option.map_map]
    rfl

/-- The format that `syslog` gets is the message with its text, cut to 4094 bytes. -/
theorem syslogFormat_stringCall (hbefore : percent ∉ before) (hbehind : percent ∉ behind) :
    (stringCall before behind s).syslogFormat =
      some ((before ++ (s ++ behind)).take 4094) := by
  have hread : readConversion (115 :: behind) = some (⟨[], [], none, [], 115⟩, behind) := rfl
  have hargs : (⟨[], [], none, [], 115⟩ : Conversion).arguments = some 1 := by decide
  have hpad : renderArguments [.string s] 0 ⟨[], [], none, [], 115⟩ = s := by
    simp [renderArguments, Conversion.write, Conversion.pad, decimalValue]
  have hlength : (before ++ ascii "%s" ++ behind).length =
      before.length + (behind.length + 1 + 1) := by
    simp [show (ascii "%s").length = 2 from rfl]
    omega
  have hsplit : before ++ ascii "%s" ++ behind = before ++ percent :: 115 :: behind := by
    simp [show ascii "%s" = [percent, 115] from rfl]
  have hfuel := expandFrom_fuel (renderArguments [.string s]) (Nat.le_succ behind.length) 1
  rw [LogCall.syslogFormat, stringCall, vsnprintf, printf, expand, hlength, hsplit,
    expandFrom_append hbefore, expandFrom, if_pos rfl, hread]
  simp only [hargs, zero_add, hfuel, expandFrom_of_notMem _ hbehind, Option.map_some,
    Conversion.output, hpad]
  rfl

/-- A message with one `%s` is logged as it is exactly when no `%` is in the logged part of its
text. -/
theorem literal_iff (hbefore : percent ∉ before) (hbehind : percent ∉ behind) :
    (stringCall before behind s).Literal ↔ percent ∉ s.take (4094 - before.length) := by
  have hiff : percent ∈ (before ++ (s ++ behind)).take 4094 ↔
      percent ∈ s.take (4094 - before.length) := by
    rw [List.take_append, List.take_append, List.mem_append, List.mem_append]
    constructor
    · rintro (h | h | h)
      · exact absurd (List.mem_of_mem_take h) hbefore
      · exact h
      · exact absurd (List.mem_of_mem_take h) hbehind
    · intro h
      exact Or.inr (Or.inl h)
  rw [LogCall.Literal, syslogFormat_stringCall hbefore hbehind]
  constructor
  · rintro ⟨text, htext, hfixed⟩ hmem
    obtain rfl := Option.some.inj htext
    exact (fixedPoint_iff _).mp hfixed (hiff.mpr hmem)
  · intro h
    exact ⟨_, rfl, (fixedPoint_iff _).mpr fun hmem => h (hiff.mp hmem)⟩

theorem literal_client_iff (client : Bytes) :
    (stringCall (ascii "Client address: '") (ascii "'") client).Literal ↔
      percent ∉ client.take 4077 :=
  literal_iff (by decide) (by decide)

theorem literal_reject_iff (reply : Bytes) :
    (stringCall (ascii "Reply: 'action=REJECT Blocked through ") (ascii "'") reply).Literal ↔
      percent ∉ reply.take 4056 :=
  literal_iff (by decide) (by decide)

/-! ### The messages of a worker -/

theorem percent_notMem_printInt (n : Int) : percent ∉ printInt n := by
  intro hmem
  unfold printInt at hmem
  have hdecimal : ∀ m : Nat, percent ∉ decimal m := by
    intro m hm
    exact absurd (decimal_isDigit hm).1 (by decide)
  split_ifs at hmem with hneg
  · rcases List.mem_cons.mp hmem with h | h
    · exact absurd h (by decide)
    · exact hdecimal _ h
  · exact hdecimal _ hmem

/-- A reversed address is made of digits, signs and dots. -/
theorem percent_notMem_reverseQuad (quad : Int × Int × Int × Int) : percent ∉ reverseQuad quad := by
  obtain ⟨o1, o2, o3, o4⟩ := quad
  have hdot : percent ≠ dot := by decide
  simp [reverseQuad, percent_notMem_printInt, hdot]

/-- The text of a rejection is the reply that is sent. -/
theorem replyCall_tallyAll (records : List (Bytes × Int)) :
    replyCall false (tallyAll records) =
      if 100 ≤ toInt32 (totalScore records) then
        stringCall (ascii "Reply: 'action=REJECT Blocked through ") (ascii "'")
          ((ascii ", ").intercalate (hitDomains records))
      else ⟨ascii "Reply: 'action=DUNNO'", []⟩ := by
  rw [← tallyAll_score]
  unfold replyCall
  by_cases hreject : 100 ≤ (tallyAll records).score
  · have hhits : hitDomains records ≠ [] := by
      intro hnil
      have hzero := tallyAll_score_of_hitDomains_eq_nil hnil
      omega
    rw [if_pos ⟨rfl, hreject⟩, if_pos hreject, tallyAll_reply, if_neg hhits]
    rfl
  · rw [if_neg fun h => hreject h.2, if_neg hreject]

theorem literal_dunno : (⟨ascii "Reply: 'action=DUNNO'", []⟩ : LogCall).Literal := by
  refine ⟨ascii "Reply: 'action=DUNNO'", ?_, (fixedPoint_iff _).mpr (by decide)⟩
  rfl

theorem percent_notMem_rdn {r : ClientRequest} {client rdn : Bytes}
    (h : prepareClient r = some (client, rdn)) : percent ∉ rdn := by
  unfold prepareClient at h
  cases hrequest : r.request with
  | none => simp [hrequest] at h
  | some request =>
    cases hparse : parseRequest r.clientMalloc (cstr request) with
    | none => simp [hrequest, hparse] at h
    | some c =>
      simp only [hrequest, hparse] at h
      split_ifs at h with hmalloc
      cases hquad : scanQuad c with
      | none => simp [hquad] at h
      | some quad =>
        simp only [hquad, Option.some.injEq, Prod.mk.injEq] at h
        rw [← h.2]
        exact percent_notMem_reverseQuad quad

/-- The reversed address is always logged as it is, so that only the client matters. -/
theorem clientCalls_literal_iff (r : ClientRequest) :
    (∀ call ∈ clientCalls r, call.Literal) ↔
      ∀ request client, r.request = some request →
        parseRequest r.clientMalloc (cstr request) = some client → percent ∉ client.take 4077 := by
  have hrdn : ∀ client rdn, prepareClient r = some (client, rdn) →
      (stringCall (ascii "Reverse client address: '") (ascii "'") rdn).Literal := by
    intro client rdn h
    apply (literal_iff (by decide) (by decide)).mpr
    intro hmem
    exact percent_notMem_rdn h (List.mem_of_mem_take hmem)
  unfold clientCalls
  cases hrequest : r.request with
  | none => simp
  | some request =>
    cases hparse : parseRequest r.clientMalloc (cstr request) with
    | none =>
      simp only [hparse, List.not_mem_nil, false_imp_iff, implies_true, true_iff]
      intro other client hother hclient
      obtain rfl := Option.some.inj hother
      cases hparse.symm.trans hclient
    | some client =>
      simp only [hparse, List.forall_mem_cons, literal_client_iff]
      constructor
      · rintro ⟨hclient, -⟩ other client' hother hparse'
        obtain rfl := Option.some.inj hother
        obtain rfl := Option.some.inj (hparse.symm.trans hparse')
        exact hclient
      · intro h
        refine ⟨h request client rfl hparse, ?_⟩
        cases hprepared : prepareClient r with
        | none => simp
        | some prepared =>
          intro call hcall
          obtain rfl := List.mem_singleton.mp hcall
          exact hrdn prepared.1 prepared.2 hprepared

/-- **When a worker's messages are never read as formats.** Exactly when no `%` is in the part of
the client, and of the reply of a rejection, that is logged. -/
theorem workerCalls_literal_iff (job : Job) :
    (∀ call ∈ workerCalls job, call.Literal) ↔ PercentFree job := by
  have hreply : (match prepareClient job.request with
        | none => replyCall true Tally.init
        | some _ => replyCall false (tallyAll (finalScores job))).Literal ↔
      (prepareClient job.request ≠ none → 100 ≤ toInt32 (listedWeight job) →
        percent ∉ ((ascii ", ").intercalate (hitDomains (finalScores job))).take 4056) := by
    cases hprepared : prepareClient job.request with
    | none =>
      have hdunno : replyCall true Tally.init = ⟨ascii "Reply: 'action=DUNNO'", []⟩ := rfl
      simp [hdunno, literal_dunno]
    | some prepared =>
      simp only [replyCall_tallyAll, totalScore_finalScores]
      split_ifs with hreject
      · rw [literal_reject_iff]
        simp [hreject]
      · simp [hreject, literal_dunno]
  rw [workerCalls, List.forall_mem_append, clientCalls_literal_iff, List.forall_mem_singleton,
    hreply]
  constructor
  · rintro ⟨hclient, hrejected⟩
    exact ⟨hclient, hrejected⟩
  · intro h
    exact ⟨h.client, h.reply⟩

/-- A request whose client is a conversion. -/
def formatJob : Job where
  request := ⟨some (ascii "client_address=%n\n\n"), true, true⟩
  rblist := []
  answer _ := none

/-- The client gets to `syslog` in the format, where it is expanded again. -/
theorem formatJob_not_literal : ¬ ∀ call ∈ workerCalls formatJob, call.Literal := by
  intro h
  have hparse : parseRequest true (cstr (ascii "client_address=%n\n\n")) = some (ascii "%n") := by
    decide +kernel
  have hclient := (clientCalls_literal_iff formatJob.request).mp fun call hcall =>
    h call (List.mem_append_left _ hcall)
  exact hclient _ _ rfl hparse (by decide)

end Rblpolicyd
