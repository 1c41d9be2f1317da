import Rblpolicyd.Request.Delivered
import Rblpolicyd.Semantics.Ledger
import Rblpolicyd.Session.Lifetime

/-!
# The memory of a request

`read_request` hands its buffer to the worker, which takes blocks for the address, for its
records and for the names in them, and for the reply; every solver takes one for the resolver.
The blocks of a record are given back one by one in the tally, and the others in the cleanup,
where each is freed if there is one. All are given back, and none twice, in every run; the
buffer is lost where it cannot grow, as `realloc` leaves it alone and its address is
overwritten. The allocations whose outcome the source does not look at are taken to succeed.

## Main definitions

* `MemBlock` — the blocks of a request
* `Receiver.changes`, `Session.changes` — what a step takes and gives back
* `Session.holding` — the blocks that are held in a state
* `LosesBuffer` — the last step of `read_request` loses the buffer

## Main results

* `readRequest_owns` — what `read_request` leaves
* `Session.exchanges_step` — every step of a session exchanges what is held
* `memory_freed` — what is left when the worker has returned
-/

namespace Rblpolicyd

open Libc Semantics

/-- What is allocated for a request: the text of the request, the client's address and the
reversed one, the array of records, record `j` and the name in it, the reply, and the buffer
of solver `j`. -/
inductive MemBlock
  | request
  | client
  | rdn
  | resdata
  | record (j : Nat)
  | hostname (j : Nat)
  | reply
  | tmphstbuf (j : Nat)
  deriving DecidableEq

/-- `realloc`, which takes a block and gives the old one back, if there is one. -/
def reallocated (b : MemBlock) (old : Bool) : List (Change MemBlock) :=
  if old then [.release b, .acquire b] else [.acquire b]

theorem exchanges_reallocated {b : MemBlock} {old : Bool} {taken : Set MemBlock}
    (hold : b ∈ taken ↔ old = true) :
    Exchanges taken (reallocated b old) (insert b taken) := by
  cases old with
  | false =>
    have hb : b ∉ taken := by simp [hold]
    exact ⟨hb, rfl⟩
  | true =>
    have hb : b ∈ taken := by simp [hold]
    refine ⟨hb, by simp, ?_⟩
    ext q
    simp

/-! ### The buffer of `read_request` -/

namespace Receiver

variable {r r' : Receiver} {stray : Int → Bytes → Bool} {outcome : SelectOutcome}
  {block : Option Block}

/-- What an iteration takes and gives back. A `realloc` that fails does neither. -/
def changes (r : Receiver) : SelectOutcome → List (Change MemBlock)
  | .error => if r.buf.isSome then [.release .request] else []
  | .timeout => []
  | .ready block _ =>
    if r.bufsize - r.bread < CHUNK ∧ (r.grow block).isSome then
      reallocated .request r.buf.isSome
    else []

/-- The iteration loses the buffer: it cannot grow. -/
def Loses (r : Receiver) : SelectOutcome → Prop
  | .ready block _ => r.buf.isSome = true ∧ r.grow block = none
  | _ => False

/-- The buffer, if there is one. -/
def holding (r : Receiver) : Set MemBlock := {b | b = .request ∧ r.buf.isSome = true}

theorem isSome_giveUp (r : Receiver) : r.giveUp.buf.isSome = r.buf.isSome := by
  unfold giveUp
  split_ifs
  · simp [finish, terminate, access]
  · rfl

theorem isSome_receive (stray : Int → Bytes → Bool) (data : Bytes) (r : Receiver) :
    (r.receive stray data).buf.isSome = r.buf.isSome := by
  unfold receive
  dsimp only
  split_ifs <;> simp [finish, access, readInto, terminate]

/-- The buffer behind an iteration in which it could grow. -/
theorem isSome_step_of_grow {g : Receiver} {read : ReadOutcome} (hgrow : r.grow block = some g)
    (hstep : r.step stray (.ready block read) = some r') : r'.buf.isSome = g.buf.isSome := by
  unfold step at hstep
  split_ifs at hstep
  simp only [hgrow] at hstep
  cases read with
  | error =>
    obtain rfl := Option.some.inj hstep
    exact g.isSome_giveUp
  | endOfFile =>
    obtain rfl := Option.some.inj hstep
    exact g.isSome_giveUp
  | data bytes =>
    obtain ⟨-, hreceive⟩ := Option.ite_none_right_eq_some.mp hstep
    obtain rfl := Option.some.inj hreceive
    exact g.isSome_receive stray bytes

/-- Behind an iteration in which it could not, there is none. -/
theorem step_of_grow_eq_none {read : ReadOutcome} (hgrow : r.grow block = none)
    (hstep : r.step stray (.ready block read) = some r') :
    r'.buf = none ∧ r'.returned = some none := by
  unfold step at hstep
  split_ifs at hstep
  simp only [hgrow] at hstep
  obtain rfl := Option.some.inj hstep
  exact ⟨rfl, rfl⟩

/-- What is returned is the buffer. -/
theorem returned_step (hstep : r.step stray outcome = some r') :
    r'.returned = none ∨ r'.returned = some r'.buf := by
  unfold step at hstep
  split_ifs at hstep with hrunning
  have hnone : r.returned = none := by simpa using hrunning
  have hgiveUp : ∀ g : Receiver, g.giveUp.returned = some g.giveUp.buf := by
    intro g
    unfold giveUp
    split_ifs <;> rfl
  cases outcome with
  | error =>
    obtain rfl := Option.some.inj hstep
    exact .inr rfl
  | timeout =>
    obtain rfl := Option.some.inj hstep
    exact .inr (hgiveUp r)
  | ready block read =>
    dsimp only at hstep
    split at hstep
    · obtain rfl := Option.some.inj hstep
      exact .inr rfl
    · rename_i g hgrow
      have hgrown : g.returned = none := by
        unfold grow at hgrow
        split_ifs at hgrow
        · obtain ⟨b, -, rfl⟩ := Option.map_eq_some_iff.mp hgrow
          exact hnone
        · exact Option.some.inj hgrow ▸ hnone
      split at hstep
      · obtain rfl := Option.some.inj hstep
        exact .inr (hgiveUp g)
      · obtain rfl := Option.some.inj hstep
        exact .inr (hgiveUp g)
      · obtain ⟨-, hreceive⟩ := Option.ite_none_right_eq_some.mp hstep
        obtain rfl := Option.some.inj hreceive
        unfold receive
        dsimp only
        split_ifs
        · exact .inr rfl
        · exact .inr rfl
        · exact .inl hgrown

theorem returned_run {outcomes : List SelectOutcome}
    (hrun : Run (step stray) (fun _ _ => True) initial outcomes r) :
    r.returned = none ∨ r.returned = some r.buf :=
  hrun.invariant (.inl rfl) fun _ _ _ _ _ hstep => returned_step hstep

/-- An iteration exchanges the buffer, unless it loses it. -/
theorem exchanges_step (hkeeps : ¬ r.Loses outcome) (hstep : r.step stray outcome = some r') :
    Exchanges r.holding (r.changes outcome) r'.holding := by
  have hrunning : r.returned.isSome = false := by
    unfold step at hstep
    split_ifs at hstep with hreturned
    simpa using hreturned
  cases outcome with
  | error =>
    unfold step at hstep
    rw [if_neg (by simp [hrunning])] at hstep
    obtain rfl := Option.some.inj hstep
    unfold changes
    split_ifs with hbuf
    · refine ⟨⟨rfl, hbuf⟩, ?_⟩
      ext b
      simp +contextual [holding, finish]
    · ext b
      simp [holding, finish, hbuf]
  | timeout =>
    unfold step at hstep
    rw [if_neg (by simp [hrunning])] at hstep
    obtain rfl := Option.some.inj hstep
    ext b
    simp [holding, isSome_giveUp]
  | ready block read =>
    cases hgrow : r.grow block with
    | none =>
      -- there was no buffer to lose
      have hbuf : r.buf.isSome = false := by
        by_contra hbuf
        exact hkeeps ⟨Bool.eq_true_of_not_eq_false hbuf, hgrow⟩
      have hnone := (step_of_grow_eq_none hgrow hstep).1
      simp only [changes, hgrow, Option.isSome_none, Bool.false_eq_true, and_false, if_false]
      ext b
      simp [holding, hbuf, hnone]
    | some g =>
      have hafter := isSome_step_of_grow hgrow hstep
      simp only [changes, hgrow, Option.isSome_some, and_true]
      unfold grow at hgrow
      split_ifs at hgrow ⊢
      · obtain ⟨b, -, rfl⟩ := Option.map_eq_some_iff.mp hgrow
        have hset : r'.holding = insert .request r.holding := by
          ext q
          simp only [holding, hafter, Option.isSome_some, and_true, Set.mem_insert_iff,
            Set.mem_ofPred_eq]
          exact ⟨.inl, fun h => h.elim id And.left⟩
        rw [hset]
        exact exchanges_reallocated (by simp [holding])
      · obtain rfl := Option.some.inj hgrow
        ext q
        simp [holding, hafter]

end Receiver

/-- `read_request` ends with the loss of its buffer. -/
def LosesBuffer (stray : Int → Bytes → Bool) (outcomes : List SelectOutcome) : Prop :=
  ∃ earlier outcome r, outcomes = earlier ++ [outcome] ∧
    Run (Receiver.step stray) (fun _ _ => True) .initial earlier r ∧ r.Loses outcome

theorem not_losesBuffer_nil (stray : Int → Bytes → Bool) : ¬ LosesBuffer stray [] := by
  rintro ⟨earlier, outcome, r, houtcomes, -⟩
  simp at houtcomes

theorem losesBuffer_concat_iff {stray : Int → Bytes → Bool} {outcomes : List SelectOutcome}
    {r : Receiver} (hrun : Run (Receiver.step stray) (fun _ _ => True) .initial outcomes r)
    (outcome : SelectOutcome) : LosesBuffer stray (outcomes ++ [outcome]) ↔ r.Loses outcome := by
  constructor
  · rintro ⟨earlier, last, r', houtcomes, hearlier, hloses⟩
    obtain ⟨rfl, hlast⟩ := List.append_inj' houtcomes rfl
    obtain rfl := List.singleton_inj.mp hlast
    exact hrun.unique hearlier ▸ hloses
  · intro hloses
    exact ⟨outcomes, outcome, r, rfl, hrun, hloses⟩

/-- What `read_request` leaves: the buffer that it returns, or the one it has lost. -/
theorem readRequest_owns {stray : Int → Bytes → Bool} {outcomes : List SelectOutcome}
    {s : WithLedger Receiver MemBlock}
    (hrun : Run (WithLedger.step (Receiver.step stray) Receiver.changes) (fun _ _ => True)
      ⟨.initial, {}⟩ outcomes s) :
    s.ledger.Owns
        {b | b = .request ∧ (s.state.buf.isSome = true ∨ LosesBuffer stray outcomes)} ∧
      (LosesBuffer stray outcomes → s.state.returned = some none) := by
  induction hrun with
  | nil =>
    have hset : {b : MemBlock | b = .request ∧
        (Receiver.initial.buf.isSome = true ∨ LosesBuffer stray [])} = ∅ := by
      ext b
      simp [Receiver.initial, not_losesBuffer_nil]
    refine ⟨?_, fun h => absurd h (not_losesBuffer_nil stray)⟩
    rw [hset]
    exact .empty
  | @snoc w s t outcome hrun _ hstep ih =>
    obtain ⟨howns, hlost⟩ := ih
    obtain ⟨hnext, hledger⟩ := WithLedger.step_cases hstep
    rw [losesBuffer_concat_iff (WithLedger.run_state hrun)]
    have hrunning : ¬ LosesBuffer stray w := by
      intro hloses
      unfold Receiver.step at hnext
      simp [hlost hloses] at hnext
    have hheld : s.ledger.Owns s.state.holding := by
      simpa [hrunning, Receiver.holding] using howns
    rw [hledger]
    by_cases hloses : s.state.Loses outcome
    · cases outcome with
      | ready block read =>
        have hnone := Receiver.step_of_grow_eq_none hloses.2 hnext
        have hchanges : s.state.changes (.ready block read) = [] := by
          simp [Receiver.changes, hloses.2]
        refine ⟨?_, fun _ => hnone.2⟩
        rw [hchanges]
        have hset : s.state.holding = {b | b = .request ∧
            (t.state.buf.isSome = true ∨ s.state.Loses (.ready block read))} := by
          ext b
          simp only [Receiver.holding, hloses.1, hloses, or_true]
        exact hset ▸ hheld
      | _ => exact hloses.elim
    · refine ⟨?_, fun h => absurd h hloses⟩
      have hset : t.state.holding = {b | b = .request ∧
          (t.state.buf.isSome = true ∨ s.state.Loses outcome)} := by
        ext b
        simp [Receiver.holding, hloses]
      exact hset ▸ hheld.changes (Receiver.exchanges_step hloses hnext)

/-! ### The blocks of the threads -/

/-- The address and the room for the reversed one, as far as `worker_th` gets them. -/
def ClientRequest.strings (r : ClientRequest) : List MemBlock :=
  match r.request with
  | none => []
  | some request =>
    match parseRequest r.clientMalloc (cstr request) with
    | none => []
    | some _ => if r.rdnMalloc then [.client, .rdn] else [.client]

/-- The solver has a buffer for the resolver. A cancelled one that ends in its lookup keeps
it. -/
def Solver.buffering (solver : Solver) : Bool :=
  match solver.pc with
  | .lookup => solver.killed
  | .store => true
  | _ => false

def Dispatch.buffering (d : Dispatch) : Bool := d.solver.any Solver.buffering

namespace Session

/-- The four pointers that the cleanup looks at, as far as they are not null. -/
def pointers (job : Job) (s : Session) : List MemBlock :=
  (if job.request.request.isSome then [.request] else []) ++ job.request.strings ++
    if s.tally.reply.isSome then [.reply] else []

/-- What the worker's next step takes and gives back. -/
def workerChanges (job : Job) (s : Session) : List (Change MemBlock) :=
  match s.pc with
  | .start => job.request.strings.map .acquire
  | .record =>
    reallocated .resdata (s.dispatched ≠ []) ++
      [.acquire (.record s.resdataCnt), .acquire (.hostname s.resdataCnt)]
  | .tallyUpdate =>
    match s.dispatched[s.i]? with
    | some d => if d.resdata.score ≠ 0 then reallocated .reply s.tally.reply.isSome else []
    | none => []
  | .freeHostname => [.release (.hostname s.i)]
  | .freeResdata => [.release (.record s.i)]
  -- `free(resdata)` behind the loop, which may be null
  | .tallyTest => if s.i < s.resdataCnt ∨ s.dispatched = [] then [] else [.release .resdata]
  | .cleanup => (s.pointers job).map .release
  | _ => []

/-- What the next step of solver `j` takes and gives back. -/
def solverChanges (s : Session) (j : Nat) : List (Change MemBlock) :=
  match (s.dispatched[j]?.bind Dispatch.solver).map Solver.pc with
  | some .lookup => [.acquire (.tmphstbuf j)]
  | some .store => [.release (.tmphstbuf j)]
  | _ => []

/-- What a step takes and gives back. A solver that is ended in its lookup has taken its
buffer. -/
def changes (job : Job) (s : Session) : Action → List (Change MemBlock)
  | .worker _ => s.workerChanges job
  | .wake => []
  | .solver j _ => s.solverChanges j
  | .kill j =>
    if (s.dispatched[j]?.bind Dispatch.solver).map Solver.pc = some .lookup then
      [.acquire (.tmphstbuf j)]
    else []

/-- The records that the tally has freed. -/
def recordsFreed (s : Session) : Nat :=
  match s.pc.phase with
  | .tallying => s.i
  | .replying => s.dispatched.length
  | _ => 0

/-- The names that it has freed, one more between the two frees of a record. -/
def hostnamesFreed (s : Session) : Nat :=
  if s.pc = .freeResdata then s.i + 1 else s.recordsFreed

/-- Solver `j` has a buffer. -/
def buffering (s : Session) (j : Nat) : Bool := s.dispatched[j]?.any Dispatch.buffering

/-- The block is held; `buffered` says whether `read_request` has left one. -/
def Holding (job : Job) (buffered : Prop) (s : Session) : MemBlock → Prop
  | .request => buffered ∧ ¬ (s.pc.cleaned = true ∧ job.request.request.isSome = true)
  | .client => s.pc ≠ .start ∧ s.pc.cleaned = false ∧ .client ∈ job.request.strings
  | .rdn => s.pc ≠ .start ∧ s.pc.cleaned = false ∧ .rdn ∈ job.request.strings
  | .resdata => s.dispatched ≠ [] ∧ s.pc.phase ≠ .replying
  | .record j => s.recordsFreed ≤ j ∧ j < s.dispatched.length
  | .hostname j => s.hostnamesFreed ≤ j ∧ j < s.dispatched.length
  | .reply => s.tally.reply.isSome = true ∧ s.pc.cleaned = false
  | .tmphstbuf j => s.buffering j = true

/-- The blocks that are held in a state. -/
def holding (job : Job) (buffered : Prop) (s : Session) : Set MemBlock :=
  {b | s.Holding job buffered b}

variable {job : Job} {buffered : Prop} {s s' : Session} {ok : Bool} {j : Nat} {d d' : Dispatch}
  {solver : Solver}

theorem buffering_put (hd : s.dispatched[j]? = some d) (k : Nat) :
    (s.put j d').buffering k = if j = k then d'.buffering else s.buffering k := by
  rw [buffering, getElem?_put hd]
  split_ifs <;> rfl

theorem buffering_of_getElem? (hd : s.dispatched[j]? = some d) :
    s.buffering j = d.buffering := by
  rw [buffering, hd]
  rfl

/-- A record whose solver has the buffer, or none, as before. -/
theorem buffering_put_of_eq (hd : s.dispatched[j]? = some d) (heq : d'.buffering = d.buffering)
    (k : Nat) : (s.put j d').buffering k = s.buffering k := by
  rw [buffering_put hd]
  split_ifs with hjk
  · rw [heq, ← hjk, buffering_of_getElem? hd]
  · rfl

/-- A step of the creation leaves no buffer, as the record had no solver. -/
theorem buffering_createEffect {pc : CreatePc} (hfresh : pc.uncreated = true → d.solver = none) :
    Dispatch.buffering { d with solver := createEffect pc ok d.solver } = d.buffering := by
  unfold Dispatch.buffering createEffect
  cases pc with
  | create =>
    rw [hfresh rfl]
    cases ok <;> rfl
  | cancel => cases d.solver <;> rfl
  | _ => rfl

/-- A step that changes neither the records nor the reply, and stays in its part. -/
theorem holding_frame {t : Session} (hstart : s.pc = .start ↔ t.pc = .start)
    (hcleaned : t.pc.cleaned = s.pc.cleaned)
    (hphase : s.pc.phase = .replying ↔ t.pc.phase = .replying)
    (hlength : t.dispatched.length = s.dispatched.length)
    (hrecords : t.recordsFreed = s.recordsFreed) (hhostnames : t.hostnamesFreed = s.hostnamesFreed)
    (hreply : t.tally.reply.isSome = s.tally.reply.isSome)
    (hbuffering : ∀ k, t.buffering k = s.buffering k) :
    s.holding job buffered = t.holding job buffered := by
  have hnil : t.dispatched = [] ↔ s.dispatched = [] := by
    rw [← List.length_eq_zero_iff, hlength, List.length_eq_zero_iff]
  ext b
  cases b <;>
    simp only [holding, Holding, Set.mem_ofPred_eq, ne_eq, hstart, hcleaned, hphase, hlength,
      hrecords, hhostnames, hreply, hbuffering, hnil]

theorem nodup_strings (r : ClientRequest) : r.strings.Nodup := by
  unfold ClientRequest.strings
  split
  · exact List.nodup_nil
  · split
    · exact List.nodup_nil
    · split_ifs <;> decide

theorem mem_strings {r : ClientRequest} {b : MemBlock} (h : b ∈ r.strings) :
    b = .client ∨ b = .rdn := by
  unfold ClientRequest.strings at h
  split at h
  · cases h
  · split at h
    · cases h
    · split_ifs at h
      · simpa using h
      · exact .inl (List.mem_singleton.mp h)

theorem mem_pointers_iff {b : MemBlock} :
    b ∈ s.pointers job ↔ b = .request ∧ job.request.request.isSome = true ∨
      b ∈ job.request.strings ∨ b = .reply ∧ s.tally.reply.isSome = true := by
  unfold pointers
  split_ifs <;> simp [*]

theorem nodup_pointers (job : Job) (s : Session) : (s.pointers job).Nodup := by
  have hstrings := nodup_strings job.request
  have hrequest : MemBlock.request ∉ job.request.strings := fun h => by simpa using mem_strings h
  have hreply : MemBlock.reply ∉ job.request.strings := fun h => by simpa using mem_strings h
  unfold pointers
  split_ifs <;> simp [List.nodup_append, hstrings, hrequest]
  · exact fun b hb heq => hreply (heq ▸ hb)
  · exact fun b hb heq => hreply (heq ▸ hb)

/-! ### The steps of the worker -/

/-- The worker takes the strings, and has no others before. -/
theorem exchanges_strings {t : Session} (hpc : s.pc = .start) (hstart : t.pc ≠ .start)
    (hcleaned : t.pc.cleaned = false) (hdispatched : s.dispatched = [])
    (hsame : t.dispatched = s.dispatched) (htally : t.tally = s.tally) :
    Exchanges (s.holding job buffered) (s.workerChanges job) (t.holding job buffered) := by
  have hout : ∀ b ∈ job.request.strings, b ∉ s.holding job buffered := by
    intro b hb
    rcases mem_strings hb with rfl | rfl
    · exact fun h => h.1 hpc
    · exact fun h => h.1 hpc
  have hset : s.holding job buffered ∪ {b | b ∈ job.request.strings} = t.holding job buffered := by
    ext b
    have hstrings := @mem_strings job.request b
    cases b <;> simp_all [holding, Holding, buffering, WorkerPc.cleaned]
  simp only [workerChanges, hpc]
  exact hset ▸ Exchanges.acquireAll (nodup_strings _) hout

/-- The loop over the records is over, and frees their array. -/
theorem exchanges_reply (hrec : Records job s.pc.phase s) (hpc : s.pc = .tallyTest)
    (hi : ¬ s.i < s.resdataCnt) : Exchanges (s.holding job buffered) (s.workerChanges job)
      (holding job buffered { s with pc := .reply }) := by
  have hlength := hrec.length
  rw [if_neg (by simp [hpc]), add_zero] at hlength
  by_cases hnil : s.dispatched = []
  · simp only [workerChanges, hpc, hnil, or_true, if_true]
    ext b
    cases b <;> simp [holding, Holding, recordsFreed, hostnamesFreed, buffering, hpc, hnil,
      WorkerPc.cleaned]
  · simp only [workerChanges, hpc, hnil, hi, or_self, if_false]
    refine ⟨⟨hnil, by simp [hpc]⟩, ?_⟩
    ext b
    cases b <;> simp [holding, Holding, recordsFreed, hostnamesFreed, buffering, hpc,
      WorkerPc.cleaned]
    -- all records, and the names in them, have been freed
    · omega
    · omega

/-- The cleanup frees what the worker has still pointers to. -/
theorem exchanges_cleanup (hpc : s.pc = .cleanup)
    (hbuffered : job.request.request.isSome = true → buffered) :
    Exchanges (s.holding job buffered) (s.workerChanges job)
      (holding job buffered { s with pc := .stats .test }) := by
  have hset : s.holding job buffered \ {b | b ∈ s.pointers job} =
      holding job buffered { s with pc := .stats .test } := by
    ext b
    have hstrings := @mem_strings job.request b
    simp only [Set.mem_sdiff, Set.mem_ofPred_eq, mem_pointers_iff]
    cases b <;> cases hreply : s.tally.reply <;>
      simp_all [holding, Holding, recordsFreed, hostnamesFreed, buffering, WorkerPc.cleaned]
  have hin : ∀ b ∈ s.pointers job, b ∈ s.holding job buffered := by
    intro b hb
    rcases mem_pointers_iff.mp hb with ⟨rfl, hrequest⟩ | hstring | ⟨rfl, hreply⟩
    · exact ⟨hbuffered hrequest, by simp [hpc, WorkerPc.cleaned]⟩
    · rcases mem_strings hstring with rfl | rfl
      · exact ⟨by simp [hpc], by simp [hpc, WorkerPc.cleaned], hstring⟩
      · exact ⟨by simp [hpc], by simp [hpc, WorkerPc.cleaned], hstring⟩
    · exact ⟨hreply, by simp [hpc, WorkerPc.cleaned]⟩
  simp only [workerChanges, hpc]
  exact hset ▸ Exchanges.releaseAll (nodup_pointers job s) hin

theorem Moves.exchanges {pc : WorkerPc} (h : s.Moves pc) (hrec : Records job s.pc.phase s)
    (hbuffered : job.request.request.isSome = true → buffered) :
    Exchanges (s.holding job buffered) (s.workerChanges job)
      (holding job buffered { s with pc := pc }) := by
  cases h with
  | reply hpc hi => exact exchanges_reply hrec hpc hi
  | statsTest hpc => exact exchanges_cleanup hpc hbuffered
  | _ =>
    simp only [workerChanges, *]
    apply holding_frame <;> simp [recordsFreed, hostnamesFreed, buffering, WorkerPc.cleaned, *]

theorem isSome_tallyItem (t : Tally) (rbldomain : Bytes) {score : Int} (hscore : score ≠ 0) :
    (tallyItem t rbldomain score).reply.isSome = true := by
  unfold tallyItem
  rw [if_pos hscore]
  split <;> rfl

/-- A record, and the name in it, for the blacklist that is next. -/
theorem exchanges_record {t : Session} {rbl : Cfgitem} (hrec : Records job s.pc.phase s)
    (hpc : s.pc = .record) (hdispatched : t.dispatched = s.dispatched ++ [s.newDispatch rbl])
    (hnext : t.pc = .create .initLock) (htally : t.tally = s.tally) :
    Exchanges (s.holding job buffered) (s.workerChanges job) (t.holding job buffered) := by
  have hlength := hrec.length
  rw [if_neg (by simp [hpc]), add_zero] at hlength
  have hbuffering : ∀ k, t.buffering k = s.buffering k := by
    intro k
    rw [buffering, buffering, hdispatched]
    rcases lt_trichotomy k s.dispatched.length with hk | rfl | hk
    · rw [List.getElem?_append_left hk]
    · rw [List.getElem?_concat_length, List.getElem?_eq_none le_rfl]
      rfl
    · rw [List.getElem?_eq_none hk.le, List.getElem?_eq_none (by simpa using hk)]
  have harray : MemBlock.resdata ∈ s.holding job buffered ↔
      decide (s.dispatched ≠ []) = true := by
    simp [holding, Holding, hpc]
  simp only [workerChanges, hpc]
  refine (exchanges_reallocated harray).append ⟨?_, ?_, ?_⟩
  · simp [holding, Holding, hlength]
  · simp [holding, Holding, hlength]
  · ext b
    cases b <;> simp [holding, Holding, recordsFreed, hostnamesFreed, hpc, hnext, hdispatched,
      htally, hbuffering, WorkerPc.cleaned]
    · omega
    · omega

/-- A hit takes the reply, or lets it grow. -/
theorem exchanges_tally (hpc : s.pc = .tallyUpdate) (hd : s.dispatched[s.i]? = some d) :
    Exchanges (s.holding job buffered) (s.workerChanges job)
      (holding job buffered { s with
        tally := tallyItem s.tally d.resdata.rblitem.rbldomain d.resdata.score
        pc := .tallyUnlock }) := by
  simp only [workerChanges, hpc, hd]
  split_ifs with hscore
  · have hreply : MemBlock.reply ∈ s.holding job buffered ↔ s.tally.reply.isSome = true := by
      simp [holding, Holding, hpc, WorkerPc.cleaned]
    have htally := isSome_tallyItem s.tally d.resdata.rblitem.rbldomain hscore
    have hset : insert .reply (s.holding job buffered) = holding job buffered
        { s with
          tally := tallyItem s.tally d.resdata.rblitem.rbldomain d.resdata.score
          pc := .tallyUnlock } := by
      ext b
      cases b <;> simp [holding, Holding, recordsFreed, hostnamesFreed, buffering, hpc, htally,
        WorkerPc.cleaned]
    exact hset ▸ exchanges_reallocated hreply
  · rw [not_not] at hscore
    apply holding_frame <;>
      simp [recordsFreed, hostnamesFreed, buffering, hpc, hscore, tallyItem, WorkerPc.cleaned]

/-- The name in a record is freed in front of the record. -/
theorem exchanges_freeHostname (hpc : s.pc = .freeHostname) (hd : s.dispatched[s.i]? = some d) :
    Exchanges (s.holding job buffered) (s.workerChanges job)
      (holding job buffered
        { s.put s.i { d with resdata := { d.resdata with hostnameFreed := true } } with
          pc := .freeResdata }) := by
  have hlt := (List.getElem?_eq_some_iff.mp hd).1
  have hbuffering : ∀ k, (s.put s.i { d with
      resdata := { d.resdata with hostnameFreed := true } }).buffering k = s.buffering k :=
    buffering_put_of_eq hd rfl
  simp only [workerChanges, hpc]
  refine ⟨by simp [holding, Holding, hostnamesFreed, recordsFreed, hpc, hlt], ?_⟩
  ext b
  cases b with
  | tmphstbuf k =>
    have hother : MemBlock.tmphstbuf k ≠ .hostname s.i := by simp
    exact ⟨fun h => (hbuffering k).trans h.1, fun h => ⟨(hbuffering k).symm.trans h, hother⟩⟩
  | hostname k =>
    simp [holding, Holding, recordsFreed, hostnamesFreed, put, hpc]
    omega
  | _ => simp [holding, Holding, recordsFreed, put, hpc, WorkerPc.cleaned]

theorem exchanges_freeResdata (hpc : s.pc = .freeResdata) (hd : s.dispatched[s.i]? = some d) :
    Exchanges (s.holding job buffered) (s.workerChanges job)
      (holding job buffered
        { s.put s.i { d with resdata := { d.resdata with freed := true } } with
          i := s.i + 1, pc := .tallyTest }) := by
  have hlt := (List.getElem?_eq_some_iff.mp hd).1
  have hbuffering : ∀ k, (s.put s.i { d with
      resdata := { d.resdata with freed := true } }).buffering k = s.buffering k :=
    buffering_put_of_eq hd rfl
  simp only [workerChanges, hpc]
  refine ⟨by simp [holding, Holding, recordsFreed, hpc, hlt], ?_⟩
  ext b
  cases b with
  | tmphstbuf k =>
    have hother : MemBlock.tmphstbuf k ≠ .record s.i := by simp
    exact ⟨fun h => (hbuffering k).trans h.1, fun h => ⟨(hbuffering k).symm.trans h, hother⟩⟩
  | record k =>
    simp [holding, Holding, recordsFreed, put, hpc]
    omega
  | _ => simp [holding, Holding, recordsFreed, hostnamesFreed, put, hpc, WorkerPc.cleaned]

/-- A step of `rthread_create`, whose thread has no buffer yet. -/
theorem exchanges_create {pc : CreatePc} (hfresh : s.Fresh) (hpc : s.pc = .create pc)
    (hd : s.dispatched[s.resdataCnt]? = some d) :
    Exchanges (s.holding job buffered) (s.workerChanges job)
      (holding job buffered
        { s.put s.resdataCnt { d with solver := createEffect pc ok d.solver } with
          pc := createNext pc ok }) := by
  have hsame : Dispatch.buffering { d with solver := createEffect pc ok d.solver } =
      d.buffering := buffering_createEffect fun huncreated => hfresh pc hpc huncreated d hd
  have hbuffering := buffering_put_of_eq hd hsame
  simp only [workerChanges, hpc]
  unfold createNext
  cases pc.next ok <;>
    refine holding_frame ?_ ?_ ?_ ?_ ?_ ?_ ?_ hbuffering <;>
      simp [recordsFreed, hostnamesFreed, put, WorkerPc.cleaned, hpc]

/-- Every step of the worker exchanges what is held. -/
theorem WorkerStep.exchanges (h : WorkerStep job s ok s') (hrec : Records job s.pc.phase s)
    (hfresh : s.Fresh) (hbuffered : job.request.request.isSome = true → buffered) :
    Exchanges (s.holding job buffered) (s.workerChanges job) (s'.holding job buffered) := by
  cases h with
  | move hmove => exact hmove.exchanges hrec hbuffered
  | reject hpc _ =>
    exact exchanges_strings hpc (by simp) rfl (hrec.idle (by simp [hpc])).2 rfl rfl
  | prepare hpc _ =>
    exact exchanges_strings hpc (by simp) rfl (hrec.idle (by simp [hpc])).2 rfl rfl
  | record hpc _ => exact exchanges_record hrec hpc rfl rfl rfl
  | create hpc hd => exact exchanges_create hfresh hpc hd
  | tally hpc hd => exact exchanges_tally hpc hd
  | freeHostname hpc hd => exact exchanges_freeHostname hpc hd
  | freeResdata hpc hd => exact exchanges_freeResdata hpc hd
  | acquireJoin hpc _ =>
    rcases hpc with hpc | hpc
    all_goals
      simp only [workerChanges, hpc]
      apply holding_frame <;>
        simp [recordsFreed, hostnamesFreed, buffering, WorkerPc.cleaned, hpc]
  | acquireDispatch hpc _ | unlockDispatch hpc | sleep hpc _ | join hpc _ | reply hpc =>
    simp only [workerChanges, hpc]
    apply holding_frame <;> simp [recordsFreed, hostnamesFreed, buffering, WorkerPc.cleaned, hpc]

/-! ### The steps of a solver -/

/-- Another state of a solver changes whether it has a buffer, and no other block. -/
theorem mem_holding_put (hd : s.dispatched[j]? = some d) (b : MemBlock) :
    b ∈ (s.put j d').holding job buffered ↔
      if b = .tmphstbuf j then d'.buffering = true else b ∈ s.holding job buffered := by
  cases b with
  | tmphstbuf k =>
    have hput : (s.put j d').buffering k = _ := buffering_put hd k
    simp only [holding, Holding, Set.mem_ofPred_eq, hput, MemBlock.tmphstbuf.injEq, eq_comm]
    split_ifs <;> rfl
  | _ => simp [holding, Holding, put, recordsFreed, hostnamesFreed]

theorem exchanges_put_of_eq (hd : s.dispatched[j]? = some d) (heq : d'.buffering = d.buffering) :
    Exchanges (s.holding job buffered) [] ((s.put j d').holding job buffered) := by
  ext b
  rw [mem_holding_put hd]
  split_ifs with hb
  · subst hb
    rw [heq, ← buffering_of_getElem? hd]
    rfl
  · rfl

/-- The solver takes its buffer. -/
theorem exchanges_acquire (hd : s.dispatched[j]? = some d) (hbefore : d.buffering = false)
    (hafter : d'.buffering = true) :
    Exchanges (s.holding job buffered) [.acquire (.tmphstbuf j)]
      ((s.put j d').holding job buffered) := by
  refine ⟨?_, ?_⟩
  · show ¬ s.buffering j = true
    rw [buffering_of_getElem? hd, hbefore]
    nofun
  · ext b
    rw [mem_holding_put hd, Set.mem_insert_iff]
    split_ifs with hb
    · simp [hb, hafter]
    · simp [hb]

/-- The solver gives its buffer back. -/
theorem exchanges_release (hd : s.dispatched[j]? = some d) (hbefore : d.buffering = true)
    (hafter : d'.buffering = false) :
    Exchanges (s.holding job buffered) [.release (.tmphstbuf j)]
      ((s.put j d').holding job buffered) := by
  refine ⟨?_, ?_⟩
  · show s.buffering j = true
    rw [buffering_of_getElem? hd, hbefore]
  · ext b
    rw [mem_holding_put hd, Set.mem_sdiff, Set.mem_singleton_iff]
    split_ifs with hb
    · simp [hb, hafter]
    · simp [hb]

theorem solverPc_of_getElem? (hd : s.dispatched[j]? = some d) (hsolver : d.solver = some solver) :
    (s.dispatched[j]?.bind Dispatch.solver).map Solver.pc = some solver.pc := by
  rw [hd, Option.bind_some, hsolver, Option.map_some]

theorem buffering_eq (hsolver : d.solver = some solver) : d.buffering = solver.buffering := by
  rw [Dispatch.buffering, hsolver, Option.any_some]

/-- A worker that is woken up holds what it held. -/
theorem holding_wake (s : Session) : s.holding job buffered =
    holding job buffered { s with pc := if s.pc = .asleep then .relock else s.pc } := by
  split_ifs with hpc
  · apply holding_frame <;> simp [recordsFreed, hostnamesFreed, buffering, WorkerPc.cleaned, hpc]
  · rfl

theorem SolverStep.exchanges (h : SolverStep job s j d solver s')
    (hd : s.dispatched[j]? = some d) (hsolver : d.solver = some solver)
    (hkilled : solver.killed = false) :
    Exchanges (s.holding job buffered) (s.solverChanges j) (s'.holding job buffered) := by
  have hpc' := solverPc_of_getElem? hd hsolver
  have hbuffering := buffering_eq hsolver
  unfold solverChanges
  rw [hpc']
  unfold Solver.buffering at hbuffering
  have hkeep : ∀ e : Dispatch, e.buffering = d.buffering →
      Exchanges (s.holding job buffered) [] ((s.put j e).holding job buffered) :=
    fun e heq => exchanges_put_of_eq hd heq
  cases h with
  | @move pc hmove =>
    generalize solver.pc = before at hmove hbuffering
    cases hmove with
    | lookup => exact exchanges_acquire hd (hbuffering.trans hkilled) rfl
    | _ => exact hkeep _ hbuffering.symm
  | store hpc =>
    rw [hpc] at hbuffering ⊢
    exact exchanges_release hd hbuffering rfl
  | acquire hpc _ =>
    rw [hpc] at hbuffering ⊢
    exact hkeep (d.moveTo solver .decrement) hbuffering.symm
  | decrement hpc =>
    rw [hpc] at hbuffering ⊢
    exact hkeep (d.moveTo solver .broadcast) hbuffering.symm
  | release hpc =>
    rw [hpc] at hbuffering ⊢
    exact hkeep (d.moveTo solver (.stats .test)) hbuffering.symm
  | broadcast hpc =>
    rw [hpc] at hbuffering ⊢
    have hput := hkeep (d.moveTo solver .unlock) hbuffering.symm
    exact hput.trans (holding_wake _)

theorem exchanges_kill (hd : s.dispatched[j]? = some d) (hsolver : d.solver = some solver)
    (hkilled : solver.killed = false) :
    Exchanges (s.holding job buffered)
      (if (s.dispatched[j]?.bind Dispatch.solver).map Solver.pc = some .lookup then
        [.acquire (.tmphstbuf j)] else [])
      ((s.put j { d with solver := some { solver with killed := true } }).holding job
        buffered) := by
  have hbuffering := buffering_eq hsolver
  rw [solverPc_of_getElem? hd hsolver]
  unfold Solver.buffering at hbuffering
  split_ifs with hpc
  · have hlookup := Option.some.inj hpc
    rw [hlookup] at hbuffering
    exact exchanges_acquire hd (hbuffering.trans hkilled)
      (by simp [Dispatch.buffering, Solver.buffering, hlookup])
  · refine exchanges_put_of_eq hd ?_
    rw [hbuffering]
    unfold Dispatch.buffering Solver.buffering
    cases hcase : solver.pc with
    | lookup => exact absurd (congrArg some hcase) hpc
    | _ => rfl

/-! ### Whole runs -/

theorem exchanges_step {a : Action} (hinv : Inv job s)
    (hbuffered : job.request.request.isSome = true → buffered)
    (hstep : s.step job a = some s') :
    Exchanges (s.holding job buffered) (s.changes job a) (s'.holding job buffered) := by
  cases a with
  | worker ok => exact (workerStep_cases hstep).exchanges hinv.records hinv.fresh hbuffered
  | wake =>
    obtain ⟨hpc, rfl⟩ := wakeStep_cases hstep
    have hwake : s.holding job buffered = _ := holding_wake s
    rw [if_pos hpc] at hwake
    exact hwake
  | solver j ok =>
    obtain ⟨d, solver, hd, hsolver, hkilled, hcases⟩ := solverStep_cases hstep
    exact hcases.exchanges hd hsolver hkilled
  | kill j =>
    obtain ⟨d, solver, hd, hsolver, -, hkilled, -, rfl⟩ := killStep_cases hstep
    exact exchanges_kill hd hsolver hkilled

theorem holding_init (job : Job) (buffered : Prop) :
    init.holding job buffered = {b | b = .request ∧ buffered} := by
  ext b
  cases b <;> simp [holding, Holding, init, buffering, Tally.init, WorkerPc.cleaned]

/-- When the worker has returned, no solver has a buffer. -/
theorem Inv.buffering_of_returned (hinv : Inv job s) (hpc : s.pc = .returned) (j : Nat) :
    s.buffering j = false := by
  cases herr : s.err with
  | true =>
    rw [buffering, (hinv.records.rejected herr).2]
    rfl
  | false =>
    have hzero := (hinv.tallied.replying (by simp [hpc]) herr).1
    cases hd : s.dispatched[j]? with
    | none =>
      rw [buffering, hd]
      rfl
    | some d =>
      have hdone := hinv.records.not_pending hzero hd
      rw [buffering_of_getElem? hd]
      unfold Dispatch.pending at hdone
      unfold Dispatch.buffering
      cases hsolver : d.solver with
      | none => rfl
      | some solver =>
        rw [hsolver, Option.all_some] at hdone
        rw [Option.any_some, Solver.buffering]
        cases hpc : solver.pc <;> simp_all [SolverPc.pending]

/-- When the worker has returned, nothing is left but what it has no pointer to. -/
theorem Inv.holding_returned (hinv : Inv job s) (hpc : s.pc = .returned) :
    s.holding job buffered =
      {b | b = .request ∧ buffered ∧ job.request.request.isSome = false} := by
  ext b
  cases b with
  | tmphstbuf j =>
    have hbuffering := hinv.buffering_of_returned hpc j
    simp [holding, Holding, hbuffering]
  | _ => simp [holding, Holding, recordsFreed, hostnamesFreed, hpc, WorkerPc.cleaned]

/-- What a session holds in every state it reaches, from what `read_request` has left on. -/
theorem holding_run {buffer : Ledger MemBlock} {w : List Action} {t : WithLedger Session MemBlock}
    (hbuffered : job.request.request.isSome = true → buffered)
    (hbuffer : buffer.Owns {b | b = .request ∧ buffered})
    (hrun : Run (WithLedger.step (step job) (changes job)) (fun _ _ => True) ⟨init, buffer⟩ w t) :
    t.ledger.Owns (t.state.holding job buffered) := by
  rw [← holding_init job buffered] at hbuffer
  exact WithLedger.owns_run hrun (inv_init : Inv job init)
    (fun _ _ _ hinv hstep => ⟨hinv.step hstep, exchanges_step hinv hbuffered hstep⟩) hbuffer

end Session

/-- The memory of a request, whatever its calls, its threads and the cancellation of solvers do:
no block is given back that is not held, and when the worker has returned none is left, of its
own or of a solver, but the buffer that `read_request` has lost where it could not grow. -/
theorem memory_freed {stray : Int → Bytes → Bool} {outcomes : List SelectOutcome} {job : Job}
    {r : WithLedger Receiver MemBlock} {w : List Session.Action} {t : WithLedger Session MemBlock}
    (hread : Run (WithLedger.step (Receiver.step stray) Receiver.changes) (fun _ _ => True)
      ⟨.initial, {}⟩ outcomes r)
    (hreturned : r.state.returned.isSome = true)
    (hrequest : job.request.request = r.state.clientRequest.request)
    (hrun : Run (WithLedger.step (Session.step job) (Session.changes job)) (fun _ _ => True)
      ⟨.init, r.ledger⟩ w t) :
    t.ledger.faults = [] ∧
      (t.state.pc = .returned →
        t.ledger.Owns {b | b = .request ∧ LosesBuffer stray outcomes}) := by
  obtain ⟨howns, hlost⟩ := readRequest_owns hread
  have hbuf : r.state.returned = some r.state.buf := by
    rcases Receiver.returned_run (WithLedger.run_state hread) with hnone | hbuf
    · rw [hnone] at hreturned
      cases hreturned
    · exact hbuf
  have hsome : job.request.request.isSome = r.state.buf.isSome := by
    rw [hrequest, Receiver.clientRequest, hbuf, Option.isSome_map]
    rfl
  have hheld := Session.holding_run (fun h => .inl (hsome ▸ h)) howns hrun
  refine ⟨hheld.faults, fun hpc => ?_⟩
  have hinv : Session.Inv job t.state := .run (WithLedger.run_state hrun)
  rw [hinv.holding_returned hpc, hsome] at hheld
  have hset : {b : MemBlock | b = .request ∧
      (r.state.buf.isSome = true ∨ LosesBuffer stray outcomes) ∧ r.state.buf.isSome = false} =
        {b | b = .request ∧ LosesBuffer stray outcomes} := by
    have hnone : LosesBuffer stray outcomes → r.state.buf.isSome = false := by
      intro hloses
      have hnull : r.state.buf = none := Option.some.inj (hbuf.symm.trans (hlost hloses))
      rw [hnull]
      rfl
    ext b
    cases hcase : r.state.buf.isSome with
    | true =>
      have hkept : ¬ LosesBuffer stray outcomes := fun h => by simp [hnone h] at hcase
      simp [hkept]
    | false => simp
  exact hset ▸ hheld

/-- A request that arrives in one segment. -/
def sampleOutcome : SelectOutcome :=
  .ready (some fun _ => 0) (.data (ascii "client_address=127.0.0.2\n\n"))

/-- What `read_request` has left when it has arrived. -/
def sampleRead : WithLedger Receiver MemBlock :=
  (WithLedger.step (Receiver.step fun _ _ => false) Receiver.changes ⟨.initial, {}⟩
    sampleOutcome).get (by decide +kernel)

/-- The sample request as the worker has it. -/
def readJob : Job := { Session.sampleJob with request := sampleRead.state.clientRequest }

/-- The sample run, up to the return of the worker: all blocks of it and its solvers are given
back. -/
theorem memory_freed_sampleRun :
    ∃ t, Run (WithLedger.step (Session.step readJob) (Session.changes readJob)) (fun _ _ => True)
        ⟨.init, sampleRead.ledger⟩ (Session.sampleRun ++ List.replicate 4 (.worker true)) t ∧
      t.state.pc = .returned ∧ ∀ b, t.ledger.held b = 0 := by
  have hread : Run (WithLedger.step (Receiver.step fun _ _ => false) Receiver.changes)
      (fun _ _ => True) ⟨.initial, {}⟩ [sampleOutcome] sampleRead :=
    .cons trivial (Option.some_get _).symm .nil
  have hexec : (exec (WithLedger.step (Session.step readJob) (Session.changes readJob))
      (fun _ _ => True) ⟨.init, sampleRead.ledger⟩
        (Session.sampleRun ++ List.replicate 4 (.worker true))).any
          (fun t => t.state.pc = .returned) = true := by
    decide +kernel
  obtain ⟨t, hrun, hpc⟩ := exists_run_of_exec hexec
  have hfreed := (memory_freed hread (by decide +kernel) rfl hrun).2 hpc
  have hkept : ¬ LosesBuffer (fun _ _ => false) [sampleOutcome] := by
    intro hloses
    exact absurd ((losesBuffer_concat_iff .nil sampleOutcome).mp hloses).1 nofun
  exact ⟨t, hrun, hpc, fun b => hfreed.lacks b fun h => hkept h.2⟩

end Rblpolicyd
