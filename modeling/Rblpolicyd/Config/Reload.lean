import Rblpolicyd.Config.LongLines

/-!
# The memory of a daemon that reloads its configuration

A reload reads the file again, and the list it returns takes the place of the old one, which
is freed. A file that cannot be read, is refused or has no entry leaves the old list. Over
any number of reloads the memory in use is that of the list in force, and one entry for each
file that was given up at a weight: that entry is allocated, not yet linked, and not freed.

## Main definitions

* `CfgError.leaks`, `firstError` — the message that ends a file, and whether it loses an entry
* `Attempt`, `Loaded.reload` — a reload, and what it does to the list and to the memory
* `Attempt.accepted` — the entries of a file that takes the place of the old one

## Main results

* `Attempt.reads` — what one call of `cfg_read` leaves in memory
* `Loaded.reload_memory` — what one reload does
* `reloads_live` — the list in force after any reloads, and the memory in use
-/

namespace Rblpolicyd

open Libc

/-- The message behind which the entry of the line is lost. -/
def CfgError.leaks : CfgError → Bool
  | .notNumeric | .outsideRange => true
  | .prematureEnd | .outOfMemory => false

/-- The first message for the buffers of a file. -/
def firstError (callocOk : Nat → Bool) : Nat → List Bytes → Option CfgError
  | _, [] => none
  | lineno, buf :: bufs =>
    (cfgLineError (callocOk lineno) buf).or (firstError callocOk (lineno + 1) bufs)

/-- What a reload finds: the file, and the memory there is. -/
structure Attempt where
  callocOk : Nat → Bool
  file : Option Bytes

/-- The message for the file. -/
def Attempt.error (a : Attempt) : Option CfgError :=
  a.file.bind fun content => firstError a.callocOk 1 (fileBuffers content)

/-- An entry is lost. -/
def Attempt.leaks (a : Attempt) : Bool := a.error.any CfgError.leaks

/-- The entries of a file that is read to its end and has one. -/
def Attempt.accepted (a : Attempt) : Option (List (Bytes × Int)) :=
  match a.file, a.error with
  | some content, none => ((bufferLines content).mapM lineEntry).filter (· ≠ [])
  | _, _ => none

/-- The list in force, and the memory. -/
structure Loaded where
  heap : CfgHeap
  rblist : Option Nat
  deriving DecidableEq

/-- The `APP_RELOAD` case of the server: a new list takes the place of the old one. -/
def Loaded.reload (s : Loaded) (a : Attempt) : Loaded :=
  match cfgRead a.callocOk s.heap a.file with
  | (none, heap) => { s with heap := heap }
  | (some newlist, heap) => { heap := cfgFree heap s.rblist, rblist := some newlist }

variable {callocOk : Bool} {heap : CfgHeap} {st st' : ReadState} {cells : List (Nat × Cfgitem)}
  {buf : Bytes} {bufs : List Bytes}

/-! ### One line -/

theorem ReadState.live_linked (st : ReadState) (domain : Bytes) (weight : Int) :
    (st.linked domain weight).heap.live = st.heap.live + 1 := by
  unfold ReadState.linked
  have hwrite : ((st.heap.alloc ⟨⟨domain, 0, 0, 0⟩, none⟩).2.write st.heap.cells.length
      ⟨⟨domain, weight, 0, 0⟩, none⟩).live = st.heap.live + 1 :=
    (Heap.live_write Heap.read_alloc_self).trans (Heap.live_alloc _)
  cases st.last with
  | none => exact hwrite
  | some last => exact (Heap.live_setNext last _).trans hwrite

/-- What a line does to the memory, by its message. -/
theorem cfgReadLine_memory (callocOk : Bool) (buf : Bytes) (st : ReadState) :
    match cfgLineError callocOk buf with
    | none => cfgReadLine callocOk buf st = .ok st ∨
        ∃ domain weight, cfgReadLine callocOk buf st = .ok (st.linked domain weight)
    | some e => ∃ heap, cfgReadLine callocOk buf st = .error { st with heap := heap } ∧
        st.heap.Extends heap ∧ heap.live = st.heap.live + if e.leaks then 1 else 0 := by
  rw [cfgReadLine, cfgLineError]
  generalize cstr (cfgCleanline (buf ++ [nul])) = line
  obtain ⟨x, temp, hscan⟩ : ∃ x temp, scanDomain line [] = (x, temp) := ⟨_, _, rfl⟩
  obtain ⟨n, y, hnum⟩ : ∃ n y, strtol0 (x.dropWhile isspace) = (n, y) := ⟨_, _, rfl⟩
  simp only [hscan, hnum]
  by_cases hline : line = []
  · simp [hline]
  by_cases hx : x = []
  · simp only [hline, hx, if_true, if_false]
    exact ⟨st.heap, rfl, .refl _, rfl⟩
  cases callocOk with
  | false =>
    simp only [hline, hx, Bool.not_false, if_true, if_false]
    exact ⟨st.heap, rfl, .refl _, rfl⟩
  | true =>
    simp only [hline, hx, Bool.not_true, Bool.false_eq_true, if_false]
    by_cases hy : y ≠ []
    · simp only [if_pos hy]
      exact ⟨_, rfl, (Heap.Extends.refl _).alloc _, Heap.live_alloc _⟩
    by_cases hrange : n ≤ 0 ∨ n > shrtMax
    · simp only [if_neg hy, if_pos hrange]
      exact ⟨_, rfl, (Heap.Extends.refl _).alloc _, Heap.live_alloc _⟩
    · simp only [if_neg hy, if_neg hrange]
      exact Or.inr ⟨temp, n, rfl⟩

/-! ### A file -/

/-- What the loop does to the memory, by the message that ends it. -/
theorem cfgReadLoop_memory (h : st.Chain cells) (callocOk : Nat → Bool) (lineno : Nat)
    (bufs : List Bytes) :
    match firstError callocOk lineno bufs with
    | none => ∃ st' cells', cfgReadLoop callocOk lineno bufs st = .ok st' ∧ st'.Chain cells' ∧
        st'.heap.live + cells.length = st.heap.live + cells'.length
    | some e => ∃ st' cells', cfgReadLoop callocOk lineno bufs st = .error st' ∧
        st'.Chain cells' ∧ st'.heap.live + cells.length =
          st.heap.live + cells'.length + if e.leaks then 1 else 0 := by
  induction bufs generalizing st cells lineno with
  | nil => exact ⟨st, cells, rfl, h, rfl⟩
  | cons buf bufs ih =>
    have hline := cfgReadLine_memory (callocOk lineno) buf st
    rw [firstError, cfgReadLoop]
    cases herror : cfgLineError (callocOk lineno) buf with
    | some e =>
      rw [herror] at hline
      obtain ⟨heap, hread, hext, hlive⟩ := hline
      rw [hread, Option.some_or]
      refine ⟨{ st with heap := heap }, cells, rfl, ⟨h.list.of_extends hext, h.last⟩, ?_⟩
      show heap.live + cells.length = _
      omega
    | none =>
      rw [herror] at hline
      rw [Option.none_or]
      rcases hline with hread | ⟨domain, weight, hread⟩
      · rw [hread]
        exact ih h (lineno + 1)
      · rw [hread]
        have hrest := ih (h.linked domain weight) (lineno + 1)
        rw [List.length_append, List.length_singleton, ReadState.live_linked] at hrest
        cases hfirst : firstError callocOk (lineno + 1) bufs with
        | none =>
          rw [hfirst] at hrest
          obtain ⟨st', cells', hloop, hchain, hlive⟩ := hrest
          exact ⟨st', cells', hloop, hchain, by omega⟩
        | some e =>
          rw [hfirst] at hrest
          obtain ⟨st', cells', hloop, hchain, hlive⟩ := hrest
          exact ⟨st', cells', hloop, hchain, by omega⟩

/-- What one call of `cfg_read` leaves: a list in new memory, with the entries of an accepted
file, and perhaps a lost entry. -/
structure Attempt.Reads (a : Attempt) (heap : CfgHeap) (first : Option Nat) (heap' : CfgHeap)
    (cells : List (Nat × Cfgitem)) : Prop where
  kept : heap.Extends heap'
  list : heap'.IsList first cells
  new : ∀ c ∈ cells, heap.cells.length ≤ c.1
  live : heap'.live = heap.live + cells.length + if a.leaks then 1 else 0
  entries : a.accepted.map (List.map freshItem) =
    if cells = [] then none else some (cells.map Prod.snd)

theorem Attempt.reads_of_error {a : Attempt} {content : Bytes} {e : CfgError} (heap : CfgHeap)
    (hfile : a.file = some content)
    (herror : firstError a.callocOk 1 (fileBuffers content) = some e) :
    ∃ heap', cfgRead a.callocOk heap a.file = (none, heap') ∧ a.Reads heap none heap' [] := by
  have hmemory := cfgReadLoop_memory (ReadState.chain_nil heap) a.callocOk 1 (fileBuffers content)
  rw [herror] at hmemory
  obtain ⟨st, cells, hloop, hchain, hlive⟩ := hmemory
  have hread : cfgRead a.callocOk heap a.file = (none, cfgFree st.heap st.first) := by
    rw [hfile, cfgRead, hloop]
  have hext := cfgRead_extends a.callocOk heap a.file
  have hfree := Heap.live_freeList hchain.list hchain.list.length_le
  have hmessage : a.error = some e := by rw [Attempt.error, hfile]; exact herror
  rw [hread] at hext
  refine ⟨_, hread, hext, rfl, ?_, ?_, ?_⟩
  · intro c hc
    exact absurd hc List.not_mem_nil
  · rw [Attempt.leaks, hmessage]
    unfold cfgFree
    simp only [List.length_nil, Nat.add_zero, Option.any_some] at hlive ⊢
    omega
  · rw [Attempt.accepted, hfile, hmessage]
    rfl

theorem Attempt.reads_of_ok {a : Attempt} {content : Bytes} (heap : CfgHeap)
    (hfile : a.file = some content)
    (herror : firstError a.callocOk 1 (fileBuffers content) = none) :
    ∃ first heap' cells, cfgRead a.callocOk heap a.file = (first, heap') ∧
      a.Reads heap first heap' cells := by
  have hmemory := cfgReadLoop_memory (ReadState.chain_nil heap) a.callocOk 1 (fileBuffers content)
  have habove := ((ReadState.above_init heap).loop a.callocOk 1 (fileBuffers content)).1
  rw [herror] at hmemory
  obtain ⟨st, cells, hloop, hchain, hlive⟩ := hmemory
  obtain ⟨hext, cells', hchain', hnew⟩ := habove st hloop
  obtain rfl := hchain.list.unique hchain'.list
  have hread : cfgRead a.callocOk heap a.file = (st.first, st.heap) := by
    rw [hfile, cfgRead, hloop]
  have hmessage : a.error = none := by rw [Attempt.error, hfile]; exact herror
  refine ⟨_, _, cells, hread, hext, hchain.list, hnew, ?_, ?_⟩
  · rw [Attempt.leaks, hmessage]
    simp only [List.length_nil, Nat.add_zero, Option.any_none] at hlive ⊢
    exact hlive
  · have htrue := cfgReadLoop_true hloop
    have hspec := cfgReadLoop_spec (ReadState.holds_nil heap) 1 (fileBuffers content)
    rw [← bufferLines] at hspec
    rw [Attempt.accepted, hfile, hmessage]
    cases hentries : (bufferLines content).mapM lineEntry with
    | none =>
      rw [hentries] at hspec
      obtain ⟨st', hbad⟩ := hspec
      cases hbad.symm.trans htrue
    | some entries =>
      rw [hentries] at hspec
      obtain ⟨st', hok, cells', hlist', -, hvals⟩ := hspec
      obtain rfl := Except.ok.inj (hok.symm.trans htrue)
      obtain rfl := hchain.list.unique hlist'
      rw [List.nil_append] at hvals
      have hempty : cells = [] ↔ entries = [] := by
        rw [← List.map_eq_nil_iff (f := Prod.snd), hvals, List.map_eq_nil_iff]
      dsimp only
      rw [hentries]
      by_cases hnil : entries = []
      · rw [if_pos (hempty.mpr hnil), hnil]
        rfl
      · rw [if_neg (mt hempty.mp hnil), hvals]
        simp [Option.filter, hnil]

theorem Attempt.reads (a : Attempt) (heap : CfgHeap) :
    ∃ first heap' cells, cfgRead a.callocOk heap a.file = (first, heap') ∧
      a.Reads heap first heap' cells := by
  cases hfile : a.file with
  | none =>
    have hmessage : a.error = none := by rw [Attempt.error, hfile]; rfl
    refine ⟨none, heap, [], rfl, .refl heap, rfl, nofun, ?_, ?_⟩
    · rw [Attempt.leaks, hmessage]
      rfl
    · rw [Attempt.accepted, hfile]
      rfl
  | some content =>
    cases herror : firstError a.callocOk 1 (fileBuffers content) with
    | none =>
      obtain ⟨first, heap', cells, hread, h⟩ := reads_of_ok heap hfile herror
      exact ⟨first, heap', cells, hfile ▸ hread, h⟩
    | some e =>
      obtain ⟨heap', hread, h⟩ := reads_of_error heap hfile herror
      exact ⟨none, heap', [], hfile ▸ hread, h⟩

theorem Attempt.leaks_of_accepted {a : Attempt} (h : a.accepted ≠ none) : a.leaks = false := by
  unfold Attempt.accepted at h
  unfold Attempt.leaks
  cases herror : a.error with
  | none => rfl
  | some e =>
    rw [herror] at h
    cases hfile : a.file <;> simp [hfile] at h

/-- No entry is lost where a list is returned. -/
theorem Attempt.Reads.leaks_eq {a : Attempt} {heap' : CfgHeap} {first : Nat}
    (h : a.Reads heap (some first) heap' cells) : a.leaks = false := by
  have hne : cells ≠ [] := by
    rintro rfl
    exact absurd h.list nofun
  apply leaks_of_accepted
  intro hnone
  have hentries := h.entries
  rw [hnone, if_neg hne] at hentries
  contradiction

/-- A list is returned for an accepted file, and for no other. -/
theorem Attempt.Reads.eq_none_iff {a : Attempt} {heap' : CfgHeap} {first : Option Nat}
    (h : a.Reads heap first heap' cells) : first = none ↔ a.accepted = none := by
  have hentries := h.entries
  cases first with
  | none =>
    obtain rfl := h.list.eq_nil
    rw [if_pos rfl, Option.map_eq_none_iff] at hentries
    simp [hentries]
  | some first =>
    have hne : cells ≠ [] := by
      rintro rfl
      exact absurd h.list nofun
    rw [if_neg hne] at hentries
    constructor
    · exact nofun
    · intro hnone
      rw [hnone] at hentries
      contradiction

/-! ### Reloads -/

variable {s : Loaded}

/-- What one reload does to the list and to the memory. -/
theorem Loaded.reload_memory (hlist : s.heap.IsList s.rblist cells) (a : Attempt) :
    ∃ cells', (s.reload a).heap.IsList (s.reload a).rblist cells' ∧
      (s.reload a).heap.live + cells.length =
        s.heap.live + cells'.length + (if a.leaks then 1 else 0) ∧
      cells'.map Prod.snd = (a.accepted.map (List.map freshItem)).getD (cells.map Prod.snd) := by
  obtain ⟨first, heap', new, hread, h⟩ := a.reads s.heap
  have hold := hlist.of_extends h.kept
  have hlive := h.live
  cases first with
  | none =>
    obtain rfl := h.list.eq_nil
    have hreload : s.reload a = { s with heap := heap' } := by rw [Loaded.reload, hread]
    rw [hreload]
    refine ⟨cells, hold, ?_, ?_⟩
    · simp only [List.length_nil, Nat.add_zero] at hlive
      show heap'.live + cells.length = _
      omega
    · rw [h.entries]
      rfl
  | some newlist =>
    have hne : new ≠ [] := by
      rintro rfl
      exact absurd h.list nofun
    have hreload : s.reload a = { heap := cfgFree heap' s.rblist, rblist := some newlist } := by
      rw [Loaded.reload, hread]
    have hfree := Heap.live_freeList hold hold.length_le
    rw [hreload]
    refine ⟨new, ?_, ?_, ?_⟩
    · -- the new cells are behind the old ones, and are not freed with them
      refine h.list.congr fun c hc => ?_
      rw [cfgFree, Heap.read_freeList hold hold.length_le, if_neg]
      intro hmem
      obtain ⟨d, hd, heq⟩ := List.mem_map.mp hmem
      have hlow := hlist.lt_length hd
      have hhigh := h.new c hc
      omega
    · show (cfgFree heap' s.rblist).live + cells.length = _
      unfold cfgFree
      omega
    · rw [h.entries, if_neg hne]
      rfl

/-- What any number of reloads does to the list and to the memory. -/
theorem Loaded.reloads_memory (hlist : s.heap.IsList s.rblist cells) (attempts : List Attempt) :
    ∃ cells', (attempts.foldl Loaded.reload s).heap.IsList
        (attempts.foldl Loaded.reload s).rblist cells' ∧
      (attempts.foldl Loaded.reload s).heap.live + cells.length =
        s.heap.live + cells'.length + attempts.countP Attempt.leaks ∧
      cells'.map Prod.snd = (((attempts.filterMap Attempt.accepted).getLast?).map
        (List.map freshItem)).getD (cells.map Prod.snd) := by
  -- the induction is from the last reload backwards
  induction attempts using List.reverseRecOn with
  | nil => exact ⟨cells, hlist, rfl, rfl⟩
  | append_singleton attempts a ih =>
    obtain ⟨before, hbefore, hcount, hvals⟩ := ih
    obtain ⟨after, hafter, hmemory, hnew⟩ := Loaded.reload_memory hbefore a
    rw [List.foldl_append, List.foldl_cons, List.foldl_nil]
    refine ⟨after, hafter, ?_, ?_⟩
    · rw [List.countP_append, List.countP_singleton]
      omega
    · rw [hnew, hvals, List.filterMap_append]
      cases haccepted : a.accepted <;> simp [haccepted]

/-- After any reloads the list in force is the one of the last accepted file, and the memory in
use is that list, and one entry for each file that was given up at a weight. -/
theorem reloads_live (s : Loaded) (cells : List (Nat × Cfgitem))
    (hlist : s.heap.IsList s.rblist cells) (hlive : s.heap.live = cells.length)
    (attempts : List Attempt) :
    ∃ cells', (attempts.foldl Loaded.reload s).heap.IsList
        (attempts.foldl Loaded.reload s).rblist cells' ∧
      (attempts.foldl Loaded.reload s).heap.live =
        cells'.length + attempts.countP Attempt.leaks ∧
      cells'.map Prod.snd = (((attempts.filterMap Attempt.accepted).getLast?).map
        (List.map freshItem)).getD (cells.map Prod.snd) := by
  obtain ⟨cells', hlist', hmemory, hvals⟩ := Loaded.reloads_memory hlist attempts
  exact ⟨cells', hlist', by omega, hvals⟩

/-- A list of one entry. -/
def oneEntry : Loaded :=
  { heap := ⟨[some ⟨⟨ascii "bl.spamcop.net", 70, 0, 0⟩, none⟩]⟩, rblist := some 0 }

/-- A file with a bad weight in its second line, a file that is gone, and a good one. -/
def threeAttempts : List Attempt :=
  [⟨fun _ => true, some (ascii "list.dsbl.org 20\nsbl.spamhaus.org high\n")⟩,
    ⟨fun _ => true, none⟩, ⟨fun _ => true, some (ascii "list.dsbl.org 20\n")⟩]

theorem reloads_live_threeAttempts :
    ∃ cells', (threeAttempts.foldl Loaded.reload oneEntry).heap.IsList
        (threeAttempts.foldl Loaded.reload oneEntry).rblist cells' ∧
      (threeAttempts.foldl Loaded.reload oneEntry).heap.live =
        cells'.length + threeAttempts.countP Attempt.leaks ∧
      cells'.map Prod.snd = (((threeAttempts.filterMap Attempt.accepted).getLast?).map
        (List.map freshItem)).getD [⟨ascii "bl.spamcop.net", 70, 0, 0⟩] :=
  reloads_live oneEntry [(0, ⟨ascii "bl.spamcop.net", 70, 0, 0⟩)] ⟨rfl, none, rfl, rfl⟩ rfl
    threeAttempts

end Rblpolicyd
