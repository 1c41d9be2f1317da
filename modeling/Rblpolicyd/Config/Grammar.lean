import Mathlib.Data.List.Forall2
import Rblpolicyd.Config.Memory

/-!
# The grammar of the configuration file

A line of the file, cut at its comment and stripped, is empty or names one
blacklist: optional white space, a domain, white space, and a weight that `strtol`
reads to the end of the line. This file relates the pointer scans of `cfg_read` to
that grammar and the links it builds to the sequence of entries.

## Main definitions

* `IsEntry` — a stripped line that names a domain and a weight
* `configLines` — the stripped lines of a file that are not empty
* `lineEntry` — what the scans of `cfg_read` make of such a line
* `ReadState.Holds` — the list under construction has the given entries

## Main results

* `lineEntry_eq_some_iff` — the scans recognise exactly the grammar
* `cfgReadLine_spec`, `cfgReadLoop_spec` — what one line and a whole file do to the list
* `cfgRead_entries`, `cfgRead_plain` — what a list that `cfg_read` returns is made of
* `cfgRead_iff_grammar` — when `cfg_read` returns a list, and which
-/

namespace Rblpolicyd

open Libc

/-- A stripped line in the grammar: white space, a maximal run of other bytes, white
space, and a numeral that is read completely, in the range of a weight. -/
structure IsEntry (line domain : Bytes) (weight : Int) : Prop where
  domain_ne_nil : domain ≠ []
  domain_plain : ∀ b ∈ domain, isspace b = false
  weight_pos : 1 ≤ weight
  weight_le : weight ≤ shrtMax
  split : ∃ lead gap rest, line = lead ++ domain ++ gap ++ rest ∧
    (∀ b ∈ lead, isspace b = true) ∧ gap ≠ [] ∧ (∀ b ∈ gap, isspace b = true) ∧
    strtol0 rest = (weight, [])

/-- The lines of a file, cut at their comments and stripped, without the empty ones. -/
def configLines (content : Bytes) : List Bytes :=
  ((fileLines content).map strippedLine).filter (· ≠ [])

/-- The entry that `cfg_read` links for a domain and a weight. -/
def freshItem (e : Bytes × Int) : Cfgitem := ⟨e.1, e.2, 0, 0⟩

/-- What the scans of `cfg_read` find on a stripped line. -/
def lineEntry (line : Bytes) : Option (Bytes × Int) :=
  let (x, temp) := scanDomain line []
  if x = [] then none
  else
    let (weight, y) := strtol0 (x.dropWhile isspace)
    if y ≠ [] then none
    else if weight ≤ 0 ∨ weight > shrtMax then none
    else some (temp, weight)

/-! ### The scans and the grammar -/

theorem scanDomain_lead {lead : Bytes} (h : ∀ b ∈ lead, isspace b = true) (s : Bytes) :
    scanDomain (lead ++ s) [] = scanDomain s [] := by
  induction lead with
  | nil => rfl
  | cons b lead ih =>
    rw [List.cons_append, scanDomain, if_pos (h b (List.mem_cons_self ..)), if_pos rfl]
    exact ih fun c hc => h c (List.mem_cons_of_mem _ hc)

theorem scanDomain_plain {domain : Bytes} (h : ∀ b ∈ domain, isspace b = false) (s temp : Bytes) :
    scanDomain (domain ++ s) temp = scanDomain s (temp ++ domain) := by
  induction domain generalizing temp with
  | nil => simp
  | cons b domain ih =>
    rw [List.cons_append, scanDomain, if_neg (by simp [h b (List.mem_cons_self ..)]),
      ih fun c hc => h c (List.mem_cons_of_mem _ hc)]
    simp

theorem scanDomain_stop {b : UInt8} (hb : isspace b = true) {temp : Bytes} (ht : temp ≠ [])
    (s : Bytes) : scanDomain (b :: s) temp = (b :: s, temp) := by
  rw [scanDomain, if_pos hb, if_neg ht]

/-- A scan that stops before the end has skipped white space, copied a run of other
bytes, and stands on white space. -/
theorem scanDomain_spec {s temp x out : Bytes} (hscan : scanDomain s temp = (x, out))
    (hx : x ≠ []) :
    out ≠ [] ∧ (∃ b x', x = b :: x' ∧ isspace b = true) ∧ ∃ lead domain,
      s = lead ++ domain ++ x ∧ out = temp ++ domain ∧ (temp ≠ [] → lead = []) ∧
        (∀ b ∈ lead, isspace b = true) ∧ ∀ b ∈ domain, isspace b = false := by
  induction s generalizing temp with
  | nil =>
    rw [scanDomain, Prod.mk.injEq] at hscan
    exact absurd hscan.1.symm hx
  | cons b s ih =>
    rw [scanDomain] at hscan
    split_ifs at hscan with hb ht
    · -- white space before the domain is skipped
      subst ht
      obtain ⟨hout, hstand, lead, domain, rfl, hcopy, -, hlead, hdomain⟩ := ih hscan
      refine ⟨hout, hstand, b :: lead, domain, by simp, hcopy, by simp, ?_, hdomain⟩
      intro c hc
      rcases List.mem_cons.mp hc with rfl | hc
      · exact hb
      · exact hlead c hc
    · -- white space behind it ends the scan
      obtain ⟨rfl, rfl⟩ := Prod.mk.inj hscan
      exact ⟨ht, ⟨b, s, rfl, hb⟩, [], [], by simp, by simp, by simp, by simp, by simp⟩
    · -- any other byte is copied
      obtain ⟨hout, hstand, lead, domain, rfl, rfl, hnil, hlead, hdomain⟩ := ih hscan
      obtain rfl : lead = [] := hnil (by simp)
      refine ⟨hout, hstand, [], b :: domain, by simp, by simp, by simp, by simp, ?_⟩
      intro c hc
      rcases List.mem_cons.mp hc with rfl | hc
      · simpa using hb
      · exact hdomain c hc

/-- The pointer scans and the number reader together recognise exactly the grammar. -/
theorem lineEntry_eq_some_iff {line domain : Bytes} {weight : Int} :
    lineEntry line = some (domain, weight) ↔ IsEntry line domain weight := by
  constructor
  -- from the scans to the grammar: `scanDomain_spec` gives the three parts of the line
  · intro h
    rw [lineEntry] at h
    obtain ⟨x, temp, hscan⟩ : ∃ x temp, scanDomain line [] = (x, temp) := ⟨_, _, rfl⟩
    obtain ⟨n, y, hnum⟩ : ∃ n y, strtol0 (x.dropWhile isspace) = (n, y) := ⟨_, _, rfl⟩
    simp only [hscan, hnum] at h
    split_ifs at h with hx hy hrange
    obtain ⟨rfl, rfl⟩ := Prod.mk.inj (Option.some.inj h)
    obtain ⟨htemp, ⟨b, x', rfl, hb⟩, lead, domain, rfl, rfl, -, hlead, hdomain⟩ :=
      scanDomain_spec hscan hx
    have hread : strtol0 ((b :: x').dropWhile isspace) = (n, []) := by
      rw [hnum, not_not.mp hy]
    -- the white space that the scan stands on is the gap, its first byte is enough
    refine ⟨htemp, hdomain, by omega, by omega, lead, [b], x', by simp, hlead, by simp,
      by simpa using hb, ?_⟩
    rw [List.dropWhile_cons_of_pos hb] at hread
    exact (strtol0_dropWhile_iff (by omega)).mp hread
  -- from the grammar to the scans: they pass the parts one after the other
  · rintro ⟨hne, hplain, hpos, hle, lead, gap, rest, rfl, hlead, hgap, hspace, hread⟩
    obtain ⟨b, gap', rfl⟩ := List.exists_cons_of_ne_nil hgap
    have hscan : scanDomain (lead ++ domain ++ (b :: gap') ++ rest) [] =
        (b :: gap' ++ rest, domain) := by
      rw [List.append_assoc, List.append_assoc, scanDomain_lead hlead, scanDomain_plain hplain,
        List.nil_append, List.cons_append,
        scanDomain_stop (hspace b (List.mem_cons_self ..)) hne]
    have hskip : (b :: gap' ++ rest).dropWhile isspace = rest.dropWhile isspace :=
      dropWhile_append_of_all hspace rest
    have hnum : strtol0 (rest.dropWhile isspace) = (weight, []) :=
      (strtol0_dropWhile_iff (by omega)).mpr hread
    have hrange : ¬ (weight ≤ 0 ∨ weight > shrtMax) := by omega
    have hne' : b :: gap' ++ rest ≠ [] := by simp
    simp only [lineEntry, hscan, hskip, hnum, hrange, hne', ne_eq, not_true_eq_false, if_false]

/-- All lines are in the grammar with the given entries, one by one. -/
theorem mapM_lineEntry_eq_some_iff {lines : List Bytes} {entries : List (Bytes × Int)} :
    lines.mapM lineEntry = some entries ↔
      List.Forall₂ (fun line e => IsEntry line e.1 e.2) lines entries := by
  induction lines generalizing entries with
  | nil => simp [eq_comm]
  | cons line lines ih =>
    rw [List.forall₂_cons_left_iff, List.mapM_cons]
    cases hline : lineEntry line with
    -- a line that is not in the grammar spoils the whole file
    | none =>
      simp only [Option.bind_eq_bind, Option.bind_none, false_iff, reduceCtorEq]
      rintro ⟨e, rest, hentry, -⟩
      rw [← lineEntry_eq_some_iff, hline] at hentry
      exact absurd hentry (by simp)
    | some e =>
      cases hrest : lines.mapM lineEntry with
      | none =>
        simp only [Option.bind_eq_bind, Option.bind_some, Option.bind_none, false_iff,
          reduceCtorEq]
        rintro ⟨e', rest, -, hall, -⟩
        rw [← ih, hrest] at hall
        exact absurd hall (by simp)
      | some rest =>
        simp only [Option.bind_eq_bind, Option.bind_some, Option.pure_def, Option.some.injEq]
        constructor
        · rintro rfl
          exact ⟨e, rest, lineEntry_eq_some_iff.mp hline, ih.mp hrest, rfl⟩
        · rintro ⟨e', rest', hentry, hall, rfl⟩
          rw [← lineEntry_eq_some_iff, hline, Option.some.injEq] at hentry
          rw [← ih, hrest, Option.some.injEq] at hall
          rw [hentry, hall]

theorem mapM_lineEntry_eq_none_iff {lines : List Bytes} :
    lines.mapM lineEntry = none ↔
      ∃ line ∈ lines, ∀ domain weight, ¬ IsEntry line domain weight := by
  induction lines with
  | nil => simp
  | cons line lines ih =>
    rw [List.mapM_cons, List.exists_mem_cons_iff, ← ih]
    cases hline : lineEntry line with
    | none =>
      have hbad : ∀ domain weight, ¬ IsEntry line domain weight := by
        intro domain weight hentry
        rw [← lineEntry_eq_some_iff, hline] at hentry
        exact absurd hentry (by simp)
      simp [hbad]
    | some e =>
      have hgood : ¬ ∀ domain weight, ¬ IsEntry line domain weight := fun h =>
        h e.1 e.2 (lineEntry_eq_some_iff.mp hline)
      cases hrest : lines.mapM lineEntry <;> simp [hgood]

/-! ### The list under construction -/

/-- The list under construction has the given entries, and `last` is its last node. -/
def ReadState.Holds (st : ReadState) (entries : List (Bytes × Int)) : Prop :=
  ∃ cells, st.heap.IsList st.first cells ∧ st.last = cells.getLast?.map Prod.fst ∧
    cells.map Prod.snd = entries.map freshItem

theorem ReadState.holds_nil (heap : CfgHeap) : ReadState.Holds ⟨heap, none, none⟩ [] :=
  ⟨[], rfl, rfl, rfl⟩

/-- Allocating and linking an entry appends it to the list. -/
theorem ReadState.Holds.linked {st : ReadState} {entries : List (Bytes × Int)}
    (h : st.Holds entries) (domain : Bytes) (weight : Int) :
    (st.linked domain weight).Holds (entries ++ [(domain, weight)]) := by
  obtain ⟨cells, hlist, hlast, hvals⟩ := h
  have hchain := ReadState.Chain.linked ⟨hlist, hlast⟩ domain weight
  refine ⟨_, hchain.list, hchain.last, ?_⟩
  rw [List.map_append, List.map_append, hvals]
  rfl

/-- What one line does to the list: nothing when it is blank, an error when it is not
in the grammar, and otherwise its entry is appended. -/
theorem cfgReadLine_spec {st : ReadState} {entries : List (Bytes × Int)} (h : st.Holds entries)
    (buf : Bytes) :
    (strippedLine (cstr buf) = [] ∧ cfgReadLine true buf st = .ok st) ∨
    (strippedLine (cstr buf) ≠ [] ∧ lineEntry (strippedLine (cstr buf)) = none ∧
      ∃ st', cfgReadLine true buf st = .error st') ∨
    (strippedLine (cstr buf) ≠ [] ∧ ∃ e st', lineEntry (strippedLine (cstr buf)) = some e ∧
      cfgReadLine true buf st = .ok st' ∧ st'.Holds (entries ++ [e])) := by
  rw [cfgReadLine, cstr_cfgCleanline]
  generalize strippedLine (cstr buf) = line
  -- a blank line
  by_cases hline : line = []
  · exact Or.inl ⟨hline, by simp [hline]⟩
  refine Or.inr ?_
  obtain ⟨x, temp, hscan⟩ : ∃ x temp, scanDomain line [] = (x, temp) := ⟨_, _, rfl⟩
  obtain ⟨n, y, hnum⟩ : ∃ n y, strtol0 (x.dropWhile isspace) = (n, y) := ⟨_, _, rfl⟩
  simp only [lineEntry, hscan, hnum, hline, if_false, Bool.not_true, Bool.false_eq_true]
  -- a line that ends with its domain
  by_cases hx : x = []
  · simp only [hx, if_true]
    exact Or.inl ⟨hline, trivial, st, rfl⟩
  -- a weight with something behind it
  by_cases hy : y = []
  swap
  · simp only [hx, hy, ne_eq, not_false_eq_true, if_false, if_true]
    exact Or.inl ⟨hline, trivial, _, rfl⟩
  -- a weight that is out of range
  by_cases hrange : n ≤ 0 ∨ n > shrtMax
  · simp only [hx, hy, hrange, ne_eq, not_true_eq_false, if_false, if_true]
    exact Or.inl ⟨hline, trivial, _, rfl⟩
  · simp only [hx, hy, hrange, ne_eq, not_true_eq_false, if_false]
    exact Or.inr ⟨hline, (temp, n), _, rfl, rfl, h.linked temp n⟩

/-- What the reading loop does to the list: it appends the entry of every line that is
not blank, unless one of them is not in the grammar. -/
theorem cfgReadLoop_spec {st : ReadState} {entries : List (Bytes × Int)} (h : st.Holds entries)
    (lineno : Nat) (bufs : List Bytes) :
    match ((bufs.map fun buf => strippedLine (cstr buf)).filter (· ≠ [])).mapM lineEntry with
    | none => ∃ st', cfgReadLoop (fun _ => true) lineno bufs st = .error st'
    | some new => ∃ st', cfgReadLoop (fun _ => true) lineno bufs st = .ok st' ∧
        st'.Holds (entries ++ new) := by
  induction bufs generalizing st entries lineno with
  | nil => exact ⟨st, rfl, by simpa using h⟩
  | cons buf bufs ih =>
    rw [List.map_cons, cfgReadLoop]
    rcases cfgReadLine_spec h buf with
      ⟨hblank, hok⟩ | ⟨hne, hbad, st', herr⟩ | ⟨hne, e, st', hentry, hok, hholds⟩
    -- blank: the list stays as it is
    · rw [List.filter_cons_of_neg (by simp [hblank]), hok]
      exact ih h (lineno + 1)
    -- bad: the loop ends here
    · rw [List.filter_cons_of_pos (by simpa using hne), List.mapM_cons, hbad, herr]
      exact ⟨st', rfl⟩
    -- good: the entry is appended, and the rest decides
    · rw [List.filter_cons_of_pos (by simpa using hne), List.mapM_cons, hentry, hok]
      have hrest := ih hholds (lineno + 1)
      cases hmap : ((bufs.map fun buf => strippedLine (cstr buf)).filter (· ≠ [])).mapM
          lineEntry with
      | none =>
        rw [hmap] at hrest
        exact hrest
      | some new =>
        rw [hmap] at hrest
        simpa using hrest

/-! ### Any file, and any failing allocation -/

/-- What the tokenizer guarantees of an entry: a domain that is a run of bytes other than
white space and NUL, and a weight in the range of a positive `short`. -/
structure Cfgitem.Plain (item : Cfgitem) : Prop where
  domain_ne_nil : item.rbldomain ≠ []
  domain_plain : ∀ b ∈ item.rbldomain, isspace b = false ∧ b ≠ nul
  weight_pos : 0 < item.weight
  weight_le : item.weight ≤ shrtMax

/-- A line that is read with failing allocations is read the same way without. -/
theorem cfgReadLine_true {callocOk : Bool} {buf : Bytes} {st st' : ReadState}
    (h : cfgReadLine callocOk buf st = .ok st') : cfgReadLine true buf st = .ok st' := by
  cases callocOk with
  | true => exact h
  | false =>
    rw [cfgReadLine] at h ⊢
    by_cases hline : cstr (cfgCleanline (buf ++ [nul])) = []
    · simpa only [hline, if_true] using h
    · -- a line that is not blank needs its allocation
      simp only [hline, if_false, Bool.not_false, if_true, ite_self] at h
      cases h

theorem plain_of_lineEntry {buf : Bytes} {e : Bytes × Int}
    (h : lineEntry (strippedLine (cstr buf)) = some e) : (freshItem e).Plain := by
  have hentry := lineEntry_eq_some_iff.mp h
  obtain ⟨lead, gap, rest, hline, -⟩ := hentry.split
  refine ⟨hentry.domain_ne_nil, fun b hb => ⟨hentry.domain_plain b hb, ?_⟩, ?_, hentry.weight_le⟩
  · rintro rfl
    -- the domain is part of the buffer before its first NUL
    have hmem : nul ∈ strippedLine (cstr buf) := by
      have hb' : nul ∈ e.1 := hb
      simp [hline, hb']
    have hpre : strippedLine (cstr buf) <+: cstr buf :=
      (List.rdropWhile_prefix _ _).trans (List.takeWhile_prefix _)
    exact nul_notMem_cstr buf (hpre.subset hmem)
  · have hpos := hentry.weight_pos
    exact Int.lt_of_lt_of_le Int.zero_lt_one hpos

theorem cfgReadLoop_true {callocOk : Nat → Bool} {lineno : Nat} {bufs : List Bytes}
    {st st' : ReadState} (h : cfgReadLoop callocOk lineno bufs st = .ok st') :
    cfgReadLoop (fun _ => true) lineno bufs st = .ok st' := by
  induction bufs generalizing st lineno with
  | nil => exact h
  | cons buf bufs ih =>
    rw [cfgReadLoop] at h ⊢
    cases hline : cfgReadLine (callocOk lineno) buf st with
    | error st₁ =>
      rw [hline] at h
      cases h
    | ok st₁ =>
      rw [hline] at h
      rw [cfgReadLine_true hline]
      exact ih h

/-- The stripped lines that `cfg_read` sees in a file, without the empty ones. A line that is
longer than the buffer is seen as several. -/
def bufferLines (content : Bytes) : List Bytes :=
  ((fileBuffers content).map fun buf => strippedLine (cstr buf)).filter (· ≠ [])

/-- The list that `cfg_read` returns has the entries of these lines, whichever allocations would
have failed. -/
theorem cfgRead_entries {callocOk : Nat → Bool} {heap : CfgHeap} {content : Bytes}
    {first : Option Nat} {cells : List (Nat × Cfgitem)}
    (hfirst : (cfgRead callocOk heap (some content)).1 = first)
    (hlist : (cfgRead callocOk heap (some content)).2.IsList first cells) (hne : first ≠ none) :
    ∃ entries, (bufferLines content).mapM lineEntry = some entries ∧
      cells.map Prod.snd = entries.map freshItem := by
  unfold cfgRead at hfirst hlist
  cases hloop : cfgReadLoop callocOk 1 (fileBuffers content) ⟨heap, none, none⟩ with
  | error st =>
    simp only [hloop] at hfirst
    exact absurd hfirst.symm hne
  | ok st =>
    simp only [hloop] at hfirst hlist
    have htrue := cfgReadLoop_true hloop
    have hspec := cfgReadLoop_spec (ReadState.holds_nil heap) 1 (fileBuffers content)
    rw [← bufferLines] at hspec
    cases hentries : (bufferLines content).mapM lineEntry with
    | none =>
      rw [hentries] at hspec
      obtain ⟨st', herr⟩ := hspec
      cases herr.symm.trans htrue
    | some entries =>
      rw [hentries] at hspec
      obtain ⟨st', hok, cells', hlist', -, hvals⟩ := hspec
      obtain rfl := Except.ok.inj (hok.symm.trans htrue)
      subst hfirst
      -- the list in memory is the one under construction
      obtain rfl := hlist.unique hlist'
      exact ⟨entries, rfl, by simpa using hvals⟩

/-- With memory, a file whose lines all have an entry is read as the list of these entries; it is
the null pointer when there is none. -/
theorem cfgRead_of_entries (heap : CfgHeap) {content : Bytes} {entries : List (Bytes × Int)}
    (h : (bufferLines content).mapM lineEntry = some entries) :
    ∃ cells, (cfgRead (fun _ => true) heap (some content)).2.IsList
        (cfgRead (fun _ => true) heap (some content)).1 cells ∧
      cells.map Prod.snd = entries.map freshItem := by
  have hspec := cfgReadLoop_spec (ReadState.holds_nil heap) 1 (fileBuffers content)
  rw [← bufferLines, h] at hspec
  obtain ⟨st, hok, cells, hlist, -, hvals⟩ := hspec
  have hread : cfgRead (fun _ => true) heap (some content) = (st.first, st.heap) := by
    simp only [cfgRead, hok]
  rw [hread]
  exact ⟨cells, hlist, by simpa using hvals⟩

/-- Every entry is that of a line, and every line has one. -/
theorem mem_of_mapM_lineEntry {lines : List Bytes} {entries : List (Bytes × Int)}
    (h : lines.mapM lineEntry = some entries) :
    (∀ e ∈ entries, ∃ line ∈ lines, lineEntry line = some e) ∧
      ∀ line ∈ lines, ∃ e ∈ entries, lineEntry line = some e := by
  induction lines generalizing entries with
  | nil =>
    obtain rfl := Option.some.inj h
    exact ⟨nofun, nofun⟩
  | cons line lines ih =>
    rw [List.mapM_cons] at h
    obtain ⟨e, he, h⟩ := Option.bind_eq_some_iff.mp h
    obtain ⟨rest, hrest, heq⟩ := Option.bind_eq_some_iff.mp h
    obtain rfl := Option.some.inj heq
    obtain ⟨hlines, hentries⟩ := ih hrest
    constructor
    · intro e' he'
      rcases List.mem_cons.mp he' with rfl | he'
      · exact ⟨line, List.mem_cons_self, he⟩
      · obtain ⟨line', hline', heq⟩ := hlines e' he'
        exact ⟨line', List.mem_cons_of_mem line hline', heq⟩
    · intro line' hline'
      rcases List.mem_cons.mp hline' with rfl | hline'
      · exact ⟨e, List.mem_cons_self, he⟩
      · obtain ⟨e', he', heq⟩ := hentries line' hline'
        exact ⟨e', List.mem_cons_of_mem e he', heq⟩

/-- Every entry of a list that `cfg_read` returns is plain. -/
theorem cfgRead_plain {callocOk : Nat → Bool} {heap : CfgHeap} {file : Option Bytes}
    {first : Option Nat} {cells : List (Nat × Cfgitem)}
    (hfirst : (cfgRead callocOk heap file).1 = first)
    (hlist : (cfgRead callocOk heap file).2.IsList first cells) (hne : first ≠ none) :
    ∀ c ∈ cells, c.2.Plain := by
  cases file with
  | none => exact absurd hfirst.symm hne
  | some content =>
    obtain ⟨entries, hentries, hvals⟩ := cfgRead_entries hfirst hlist hne
    intro c hc
    obtain ⟨e, he, hitem⟩ := List.mem_map.mp (hvals ▸ List.mem_map_of_mem hc)
    obtain ⟨line, hline, heq⟩ := (mem_of_mapM_lineEntry hentries).1 e he
    obtain ⟨buf, -, rfl⟩ := List.mem_map.mp (List.mem_filter.mp hline).1
    exact hitem ▸ plain_of_lineEntry heq

/-! ### The whole function -/

/-- Without NUL bytes and with lines that fit the buffer, the buffers are the lines. -/
theorem fileBuffers_eq_configLines {content : Bytes} (hnul : nul ∉ content)
    (hfit : ∀ line ∈ fileLines content, line.length ≤ 1022) :
    ((fileBuffers content).map fun buf => strippedLine (cstr buf)).filter (· ≠ []) =
      configLines content := by
  have hlines : fileBuffers content = fileLines content :=
    fgetsAll_eq_fileLines (by decide) hfit le_rfl
  rw [hlines, configLines]
  congr 1
  refine List.map_congr_left fun line hline => ?_
  rw [cstr_eq_self fun h => hnul (mem_of_mem_fileLines hline h)]

/-- A commented line, a blank one and two entries, one with a weight in hexadecimal. -/
def sampleConfig : Bytes :=
  ascii "# Format: <rbldomain> <weight>\n\nbl.spamcop.net\t\t70\n list.dsbl.org 0x19 # low\n"

/-- `cfg_read` accepts exactly the files whose lines are in the grammar, at least one of
them not empty, and returns their entries in order. -/
theorem cfgRead_iff_grammar (heap : CfgHeap) (content : Bytes) (hnul : nul ∉ content)
    (hfit : ∀ line ∈ fileLines content, line.length ≤ 1022) :
    ((cfgRead (fun _ => true) heap (some content)).1 ≠ none ↔
      configLines content ≠ [] ∧
        ∀ line ∈ configLines content, ∃ domain weight, IsEntry line domain weight) ∧
    ∀ first, (cfgRead (fun _ => true) heap (some content)).1 = some first →
      ∃ entries cells,
        List.Forall₂ (fun line e => IsEntry line e.1 e.2) (configLines content) entries ∧
        (cfgRead (fun _ => true) heap (some content)).2.IsList (some first) cells ∧
        cells.map Prod.snd = entries.map freshItem := by
  have hloop := cfgReadLoop_spec (ReadState.holds_nil heap) 1 (fileBuffers content)
  rw [fileBuffers_eq_configLines hnul hfit] at hloop
  cases hentries : (configLines content).mapM lineEntry with
  -- some line is not in the grammar
  | none =>
    rw [hentries] at hloop
    obtain ⟨st, herr⟩ := hloop
    have hresult : (cfgRead (fun _ => true) heap (some content)).1 = none := by
      simp only [cfgRead, herr]
    obtain ⟨line, hline, hbad⟩ := mapM_lineEntry_eq_none_iff.mp hentries
    refine ⟨⟨fun h => absurd hresult h, fun h => ?_⟩, fun first h => ?_⟩
    · obtain ⟨domain, weight, hentry⟩ := h.2 line hline
      exact absurd hentry (hbad domain weight)
    · rw [hresult] at h
      exact absurd h (by simp)
  -- all lines are in the grammar: the list is null exactly when there are none
  | some entries =>
    have hlines : (bufferLines content).mapM lineEntry = some entries := by
      rw [bufferLines, fileBuffers_eq_configLines hnul hfit, hentries]
    obtain ⟨cells, hlist, hvals⟩ := cfgRead_of_entries heap hlines
    have hall := mapM_lineEntry_eq_some_iff.mp hentries
    refine ⟨⟨fun hfirst => ⟨fun hempty => ?_, ?_⟩, fun h hnone => ?_⟩, fun first hfirst => ?_⟩
    -- no lines, no cells
    · rw [hempty, List.forall₂_nil_left_iff] at hall
      rw [hall] at hvals
      obtain rfl : cells = [] := by simpa using hvals
      exact hfirst hlist
    · intro line hline
      by_contra hbad
      have hnone := mapM_lineEntry_eq_none_iff.mpr
        ⟨line, hline, fun domain weight hentry => hbad ⟨domain, weight, hentry⟩⟩
      exact absurd (hentries.symm.trans hnone) (by simp)
    -- no cells, no lines
    · rw [hnone] at hlist
      rw [hlist.eq_nil] at hvals
      obtain rfl : entries = [] := by simpa using hvals.symm
      exact h.1 (List.forall₂_nil_right_iff.mp hall)
    · exact ⟨entries, cells, hall, hfirst ▸ hlist, by simpa using hvals⟩

/-- The sample file is read as its two entries. -/
theorem cfgRead_sampleConfig :
    nul ∉ sampleConfig ∧ (∀ line ∈ fileLines sampleConfig, line.length ≤ 1022) ∧
      configLines sampleConfig = [ascii "bl.spamcop.net\t\t70", ascii " list.dsbl.org 0x19"] ∧
      cfgRead (fun _ => true) Heap.empty (some sampleConfig) =
        (some 0, ⟨[some ⟨⟨ascii "bl.spamcop.net", 70, 0, 0⟩, some 1⟩,
          some ⟨⟨ascii "list.dsbl.org", 25, 0, 0⟩, none⟩]⟩) ∧
      (configLines sampleConfig ≠ [] ∧
        ∀ line ∈ configLines sampleConfig, ∃ domain weight, IsEntry line domain weight) := by
  have hnul : nul ∉ sampleConfig := by decide
  have hfit : ∀ line ∈ fileLines sampleConfig, line.length ≤ 1022 := by decide
  have hread : cfgRead (fun _ => true) Heap.empty (some sampleConfig) =
      (some 0, ⟨[some ⟨⟨ascii "bl.spamcop.net", 70, 0, 0⟩, some 1⟩,
        some ⟨⟨ascii "list.dsbl.org", 25, 0, 0⟩, none⟩]⟩) := by decide
  refine ⟨hnul, hfit, by decide, hread, ?_⟩
  exact (cfgRead_iff_grammar Heap.empty sampleConfig hnul hfit).1.mp (by rw [hread]; simp)

end Rblpolicyd
