import Rblpolicyd.Config.Grammar

/-!
# Lines that are longer than the buffer

`cfg_read` takes what `fgets` stores for a line. A line of more than 1022 bytes is stored in
pieces, and each piece is read as if it were a line: the `#` of an earlier piece is forgotten, and
so is an entry that an earlier piece has given. This file says for which files that makes no
difference.

## Main definitions

* `CfgError`, `cfgLineError` — the messages of `cfg_read`
* `LinesStayWhole` — what a comment and a line may do to the result
* `PiecesStayWhole` — the same for the text of a file in pieces of 1022 bytes

## Main results

* `fileBuffers_eq_cut` — the buffers of a file are the pieces of its lines
* `cfgReadLoop_ok_iff`, `cfgRead_contributed` — which files are read, and what the list is made of
* `linesStayWhole_iff` — when the lines of a file are read as lines
* `piecesStayWhole_of_fits` — lines that fit the buffer are
-/

namespace Rblpolicyd

open Libc

/-! ### The errors of a line -/

/-- The messages that `cfg_read` logs before it gives up. -/
inductive CfgError
  /-- "Premature end of line" -/
  | prematureEnd
  /-- "Out of memory" -/
  | outOfMemory
  /-- "argument is not numeric" -/
  | notNumeric
  /-- "argument is outside allowed range" -/
  | outsideRange
  deriving DecidableEq

/-- The message for one buffer. -/
def cfgLineError (callocOk : Bool) (buf : Bytes) : Option CfgError :=
  let line := cstr (cfgCleanline (buf ++ [nul]))
  if line = [] then none
  else
    let x := (scanDomain line []).1
    if x = [] then some .prematureEnd
    else if !callocOk then some .outOfMemory
    else
      let (weight, y) := strtol0 (x.dropWhile isspace)
      if y ≠ [] then some .notNumeric
      else if weight ≤ 0 ∨ weight > shrtMax then some .outsideRange
      else none

/-- A message is logged exactly when the loop gives up. -/
theorem cfgReadLine_error_iff (callocOk : Bool) (buf : Bytes) (st : ReadState) :
    (∃ st', cfgReadLine callocOk buf st = .error st') ↔
      ∃ e, cfgLineError callocOk buf = some e := by
  rw [cfgReadLine, cfgLineError]
  generalize cstr (cfgCleanline (buf ++ [nul])) = line
  obtain ⟨x, temp, hscan⟩ : ∃ x temp, scanDomain line [] = (x, temp) := ⟨_, _, rfl⟩
  obtain ⟨n, y, hnum⟩ : ∃ n y, strtol0 (x.dropWhile isspace) = (n, y) := ⟨_, _, rfl⟩
  simp only [hscan, hnum]
  split_ifs <;> simp

/-- A buffer whose text, cut at its comment and stripped, is empty. -/
def Blank (buf : Bytes) : Prop := strippedLine (cstr buf) = []

instance (buf : Bytes) : Decidable (Blank buf) := inferInstanceAs (Decidable (_ = _))

/-- A buffer that can be read as a line of the file: it is blank or names a blacklist. -/
def Readable (buf : Bytes) : Prop :=
  Blank buf ∨ ∃ domain weight, IsEntry (strippedLine (cstr buf)) domain weight

/-- The entry that a buffer names. -/
def bufferEntry (buf : Bytes) : Option (Bytes × Int) := lineEntry (strippedLine (cstr buf))

theorem readable_iff {buf : Bytes} : Readable buf ↔ Blank buf ∨ bufferEntry buf ≠ none := by
  rw [Readable, bufferEntry, Option.ne_none_iff_exists']
  simp only [Prod.exists, lineEntry_eq_some_iff]

theorem bufferEntry_of_blank {buf : Bytes} (h : Blank buf) : bufferEntry buf = none := by
  rw [Blank] at h
  rw [bufferEntry, h]
  rfl

/-- A readable buffer is refused only for want of memory, any other one always. -/
theorem cfgLineError_cases (callocOk : Bool) (buf : Bytes) :
    (Readable buf ∧ (cfgLineError callocOk buf = none ∨
        callocOk = false ∧ cfgLineError callocOk buf = some .outOfMemory)) ∨
      (¬ Readable buf ∧ ∃ e, cfgLineError callocOk buf = some e ∧
        (e = .outOfMemory → callocOk = false)) := by
  rw [readable_iff, Blank, bufferEntry, cfgLineError, cstr_cfgCleanline]
  generalize strippedLine (cstr buf) = line
  by_cases hline : line = []
  · simp [hline]
  obtain ⟨x, temp, hscan⟩ : ∃ x temp, scanDomain line [] = (x, temp) := ⟨_, _, rfl⟩
  obtain ⟨n, y, hnum⟩ : ∃ n y, strtol0 (x.dropWhile isspace) = (n, y) := ⟨_, _, rfl⟩
  simp only [lineEntry, hscan, hnum, hline, if_false]
  cases callocOk <;> simp only [Bool.not_true, Bool.not_false, Bool.false_eq_true, if_true,
    if_false] <;> split_ifs <;> simp

/-! ### The pieces of a file -/

/-- The pieces of the lines of a file, each as long as `fgets` makes it. -/
def filePieces (content : Bytes) : List Piece :=
  (fileLines content).flatMap (cut (maxline - 2))

/-- The buffers of a file are the pieces of its lines. -/
theorem fileBuffers_eq_cut (content : Bytes) :
    fileBuffers content = (filePieces content).map Piece.buf :=
  fgetsAll_eq_cut (by decide) le_rfl

/-- The loop gets through when every buffer is readable and there is memory. -/
theorem cfgReadLoop_ok_iff (heap : CfgHeap) (lineno : Nat) (bufs : List Bytes) :
    (∃ st, cfgReadLoop (fun _ => true) lineno bufs ⟨heap, none, none⟩ = .ok st) ↔
      ∀ buf ∈ bufs, Readable buf := by
  have hspec := cfgReadLoop_spec (ReadState.holds_nil heap) lineno bufs
  cases hentries : ((bufs.map fun buf => strippedLine (cstr buf)).filter (· ≠ [])).mapM
      lineEntry with
  | none =>
    rw [hentries] at hspec
    obtain ⟨st', herr⟩ := hspec
    obtain ⟨line, hline, hbad⟩ := mapM_lineEntry_eq_none_iff.mp hentries
    obtain ⟨hmem, hne⟩ := List.mem_filter.mp hline
    obtain ⟨buf, hbuf, rfl⟩ := List.mem_map.mp hmem
    constructor
    · rintro ⟨st, hok⟩
      cases herr.symm.trans hok
    · intro hall
      rcases hall buf hbuf with hblank | ⟨domain, weight, hentry⟩
      · exact absurd hblank (by simpa [Blank] using hne)
      · exact absurd hentry (hbad domain weight)
  | some entries =>
    rw [hentries] at hspec
    obtain ⟨st', hok, -⟩ := hspec
    refine iff_of_true ⟨st', hok⟩ ?_
    intro buf hbuf
    by_cases hblank : Blank buf
    · exact Or.inl hblank
    · apply Or.inr
      have hmem : strippedLine (cstr buf) ∈
          (bufs.map fun buf => strippedLine (cstr buf)).filter (· ≠ []) :=
        List.mem_filter.mpr ⟨List.mem_map_of_mem hbuf, by simpa [Blank] using hblank⟩
      obtain ⟨e, -, he⟩ := (mem_of_mapM_lineEntry hentries).2 _ hmem
      exact ⟨e.1, e.2, lineEntry_eq_some_iff.mp he⟩

/-- The entries of lines that all have one. -/
theorem filterMap_of_mapM {lines : List Bytes} {entries : List (Bytes × Int)}
    (h : lines.mapM lineEntry = some entries) : lines.filterMap lineEntry = entries := by
  induction lines generalizing entries with
  | nil => exact Option.some.inj h
  | cons line lines ih =>
    rw [List.mapM_cons] at h
    obtain ⟨e, he, h⟩ := Option.bind_eq_some_iff.mp h
    obtain ⟨rest, hrest, heq⟩ := Option.bind_eq_some_iff.mp h
    obtain rfl := Option.some.inj heq
    rw [List.filterMap_cons_some he, ih hrest]

/-- The list that `cfg_read` returns has the entries that the pieces of the file name. -/
theorem cfgRead_contributed {callocOk : Nat → Bool} {heap : CfgHeap} {content : Bytes}
    {first : Nat} {cells : List (Nat × Cfgitem)}
    (hfirst : (cfgRead callocOk heap (some content)).1 = some first)
    (hlist : (cfgRead callocOk heap (some content)).2.IsList (some first) cells) :
    cells.map Prod.snd =
      ((filePieces content).filterMap fun p => bufferEntry p.buf).map freshItem := by
  obtain ⟨entries, hentries, hvals⟩ := cfgRead_entries hfirst hlist (by simp)
  rw [hvals, ← filterMap_of_mapM hentries, bufferLines, fileBuffers_eq_cut]
  -- a blank buffer names no entry
  rw [List.filterMap_filter, List.map_map, List.filterMap_map]
  congr 1
  apply List.filterMap_congr
  intro p _
  by_cases hblank : Blank p.buf
  · rw [bufferEntry_of_blank hblank]
    exact if_neg (by simpa [Blank] using hblank)
  · exact if_pos (by simpa [Blank] using hblank)

/-- A list is returned only when every buffer is readable. -/
theorem readable_of_cfgRead {callocOk : Nat → Bool} {heap : CfgHeap} {content : Bytes}
    {first : Nat} (hfirst : (cfgRead callocOk heap (some content)).1 = some first) :
    ∀ p ∈ filePieces content, Readable p.buf := by
  intro p hp
  rw [cfgRead] at hfirst
  cases hloop : cfgReadLoop callocOk 1 (fileBuffers content) ⟨heap, none, none⟩ with
  | error st => simp [hloop] at hfirst
  | ok st =>
    apply (cfgReadLoop_ok_iff heap 1 _).mp ⟨st, cfgReadLoop_true hloop⟩
    rw [fileBuffers_eq_cut]
    exact List.mem_map_of_mem hp

/-- In a file whose buffers are all readable every line has an entry. -/
theorem exists_entries_of_readable {content : Bytes}
    (hall : ∀ buf ∈ fileBuffers content, Readable buf) :
    ∃ entries, (bufferLines content).mapM lineEntry = some entries := by
  rw [← Option.ne_none_iff_exists']
  intro hnone
  obtain ⟨line, hline, hbad⟩ := mapM_lineEntry_eq_none_iff.mp hnone
  obtain ⟨hmem, hne⟩ := List.mem_filter.mp hline
  obtain ⟨buf, hbuf, rfl⟩ := List.mem_map.mp hmem
  rcases hall buf hbuf with hblank | ⟨domain, weight, hentry⟩
  · exact of_decide_eq_true hne hblank
  · exact hbad domain weight hentry

/-- With memory, a file whose buffers are all readable and not all blank gives a list. -/
theorem exists_list_of_readable {content : Bytes}
    (hall : ∀ p ∈ filePieces content, Readable p.buf) {p : Piece} (hp : p ∈ filePieces content)
    (hne : ¬ Blank p.buf) :
    ∃ first cells, (cfgRead (fun _ => true) Heap.empty (some content)).1 = some first ∧
      (cfgRead (fun _ => true) Heap.empty (some content)).2.IsList (some first) cells := by
  have hreadable : ∀ buf ∈ fileBuffers content, Readable buf := by
    intro buf hbuf
    rw [fileBuffers_eq_cut] at hbuf
    obtain ⟨q, hq, rfl⟩ := List.mem_map.mp hbuf
    exact hall q hq
  obtain ⟨entries, hentries⟩ := exists_entries_of_readable hreadable
  obtain ⟨cells, hlist, hvals⟩ := cfgRead_of_entries Heap.empty hentries
  have hmem : strippedLine (cstr p.buf) ∈ bufferLines content := by
    refine List.mem_filter.mpr ⟨?_, by simpa [Blank] using hne⟩
    rw [fileBuffers_eq_cut, List.map_map]
    exact List.mem_map_of_mem (f := fun q : Piece => strippedLine (cstr q.buf)) hp
  obtain ⟨e, he, -⟩ := (mem_of_mapM_lineEntry hentries).2 _ hmem
  -- the list is not empty: it has the entry of `p`
  cases hfirst : (cfgRead (fun _ => true) Heap.empty (some content)).1 with
  | none =>
    rw [hfirst] at hlist
    rw [hlist.eq_nil] at hvals
    obtain rfl : entries = [] := by simpa using hvals.symm
    cases he
  | some first => exact ⟨first, cells, rfl, hfirst ▸ hlist⟩

/-! ### Lines that stay whole -/

/-- What `cfg_read` makes of the lines of a file, whichever allocations fail: a buffer behind the
first `#` of its line is never the one that a message about the text is for, and in a list that is
returned each line has at most one entry, from the text before its first `#`. -/
structure LinesStayWhole (content : Bytes) : Prop where
  /-- When the loop gives up on a piece for its text, there is no `#` before the piece. -/
  error : ∀ (callocOk : Nat → Bool) (heap : CfgHeap) read p rest st e,
    filePieces content = read ++ p :: rest →
    cfgReadLoop callocOk 1 (read.map Piece.buf) ⟨heap, none, none⟩ = .ok st →
    cfgLineError (callocOk (read.length + 1)) p.buf = some e → e ≠ .outOfMemory →
    hash ∉ p.before
  /-- The entries of a list, line by line. -/
  entries : ∀ (callocOk : Nat → Bool) (heap : CfgHeap) first cells,
    (cfgRead callocOk heap (some content)).1 = some first →
    (cfgRead callocOk heap (some content)).2.IsList (some first) cells →
    cells.map Prod.snd = ((fileLines content).flatMap fun line =>
      (cut (maxline - 2) line).filterMap fun p => bufferEntry p.buf).map freshItem ∧
    ∀ line ∈ fileLines content,
      (∀ p ∈ cut (maxline - 2) line, hash ∈ p.before → bufferEntry p.buf = none) ∧
      ((cut (maxline - 2) line).filterMap fun p => bufferEntry p.buf).length ≤ 1 ∧
      ∀ e ∈ (cut (maxline - 2) line).filterMap fun p => bufferEntry p.buf,
        ∃ text, text <:+: line.takeWhile (· ≠ hash) ∧ IsEntry text e.1 e.2

/-- The condition on the text of a file. The first piece that is neither blank nor an entry, if
there is one, has no `#` of its line before it. If there is none, each line has at most one piece
that is not blank, and no `#` before it. -/
structure PiecesStayWhole (content : Bytes) : Prop where
  unreadable : ∀ read p rest, filePieces content = read ++ p :: rest →
    (∀ q ∈ read, Readable q.buf) → ¬ Readable p.buf → hash ∉ p.before
  readable : (∀ p ∈ filePieces content, Readable p.buf) → ∀ line ∈ fileLines content,
    (∀ p ∈ cut (maxline - 2) line, hash ∈ p.before → Blank p.buf) ∧
    ((cut (maxline - 2) line).filter fun p => ¬ Blank p.buf).length ≤ 1

variable {content : Bytes}

theorem takeWhile_prefix_append (f : UInt8 → Bool) (s rest : Bytes) :
    s.takeWhile f <+: (s ++ rest).takeWhile f := by
  rw [List.takeWhile_append]
  split_ifs
  · exact (List.takeWhile_prefix f).trans (List.prefix_append s _)
  · exact List.prefix_rfl

/-- The entry of a piece that no `#` stands before is read from the text before the first `#` of
the line. -/
theorem text_of_bufferEntry {line : Bytes} {p : Piece} {e : Bytes × Int}
    (hp : p ∈ cut (maxline - 2) line) (hbefore : hash ∉ p.before)
    (he : bufferEntry p.buf = some e) :
    ∃ text, text <:+: line.takeWhile (· ≠ hash) ∧ IsEntry text e.1 e.2 := by
  refine ⟨strippedLine (cstr p.buf), ?_, lineEntry_eq_some_iff.mp he⟩
  obtain ⟨rest, rfl⟩ := eq_of_mem_cut hp
  have hclean : ∀ b ∈ p.before, decide (b ≠ hash) = true := by
    intro b hb
    simpa using fun h : b = hash => hbefore (h ▸ hb)
  -- stripping and cutting at a NUL only take bytes off the end
  obtain ⟨tail, htail⟩ : cstr p.buf <+: p.buf := List.takeWhile_prefix _
  have hstripped : strippedLine (cstr p.buf) <+: (p.buf ++ rest).takeWhile (· ≠ hash) := by
    apply (List.rdropWhile_prefix _ _).trans
    apply (takeWhile_prefix_append _ _ (tail ++ rest)).trans
    rw [← List.append_assoc, htail]
  obtain ⟨more, hmore⟩ := hstripped
  refine ⟨p.before, more, ?_⟩
  rw [List.append_assoc, hmore, List.append_assoc, List.takeWhile_append_of_pos hclean]

/-- Among readable pieces, as many name an entry as are not blank. -/
theorem length_filterMap_bufferEntry {pieces : List Piece}
    (hall : ∀ p ∈ pieces, Readable p.buf) :
    (pieces.filterMap fun p => bufferEntry p.buf).length =
      (pieces.filter fun p => ¬ Blank p.buf).length := by
  induction pieces with
  | nil => rfl
  | cons p pieces ih =>
    have hrest := ih fun q hq => hall q (List.mem_cons_of_mem p hq)
    by_cases hblank : Blank p.buf
    · rw [List.filterMap_cons_none (f := fun p : Piece => bufferEntry p.buf)
        (bufferEntry_of_blank hblank), List.filter_cons_of_neg (by simpa using hblank)]
      exact hrest
    · have hentry := (readable_iff.mp (hall p List.mem_cons_self)).resolve_left hblank
      obtain ⟨e, he⟩ := Option.ne_none_iff_exists'.mp hentry
      rw [List.filterMap_cons_some (f := fun p : Piece => bufferEntry p.buf) he,
        List.filter_cons_of_pos (by simpa using hblank), List.length_cons, List.length_cons, hrest]

theorem mem_filePieces {line : Bytes} (hline : line ∈ fileLines content) {p : Piece}
    (hp : p ∈ cut (maxline - 2) line) : p ∈ filePieces content :=
  List.mem_flatMap.mpr ⟨line, hline, hp⟩

/-- With memory, the result of a file tells of each piece that decides it. -/
theorem LinesStayWhole.pieces (h : LinesStayWhole content) : PiecesStayWhole content := by
  constructor
  -- the loop gets to the first piece that is not readable, and gives up there
  · intro read p rest hpieces hread hbad
    have hbufs : ∀ buf ∈ read.map Piece.buf, Readable buf := by
      intro buf hbuf
      obtain ⟨q, hq, rfl⟩ := List.mem_map.mp hbuf
      exact hread q hq
    obtain ⟨st, hok⟩ := (cfgReadLoop_ok_iff Heap.empty 1 _).mpr hbufs
    rcases cfgLineError_cases true p.buf with ⟨hgood, -⟩ | ⟨-, e, herror, hmemory⟩
    · exact absurd hgood hbad
    · apply h.error (fun _ => true) Heap.empty read p rest st e hpieces hok herror
      intro he
      cases hmemory he
  -- a file without such a piece gives a list, unless all of it is blank
  · intro hall line hline
    by_cases hblank : ∀ p ∈ cut (maxline - 2) line, Blank p.buf
    · refine ⟨fun p hp _ => hblank p hp, ?_⟩
      rw [List.filter_eq_nil_iff.mpr fun p hp => by simpa using hblank p hp]
      exact Nat.zero_le 1
    · push Not at hblank
      obtain ⟨p, hp, hne⟩ := hblank
      obtain ⟨first, cells, hfirst, hlist⟩ :=
        exists_list_of_readable hall (mem_filePieces hline hp) hne
      obtain ⟨hcomment, hone, -⟩ :=
        (h.entries (fun _ => true) Heap.empty first cells hfirst hlist).2 line hline
      have hreadable : ∀ q ∈ cut (maxline - 2) line, Readable q.buf :=
        fun q hq => hall q (mem_filePieces hline hq)
      constructor
      · intro q hq hbefore
        by_contra hq'
        have hentry := (readable_iff.mp (hreadable q hq)).resolve_left hq'
        exact hentry (hcomment q hq hbefore)
      · rwa [← length_filterMap_bufferEntry hreadable]

/-- Under the condition a message is for a piece that is not readable, and a list is returned
only when there is none. -/
theorem PiecesStayWhole.lines (h : PiecesStayWhole content) : LinesStayWhole content := by
  constructor
  · intro callocOk heap read p rest st e hpieces hok herror hmemory
    have hread := (cfgReadLoop_ok_iff heap 1 _).mp ⟨st, cfgReadLoop_true hok⟩
    apply h.unreadable read p rest hpieces
    · intro q hq
      exact hread q.buf (List.mem_map_of_mem hq)
    · rcases cfgLineError_cases (callocOk (read.length + 1)) p.buf with
        ⟨-, hnone | ⟨-, hout⟩⟩ | ⟨hbad, -⟩
      · cases hnone.symm.trans herror
      · exact absurd (Option.some.inj (herror.symm.trans hout)) hmemory
      · exact hbad
  · intro callocOk heap first cells hfirst hlist
    have hall := readable_of_cfgRead hfirst
    constructor
    · rw [cfgRead_contributed hfirst hlist, filePieces, List.filterMap_flatMap]
    · intro line hline
      obtain ⟨hcomment, hone⟩ := h.readable hall line hline
      have hnone : ∀ p ∈ cut (maxline - 2) line, hash ∈ p.before → bufferEntry p.buf = none :=
        fun p hp hbefore => bufferEntry_of_blank (hcomment p hp hbefore)
      refine ⟨hnone, ?_, ?_⟩
      · rwa [length_filterMap_bufferEntry fun q hq => hall q (mem_filePieces hline hq)]
      · intro e he
        obtain ⟨p, hp, hentry⟩ := List.mem_filterMap.mp he
        apply text_of_bufferEntry hp _ hentry
        intro hbefore
        cases (hnone p hp hbefore).symm.trans hentry

/-- The lines of a file are read as lines exactly when the pieces of its text stay whole. -/
theorem linesStayWhole_iff (content : Bytes) :
    LinesStayWhole content ↔ PiecesStayWhole content :=
  ⟨LinesStayWhole.pieces, PiecesStayWhole.lines⟩

/-- Lines that fit the buffer always stay whole. -/
theorem piecesStayWhole_of_fits (hfit : ∀ line ∈ fileLines content, line.length ≤ maxline - 2) :
    PiecesStayWhole content := by
  have hcut : ∀ line ∈ fileLines content, ∀ p ∈ cut (maxline - 2) line,
      cut (maxline - 2) line = [p] ∧ p.before = [] := by
    intro line hline p hp
    by_cases hne : line = []
    · rw [hne, cut_nil] at hp
      cases hp
    · rw [cut_of_fits hne (hfit line hline)] at hp ⊢
      obtain rfl := List.mem_singleton.mp hp
      exact ⟨rfl, rfl⟩
  constructor
  · intro read p rest hpieces _ _
    have hp : p ∈ filePieces content := by simp [hpieces]
    obtain ⟨line, hline, hp⟩ := List.mem_flatMap.mp hp
    simp [(hcut line hline p hp).2]
  · intro _ line hline
    constructor
    · intro p hp hbefore
      simp [(hcut line hline p hp).2] at hbefore
    · refine (List.length_filter_le _ _).trans ?_
      by_cases hne : line = []
      · simp [hne]
      · simp [cut_of_fits hne (hfit line hline)]

/-- A comment of 1026 bytes, with its newline. -/
def longComment : Bytes := hash :: List.replicate 1021 46 ++ ascii "x 5\n"

/-- The end of the long comment is read as an entry. -/
theorem longComment_not_whole : ¬ LinesStayWhole longComment := by
  intro h
  have hread : cfgRead (fun _ => true) Heap.empty (some longComment) =
      (some 0, ⟨[some ⟨⟨ascii "x", 5, 0, 0⟩, none⟩]⟩) := by decide +kernel
  have hlist : (cfgRead (fun _ => true) Heap.empty (some longComment)).2.IsList (some 0)
      [(0, ⟨ascii "x", 5, 0, 0⟩)] := by
    rw [hread]
    exact ⟨rfl, none, rfl, rfl⟩
  obtain ⟨-, hlines⟩ := h.entries (fun _ => true) Heap.empty 0 _ (by rw [hread]) hlist
  have hline : longComment ∈ fileLines longComment := by decide +kernel
  have hpiece : ∃ p ∈ cut (maxline - 2) longComment,
      hash ∈ p.before ∧ bufferEntry p.buf ≠ none := by decide +kernel
  obtain ⟨p, hp, hbefore, hentry⟩ := hpiece
  exact hentry ((hlines longComment hline).1 p hp hbefore)

end Rblpolicyd
