import Rblpolicyd.Options.Getopt

/-!
# What one call of `getopt` does to the command line

Apart from the order in which they stand, a scan keeps three lists: the option
elements it has passed, with their arguments, the non-options it has skipped, and the
elements it has not looked at. The array holds the skipped ones somewhere inside the
passed ones; a call moves them, and what it returns depends on the rest alone. Only the
search for `-W` options can leave the array, so the option string is without it.

## Main definitions

* `Scanner`, `Scanner.next` — the three lists, and one call on them
* `ArgvLayout`, `Scans` — where the three lists are in the array

## Main results

* `decode_moves` — decoding passes elements that are there, or stays in its own
* `scans_next` — a call on the array is a call on the three lists
-/

namespace Rblpolicyd

open Libc

/-! ### What decoding passes -/

theorem strchr_head {s t : Bytes} {b c : UInt8} (h : strchr s c = some (b :: t)) : b = c := by
  induction s with
  | nil => simp [strchr] at h
  | cons d s ih =>
    rw [strchr] at h
    split_ifs at h with hd
    · injection h with h
      injection h with hb
      exact hb.symm.trans hd
    · exact ih h

/-- The caller's options have no `W;`, the one entry that looks at a second table. -/
def GetoptCall.NoW (call : GetoptCall) : Prop := argKind call.optstring 87 ≠ .long

theorem eq_of_argKind_long {optstring : Bytes} {c : UInt8} (h : argKind optstring c = .long) :
    c = 87 := by
  unfold argKind at h
  split_ifs at h
  split at h <;> try contradiction
  rename_i htemp
  exact (strchr_head htemp).symm

/-- Decoding either goes on in its element, at the next character and without having
passed anything, or is done with it and has passed it, with the argument at most. -/
structure Decoded.Moves (d : Decoded) (cs : Bytes) (behind : List Bytes) : Prop where
  stays_or_passes : cs ≠ [] ∧ d.nextchar = some cs ∧ d.passed = 0 ∨
    d.nextchar.getD [] = [] ∧ 1 ≤ d.passed
  passed_le : d.passed ≤ 1 + behind.length

variable {call : GetoptCall} {element cs : Bytes} {c : UInt8} {behind : List Bytes}

theorem acceptLong_moves (i : Nat) (p : LongOption) (optarg : Option Bytes) {passed : Nat}
    (hpos : 1 ≤ passed) (hle : passed ≤ 1 + behind.length) :
    (acceptLong i p optarg passed).Moves cs behind :=
  ⟨Or.inr ⟨rfl, hpos⟩, hle⟩

theorem rejectLong_moves (code optopt : Int) (text : Bytes) :
    (rejectLong call code optopt text).Moves cs behind :=
  ⟨Or.inr ⟨rfl, Nat.le_refl 1⟩, Nat.le_add_right 1 _⟩

theorem foundLong_moves (i : Nat) (p : LongOption) (nameend : Bytes) :
    (foundLong call i p element nameend behind).Moves cs behind := by
  unfold foundLong
  split
  · split_ifs
    · exact acceptLong_moves _ _ _ (Nat.le_refl 1) (Nat.le_add_right 1 _)
    · apply rejectLong_moves
  · split_ifs
    · split
      · exact acceptLong_moves _ _ _ (by omega) (by rw [List.length_cons]; omega)
      · apply rejectLong_moves
    · exact acceptLong_moves _ _ _ (Nat.le_refl 1) (Nat.le_add_right 1 _)

/-- Every way to take an element as a long option is done with it. -/
theorem decodeLong_moves {longopts : List LongOption} {nextchar : Bytes} {d : Decoded}
    (h : decodeLong call longopts element nextchar behind = some d) : d.Moves cs behind := by
  unfold decodeLong at h
  simp only at h
  split at h
  · obtain rfl := Option.some.inj h
    apply rejectLong_moves
  · split at h
    · obtain rfl := Option.some.inj h
      apply foundLong_moves
    · split_ifs at h
      obtain rfl := Option.some.inj h
      apply rejectLong_moves

theorem decodeShort_moves (hw : call.NoW) :
    (decodeShort call element c cs behind).Moves cs behind := by
  have hstay : ∀ {d : Decoded}, d.nextchar = some cs → d.passed = (if cs = [] then 1 else 0) →
      d.Moves cs behind := by
    intro d hnext hpassed
    by_cases hcs : cs = []
    · rw [if_pos hcs] at hpassed
      exact ⟨Or.inr ⟨by simp [hnext, hcs], by omega⟩, by omega⟩
    · rw [if_neg hcs] at hpassed
      exact ⟨Or.inl ⟨hcs, hnext, hpassed⟩, by omega⟩
  have hlong : argKind call.optstring c ≠ .long := by
    intro h
    obtain rfl := eq_of_argKind_long h
    exact hw h
  unfold decodeShort
  split
  · exact hstay rfl rfl
  · exact hstay rfl rfl
  · exact ⟨Or.inr ⟨rfl, Nat.le_refl 1⟩, Nat.le_add_right 1 _⟩
  · exact ⟨Or.inr ⟨rfl, Nat.le_refl 1⟩, Nat.le_add_right 1 _⟩
  · exact ⟨Or.inr ⟨rfl, by simp⟩, by simp only [List.length_cons]; omega⟩
  · exact ⟨Or.inr ⟨rfl, Nat.le_refl 1⟩, Nat.le_add_right 1 _⟩
  -- `W` followed by `;` is not among the options
  all_goals exact absurd ‹argKind call.optstring c = .long› hlong

theorem decode_moves (hw : call.NoW) : (decode call element c cs behind).Moves cs behind := by
  unfold decode
  simp only
  cases hlong : call.longopts with
  | none => exact decodeShort_moves hw
  | some longopts =>
    simp only [Option.bind_some]
    split_ifs with hdash
    · cases hd : decodeLong call longopts element (c :: cs) behind with
      | none => exact decodeShort_moves hw
      | some d => exact decodeLong_moves hd
    · exact decodeShort_moves hw

/-! ### A call on the three lists -/

/-- The elements passed, skipped and not yet looked at; `nextchar` is empty between two
option elements. -/
structure Scanner where
  options : List Bytes
  skipped : List Bytes
  rest : List Bytes
  nextchar : Bytes

namespace Scanner

/-- The elements that decoding has passed are options now. -/
def move (a : Scanner) (d : Decoded) : Scanner :=
  { a with
    options := a.options ++ a.rest.take d.passed
    rest := a.rest.drop d.passed
    nextchar := d.nextchar.getD [] }

/-- Under `PERMUTE` the non-options in front of the rest are skipped. -/
def skip (ordering : ArgOrdering) (a : Scanner) : Scanner :=
  if ordering = .permute then
    { a with
      skipped := a.skipped ++ a.rest.takeWhile nonoption
      rest := a.rest.dropWhile nonoption }
  else a

/-- The next element is decoded from `nextchar` on. -/
def decodeFrom (call : GetoptCall) (a : Scanner) : Bytes → Option Decoded × Scanner
  | [] => (none, a)
  | c :: cs =>
    let d := decode call (a.rest.headD []) c cs a.rest.tail
    (some d, a.move d)

/-- The scan goes on with the next element; no result at its end. -/
def nextElement (call : GetoptCall) (ordering : ArgOrdering) (a : Scanner) :
    Option Decoded × Scanner :=
  match a.rest with
  | [] => (none, a)
  | element :: behind =>
    if element = ascii "--" then
      (none, { a with
        options := a.options ++ [element]
        skipped := a.skipped ++ behind
        rest := [] })
    else if nonoption element then
      if ordering = .requireOrder then (none, a)
      else
        let d : Decoded := { code := 1, optarg := some element, passed := 1, nextchar := none }
        (some d, a.move d)
    else
      let marks := if call.longopts.isSome ∧ element[1]? = some 45 then 2 else 1
      a.decodeFrom call (element.drop marks)

/-- One call. -/
def next (call : GetoptCall) (ordering : ArgOrdering) (a : Scanner) : Option Decoded × Scanner :=
  if a.nextchar = [] then (a.skip ordering).nextElement call ordering
  else a.decodeFrom call a.nextchar

end Scanner

/-! ### The three lists in the array -/

/-- Where the lists are: the skipped elements stand inside the passed ones, which are
`front` and `tail`. -/
structure ArgvLayout (prog : Bytes) (s : GetoptState) (front skipped tail rest : List Bytes) :
    Prop where
  argv : s.argv = prog :: (front ++ skipped ++ tail ++ rest)
  first : s.firstNonopt = 1 + front.length
  last : s.lastNonopt = s.firstNonopt + skipped.length
  optind : s.optind = s.lastNonopt + tail.length

variable {prog : Bytes} {s : GetoptState} {front skipped tail rest : List Bytes}

namespace ArgvLayout

theorem length (h : ArgvLayout prog s front skipped tail rest) :
    s.argv.length = s.optind + rest.length := by
  rw [h.argv, h.optind, h.last, h.first]
  simp only [List.length_cons, List.length_append]
  omega

theorem optind_eq (h : ArgvLayout prog s front skipped tail rest) :
    s.optind = (prog :: (front ++ skipped ++ tail)).length := by
  rw [h.optind, h.last, h.first]
  simp only [List.length_cons, List.length_append]
  omega

/-- What stands at `optind` and behind it has not been looked at. -/
theorem drop_eq (h : ArgvLayout prog s front skipped tail rest) :
    s.argv.drop s.optind = rest := by
  rw [h.argv, h.optind_eq]
  exact List.drop_left

theorem getElem?_optind (h : ArgvLayout prog s front skipped tail rest) :
    s.argv[s.optind]? = rest.head? := by
  have hhead := congrArg List.head? h.drop_eq
  rwa [List.head?_drop] at hhead

theorem drop_succ (h : ArgvLayout prog s front skipped tail rest) :
    s.argv.drop (s.optind + 1) = rest.tail := by
  rw [← List.tail_drop, h.drop_eq]

theorem clamp (h : ArgvLayout prog s front skipped tail rest) : clampNonopts s = s := by
  have hlast := h.last
  have hoptind := h.optind
  have hlast' : ¬ s.optind < s.lastNonopt := by omega
  have hfirst' : ¬ s.optind < s.firstNonopt := by omega
  simp only [clampNonopts, hlast', hfirst', if_false]

/-- The options behind the skipped elements come in front of them. -/
theorem exchanged (h : ArgvLayout prog s front skipped tail rest) :
    ArgvLayout prog (exchange s) (front ++ tail) skipped [] rest := by
  have hfirst := h.first
  have hlast := h.last
  have hoptind := h.optind
  constructor
  · have hrotate : rotateBlocks (s.optind - s.firstNonopt)
        ((prog :: front) ++ skipped ++ tail ++ rest) s.firstNonopt s.lastNonopt s.optind =
          (prog :: front) ++ tail ++ skipped ++ rest := by
      apply rotateBlocks_append
      · omega
      · rw [List.length_cons]
        omega
      · exact h.last
      · exact h.optind
    simp only [exchange, h.argv]
    simpa using hrotate
  · simp only [exchange, List.length_append]
    omega
  · simp only [exchange]
    omega
  · simp [exchange]

/-- What is passed goes to the end of the options. -/
theorem passed (h : ArgvLayout prog s front skipped tail rest) {s' : GetoptState} {n : Nat}
    (hn : n ≤ rest.length) (hargv : s'.argv = s.argv) (hfirst : s'.firstNonopt = s.firstNonopt)
    (hlast : s'.lastNonopt = s.lastNonopt) (hoptind : s'.optind = s.optind + n) :
    ArgvLayout prog s' front skipped (tail ++ rest.take n) (rest.drop n) := by
  constructor
  · rw [hargv, h.argv]
    simp
  · rw [hfirst, h.first]
  · rw [hlast, hfirst, h.last]
  · rw [hoptind, hlast, h.optind, List.length_append, List.length_take, Nat.min_eq_left hn]
    omega

/-- The skipped elements lie in front of the rest, with the non-options there added. -/
theorem skip (h : ArgvLayout prog s front skipped tail rest) :
    ArgvLayout prog (skipNonopts s) (front ++ tail) (skipped ++ rest.takeWhile nonoption) []
      (rest.dropWhile nonoption) := by
  have hlast := h.last
  have hoptind := h.optind
  -- the options behind the skipped elements are brought in front of them
  have hmoved : ∃ s₁ : GetoptState, s₁.argv = prog :: (front ++ tail ++ skipped ++ rest) ∧
      s₁.firstNonopt = 1 + (front ++ tail).length ∧
      s₁.optind = s₁.firstNonopt + skipped.length ∧
      skipNonopts s = { s₁ with
        optind := s₁.optind + ((s₁.argv.drop s₁.optind).takeWhile nonoption).length
        lastNonopt := s₁.optind + ((s₁.argv.drop s₁.optind).takeWhile nonoption).length } := by
    unfold skipNonopts
    by_cases hboth : s.firstNonopt ≠ s.lastNonopt ∧ s.lastNonopt ≠ s.optind
    · rw [if_pos hboth]
      have hex := h.exchanged
      refine ⟨exchange s, by simpa using hex.argv, hex.first, ?_, rfl⟩
      rw [hex.optind, hex.last, List.length_nil, Nat.add_zero]
    · rw [if_neg hboth]
      by_cases htail : s.lastNonopt ≠ s.optind
      · rw [if_pos htail]
        have hnil : skipped = [] := List.eq_nil_of_length_eq_zero (by omega)
        refine ⟨{ s with firstNonopt := s.optind }, ?_, ?_, ?_, rfl⟩
        · simpa [hnil] using h.argv
        · simp only [hoptind, hlast, h.first, hnil, List.length_append, List.length_nil]
          omega
        · simp [hnil]
      · rw [if_neg htail]
        have hnil : tail = [] := List.eq_nil_of_length_eq_zero (by omega)
        refine ⟨s, ?_, ?_, ?_, rfl⟩
        · simpa [hnil] using h.argv
        · simpa [hnil] using h.first
        · omega
  obtain ⟨s₁, hargv, hfirst, hind, heq⟩ := hmoved
  have hdrop : s₁.argv.drop s₁.optind = rest := by
    have hlen : s₁.optind = (prog :: (front ++ tail ++ skipped)).length := by
      rw [hind, hfirst]
      simp only [List.length_cons, List.length_append]
      omega
    rw [hargv, hlen]
    exact List.drop_left
  rw [heq, hdrop]
  constructor
  · simp [hargv]
  · exact hfirst
  · simp only [List.length_append]
    omega
  · simp

/-- Behind `--` everything counts as skipped, and the mark itself as an option. -/
theorem ended {mark : Bytes} (h : ArgvLayout prog s front skipped tail (mark :: rest)) :
    (endOptions s).argv = prog :: (front ++ tail ++ [mark] ++ skipped ++ rest) ∧
      (endOptions s).firstNonopt = 1 + (front ++ tail ++ [mark]).length ∧
      (endOptions s).lastNonopt = (endOptions s).argv.length ∧
      (endOptions s).optind = (endOptions s).argv.length := by
  have hpassed : ArgvLayout prog { s with optind := s.optind + 1 } front skipped
      (tail ++ [mark]) rest :=
    h.passed (n := 1) (by simp) rfl rfl rfl rfl
  have hlast := h.last
  have hoptind := h.optind
  unfold endOptions
  by_cases hskipped : skipped = []
  · have hfirst : s.firstNonopt = s.lastNonopt := by rw [hlast, hskipped]; rfl
    simp only [hfirst, ne_eq, not_true_eq_false, false_and, if_false, if_true]
    refine ⟨?_, ?_, trivial, trivial⟩
    · simpa [hskipped] using h.argv
    · simp only [List.length_append, List.length_singleton]
      have hh := h.first
      omega
  · have hpos : 0 < skipped.length := List.length_pos_iff.mpr hskipped
    have hboth : s.firstNonopt ≠ s.lastNonopt ∧ s.lastNonopt ≠ s.optind + 1 := by
      constructor <;> omega
    simp only
    rw [if_pos hboth]
    have hex := hpassed.exchanged
    exact ⟨by simpa using hex.argv, by simpa using hex.first, trivial, trivial⟩

end ArgvLayout

/-- What decoding refers to once the first call was made. -/
def GetoptArgs.toCall (args : GetoptArgs) (prog : Bytes) : GetoptCall :=
  { optstring := args.optstring
    longopts := args.longopts
    longOnly := args.longOnly
    printErrors := args.opterr && args.optstring[0]? != some 58
    posixlyCorrect := args.posixlyCorrect
    prog := prog }

/-- A scan between two calls: the first call was made, and the lists are in the array;
elements are skipped under `PERMUTE` only. -/
structure Scans (args : GetoptArgs) (prog : Bytes) (s : GetoptState) (a : Scanner) : Prop where
  initialized : s.initialized = true
  posix : s.posixlyCorrect = args.posixlyCorrect
  lists : ∃ front tail, a.options = front ++ tail ∧
    ArgvLayout prog s front a.skipped tail a.rest
  nextchar : s.nextchar.getD [] = a.nextchar
  inside : a.nextchar ≠ [] → a.rest ≠ []
  unskipped : s.ordering ≠ .permute → a.skipped = []

/-- A scan that has returned -1: the options come first, and `optind` is behind them. -/
structure Finished (prog : Bytes) (s : GetoptState) (a : Scanner) : Prop where
  argv : s.argv = prog :: (a.options ++ (a.skipped ++ a.rest))
  optind : s.optind = 1 + a.options.length

variable {args : GetoptArgs} {a : Scanner}

/-- The state in front of the next element: the non-options are skipped under `PERMUTE`. -/
def advanced (s : GetoptState) : GetoptState :=
  if s.ordering = .permute then skipNonopts s else s

theorem advanced_frame (s : GetoptState) :
    (advanced s).initialized = s.initialized ∧
      (advanced s).posixlyCorrect = s.posixlyCorrect ∧
      (advanced s).nextchar = s.nextchar ∧ (advanced s).ordering = s.ordering := by
  unfold advanced skipNonopts
  simp only
  split_ifs <;> exact ⟨rfl, rfl, rfl, rfl⟩

namespace Scans

/-- Decoding an element moves what it has passed to the options. -/
theorem apply (h : Scans args prog s a) {d : Decoded} {element cs : Bytes} {behind : List Bytes}
    (hrest : a.rest = element :: behind) (hd : d.Moves cs behind) :
    Scans args prog (d.apply s).2 (a.move d) := by
  obtain ⟨front, tail, hoptions, hlayout⟩ := h.lists
  have hle : d.passed ≤ a.rest.length := by
    have hpassed := hd.passed_le
    rw [hrest, List.length_cons]
    omega
  refine ⟨h.initialized, h.posix, ⟨front, tail ++ a.rest.take d.passed, ?_, ?_⟩, rfl, ?_,
    h.unskipped⟩
  · simp only [Scanner.move, hoptions, List.append_assoc]
  · exact hlayout.passed hle rfl rfl rfl rfl
  · -- a character is left of an element that was not passed
    intro hnext
    rcases hd.stays_or_passes with ⟨-, -, hzero⟩ | ⟨hnil, -⟩
    · simp [Scanner.move, hzero, hrest]
    · exact absurd hnil hnext

/-- Under `PERMUTE` the options move to the front, and non-options are skipped. -/
theorem skip (h : Scans args prog s a) :
    ∃ front tail, (a.skip s.ordering).options = front ++ tail ∧
      ArgvLayout prog (advanced s) front (a.skip s.ordering).skipped tail
        (a.skip s.ordering).rest ∧
      ((a.skip s.ordering).skipped = [] ∨ tail = []) := by
  obtain ⟨front, tail, hoptions, hlayout⟩ := h.lists
  by_cases hperm : s.ordering = .permute
  · refine ⟨front ++ tail, [], ?_, ?_, Or.inr rfl⟩
    · simp [Scanner.skip, hperm, hoptions]
    · simpa [advanced, Scanner.skip, hperm] using hlayout.skip
  · refine ⟨front, tail, ?_, ?_, ?_⟩
    · simpa [Scanner.skip, hperm] using hoptions
    · simpa [advanced, Scanner.skip, hperm] using hlayout
    · exact Or.inl (by simpa [Scanner.skip, hperm] using h.unskipped hperm)

end Scans

/-- What a call returns and leaves, as far as the lists say: a decoded element, or the end. -/
def Answers (args : GetoptArgs) (prog : Bytes) (ordering : ArgOrdering) (r : Int × GetoptState) :
    Option Decoded × Scanner → Prop
  | (some d, b) =>
    r.1 = d.code ∧ r.2.optarg = d.optarg ∧ r.2.ordering = ordering ∧ Scans args prog r.2 b
  | (none, b) => r.1 = -1 ∧ Finished prog r.2 b

/-- A character of an option element is decoded, with what stands behind the element. -/
theorem Scans.decodeFrom (h : Scans args prog s a) (hw : (args.toCall prog).NoW)
    {c : UInt8} {cs : Bytes} (hnext : a.nextchar = c :: cs) :
    Answers args prog s.ordering
      ((decode (args.toCall prog) (a.rest.headD []) c cs a.rest.tail).apply s)
      (a.decodeFrom (args.toCall prog) (c :: cs)) := by
  obtain ⟨element, behind, hrest⟩ : ∃ element behind, a.rest = element :: behind :=
    List.exists_cons_of_ne_nil (h.inside (by simp [hnext]))
  have hmoves : (decode (args.toCall prog) (a.rest.headD []) c cs a.rest.tail).Moves cs
      behind := by
    rw [hrest]
    exact decode_moves hw
  exact ⟨rfl, rfl, rfl, h.apply hrest hmoves⟩

/-! ### The element at `optind` -/

/-- The scan is at its end when no element is left. -/
theorem ArgvLayout.takeElement_nil (h : ArgvLayout prog s front skipped tail [])
    (hapart : skipped = [] ∨ tail = []) (args : GetoptArgs) :
    (takeElement args s).1 = some (-1) ∧
      Finished prog (takeElement args s).2 ⟨front ++ tail, skipped, [], []⟩ := by
  have hlength : s.optind = s.argv.length := by rw [h.length]; simp
  have hfirst := h.first
  have hlast := h.last
  have hoptind := h.optind
  unfold takeElement
  simp only [hlength, ne_eq, not_true_eq_false, false_and, if_false, if_true, true_and]
  constructor
  · split_ifs <;> rcases hapart with hnil | hnil <;> simp [h.argv, hnil]
  · split_ifs with hsame
    · simp only [List.length_append]
      omega
    · have htail : tail.length = 0 := by
        rcases hapart with hnil | hnil
        · exact absurd (by rw [hlast, hnil]; rfl) hsame
        · rw [hnil]; rfl
      simp only [List.length_append]
      omega

/-- The element `--` ends the scan: it is passed, and what stands behind it is not. -/
theorem ArgvLayout.takeElement_end
    (h : ArgvLayout prog s front skipped tail (ascii "--" :: rest)) (args : GetoptArgs) :
    (takeElement args s).1 = some (-1) ∧
      Finished prog (takeElement args s).2
        ⟨front ++ tail ++ [ascii "--"], skipped ++ rest, [], []⟩ := by
  have hdash : s.optind ≠ s.argv.length ∧ s.argv[s.optind]?.getD [] = ascii "--" := by
    constructor
    · rw [h.length, List.length_cons]
      omega
    · rw [h.getElem?_optind]
      rfl
  obtain ⟨hargv, hfirst, hlast, hoptind⟩ := h.ended
  unfold takeElement
  simp only [if_pos hdash, if_pos hoptind, true_and]
  constructor
  · split_ifs <;> simp [hargv]
  · split_ifs with hsame
    · exact hfirst
    · rw [hoptind, ← hlast, ← not_not.mp hsame]
      exact hfirst

/-- Every other element is described by its own text. -/
theorem ArgvLayout.takeElement_cons {element : Bytes}
    (h : ArgvLayout prog s front skipped tail (element :: rest)) (hdash : element ≠ ascii "--")
    (args : GetoptArgs) :
    takeElement args s =
      if nonoption element then
        if s.ordering = .requireOrder then (some (-1), s)
        else (some 1, { s with optarg := some element, optind := s.optind + 1 })
      else
        let marks := if args.longopts.isSome ∧ element[1]? = some 45 then 2 else 1
        (none, { s with nextchar := some (element.drop marks) }) := by
  have hget : s.argv[s.optind]?.getD [] = element := by
    rw [h.getElem?_optind]
    rfl
  have hlength : s.optind ≠ s.argv.length := by
    rw [h.length, List.length_cons]
    omega
  simp only [takeElement, hget, hdash, and_false, if_false, hlength]

/-! ### One call -/

/-- An option element that is not `--` has text behind its punctuation. -/
theorem drop_marks_ne_nil {element : Bytes} {marks : Nat} (hoption : nonoption element = false)
    (hdash : element ≠ ascii "--") (hmarks : marks = 1 ∨ marks = 2 ∧ element[1]? = some 45) :
    element.drop marks ≠ [] := by
  rcases element with _ | ⟨b, _ | ⟨c, _ | ⟨d, text⟩⟩⟩
  · simp [nonoption] at hoption
  · simp [nonoption] at hoption
  · rcases hmarks with rfl | ⟨rfl, hc⟩
    · simp
    · simp only [nonoption, List.getElem?_cons_zero, List.length_cons, List.length_nil,
        Bool.or_eq_false_iff, bne_eq_false_iff_eq, Option.some.injEq] at hoption
      have hc' : c = 45 := by simpa using hc
      exact absurd (by rw [hoption.1, hc']; rfl) hdash
  · rcases hmarks with rfl | ⟨rfl, -⟩ <;> simp

/-- Inside an element the call goes on where the last one stopped. -/
theorem Scans.answers_inside (h : Scans args prog s a) (hw : (args.toCall prog).NoW)
    (hinside : a.nextchar ≠ []) :
    Answers args prog s.ordering (getoptScan args args.optstring s)
      (a.decodeFrom (args.toCall prog) a.nextchar) := by
  obtain ⟨c, cs, hnext⟩ := List.exists_cons_of_ne_nil hinside
  have hsome : s.nextchar = some (c :: cs) := by
    have hget := h.nextchar.trans hnext
    cases hs : s.nextchar with
    | none => rw [hs] at hget; simp at hget
    | some text => rw [hs] at hget; exact congrArg some hget
  obtain ⟨front, tail, -, hlayout⟩ := h.lists
  have hcall : getoptScan args args.optstring s =
      (decode (args.toCall prog) (a.rest.headD []) c cs a.rest.tail).apply s := by
    unfold getoptScan
    rw [if_neg (by simp [hsome])]
    simp only [hsome, h.posix, hlayout.getElem?_optind, hlayout.drop_succ]
    rw [hlayout.argv, List.headD_eq_head?_getD]
    rfl
  rw [hcall, hnext]
  exact h.decodeFrom hw hnext

/-- Between two elements the call finds the next one, and decodes it in the same way. -/
theorem getoptScan_of_advance {s' : GetoptState} (optstring : Bytes)
    (hbetween : s.nextchar.getD [] = []) (hadvance : advance args s = (none, s'))
    (hinside : s'.nextchar.getD [] ≠ []) :
    getoptScan args optstring s = getoptScan args optstring s' := by
  unfold getoptScan
  rw [if_pos hbetween, if_neg hinside, hadvance]

/-- A call between two elements, which has come to the first element of the rest. -/
structure AtElement (args : GetoptArgs) (prog : Bytes) (s s₁ : GetoptState) (a : Scanner)
    (front tail : List Bytes) : Prop where
  scans : Scans args prog s₁ a
  between : a.nextchar = []
  empty : s.nextchar.getD [] = []
  advance : advance args s = takeElement args s₁
  options : a.options = front ++ tail
  layout : ArgvLayout prog s₁ front a.skipped tail a.rest
  apart : a.skipped = [] ∨ tail = []

namespace AtElement

variable {s₁ : GetoptState} {element : Bytes} {behind : List Bytes}

/-- What is returned for the element is what the call returns. -/
theorem returns (h : AtElement args prog s s₁ a front tail) {code : Int} {s' : GetoptState}
    (htake : takeElement args s₁ = (some code, s')) :
    getoptScan args args.optstring s = (code, s') := by
  unfold getoptScan
  rw [if_pos h.empty, h.advance, htake]

theorem answers_nil (h : AtElement args prog s s₁ a front tail) (hrest : a.rest = []) :
    Answers args prog s₁.ordering (getoptScan args args.optstring s)
      (a.nextElement (args.toCall prog) s₁.ordering) := by
  have hlayout := h.layout
  rw [hrest] at hlayout
  obtain ⟨hcode, hfinished⟩ := hlayout.takeElement_nil h.apart args
  rw [h.returns (Prod.ext hcode rfl), Scanner.nextElement, hrest]
  refine ⟨rfl, ?_, ?_⟩
  · simpa [h.options, hrest] using hfinished.argv
  · simpa [h.options] using hfinished.optind

theorem answers_end (h : AtElement args prog s s₁ a front tail)
    (hrest : a.rest = ascii "--" :: behind) :
    Answers args prog s₁.ordering (getoptScan args args.optstring s)
      (a.nextElement (args.toCall prog) s₁.ordering) := by
  have hlayout := h.layout
  rw [hrest] at hlayout
  obtain ⟨hcode, hfinished⟩ := hlayout.takeElement_end args
  rw [h.returns (Prod.ext hcode rfl), Scanner.nextElement, hrest]
  simp only [if_true]
  refine ⟨rfl, ?_, ?_⟩
  · simpa [h.options] using hfinished.argv
  · simpa [h.options] using hfinished.optind

/-- A non-option ends the scan, or is returned and passed like an option. -/
theorem answers_nonoption (h : AtElement args prog s s₁ a front tail)
    (hrest : a.rest = element :: behind) (hdash : element ≠ ascii "--")
    (hnon : nonoption element = true) :
    Answers args prog s₁.ordering (getoptScan args args.optstring s)
      (a.nextElement (args.toCall prog) s₁.ordering) := by
  have hlayout := h.layout
  rw [hrest] at hlayout
  have htake := hlayout.takeElement_cons hdash args
  rw [Scanner.nextElement, hrest]
  simp only [if_neg hdash, if_pos hnon] at htake ⊢
  by_cases hrequire : s₁.ordering = .requireOrder
  · rw [if_pos hrequire] at htake ⊢
    have hnil : a.skipped = [] := h.scans.unskipped (by rw [hrequire]; simp)
    rw [h.returns htake]
    refine ⟨rfl, ?_, ?_⟩
    · rw [hlayout.argv, hrest, h.options, hnil]
      simp
    · rw [hlayout.optind, hlayout.last, hlayout.first, h.options, hnil, List.length_append]
      simp [Nat.add_assoc]
  · rw [if_neg hrequire] at htake ⊢
    rw [h.returns htake]
    refine ⟨rfl, rfl, rfl, h.scans.initialized, h.scans.posix,
      ⟨front, tail ++ a.rest.take 1, ?_, ?_⟩, ?_, absurd rfl, h.scans.unskipped⟩
    · simp [Scanner.move, h.options]
    · simp only [Scanner.move, hrest]
      exact hlayout.passed (by simp) rfl rfl rfl rfl
    · exact h.scans.nextchar.trans h.between

/-- An option element is decoded from the text behind its dashes. -/
theorem answers_option (h : AtElement args prog s s₁ a front tail)
    (hw : (args.toCall prog).NoW) (hrest : a.rest = element :: behind)
    (hdash : element ≠ ascii "--") (hoption : nonoption element = false) :
    Answers args prog s₁.ordering (getoptScan args args.optstring s)
      (a.nextElement (args.toCall prog) s₁.ordering) := by
  have hlayout := h.layout
  rw [hrest] at hlayout
  have htake := hlayout.takeElement_cons hdash args
  rw [Scanner.nextElement, hrest]
  simp only [if_neg hdash, hoption, Bool.false_eq_true, if_false] at htake ⊢
  generalize hmarks : (if (args.toCall prog).longopts.isSome ∧ element[1]? = some 45
    then 2 else 1) = marks
  have hmarks' : (if args.longopts.isSome ∧ element[1]? = some 45 then 2 else 1) = marks :=
    hmarks
  simp only [hmarks'] at htake
  have hne : element.drop marks ≠ [] := by
    apply drop_marks_ne_nil hoption hdash
    rw [← hmarks]
    split_ifs with hlong
    · exact Or.inr ⟨rfl, hlong.2⟩
    · exact Or.inl rfl
  -- behind the dashes the call goes on as inside of the element
  have hinside : Scans args prog { s₁ with nextchar := some (element.drop marks) }
      { a with nextchar := element.drop marks } := by
    refine ⟨h.scans.initialized, h.scans.posix, ⟨front, tail, h.options, ?_⟩, rfl, ?_,
      h.scans.unskipped⟩
    · rw [hrest]
      exact ⟨hlayout.argv, hlayout.first, hlayout.last, hlayout.optind⟩
    · intro _
      simp [hrest]
  have hsame : a.decodeFrom (args.toCall prog) (element.drop marks) =
      { a with nextchar := element.drop marks }.decodeFrom (args.toCall prog)
        (element.drop marks) := by
    obtain ⟨c, cs, heq⟩ := List.exists_cons_of_ne_nil hne
    rw [heq]
    rfl
  rw [getoptScan_of_advance _ h.empty (h.advance.trans htake) hne, hsame]
  exact hinside.answers_inside hw hne

/-- The first element of the rest is taken next. -/
theorem answers_element (h : AtElement args prog s s₁ a front tail) (hw : (args.toCall prog).NoW) :
    Answers args prog s₁.ordering (getoptScan args args.optstring s)
      (a.nextElement (args.toCall prog) s₁.ordering) := by
  rcases hrest : a.rest with _ | ⟨element, behind⟩
  · exact h.answers_nil hrest
  · by_cases hdash : element = ascii "--"
    · subst hdash
      exact h.answers_end hrest
    · cases hnon : nonoption element with
      | true => exact h.answers_nonoption hrest hdash hnon
      | false => exact h.answers_option hw hrest hdash hnon

end AtElement

/-- Under `PERMUTE` the non-options in front of it are skipped first. -/
theorem Scans.atElement (h : Scans args prog s a) (hbetween : a.nextchar = []) :
    ∃ front tail, AtElement args prog s (advanced s) (a.skip s.ordering) front tail := by
  obtain ⟨front, tail, hoptions, hlayout, hapart⟩ := h.skip
  obtain ⟨hinit, hposix, hnext, hord⟩ := advanced_frame s
  have hadvance : advance args s = takeElement args (advanced s) := by
    obtain ⟨_, _, -, hbefore⟩ := h.lists
    simp only [advance, hbefore.clamp, advanced]
  have hempty : s.nextchar.getD [] = [] := h.nextchar.trans hbetween
  have hskip : (a.skip s.ordering).nextchar = [] := by
    unfold Scanner.skip
    split_ifs <;> exact hbetween
  have hscans : Scans args prog (advanced s) (a.skip s.ordering) := by
    refine ⟨hinit.trans h.initialized, hposix.trans h.posix, ⟨front, tail, hoptions, hlayout⟩,
      ?_, absurd hskip, ?_⟩
    · rw [hnext, hempty, hskip]
    · intro hne
      rw [hord] at hne
      simpa [Scanner.skip, hne] using h.unskipped hne
  exact ⟨front, tail, hscans, hskip, hempty, hadvance, hoptions, hlayout, hapart⟩

theorem Scans.answers_between (h : Scans args prog s a) (hw : (args.toCall prog).NoW)
    (hbetween : a.nextchar = []) :
    Answers args prog s.ordering (getoptScan args args.optstring s)
      ((a.skip s.ordering).nextElement (args.toCall prog) s.ordering) := by
  obtain ⟨front, tail, hat⟩ := h.atElement hbetween
  have hord : (advanced s).ordering = s.ordering := (advanced_frame s).2.2.2
  have hanswers := hat.answers_element hw
  rwa [hord] at hanswers

/-- A call on the array is a call on the three lists. -/
theorem Scans.answers_next (h : Scans args prog s a) (hw : (args.toCall prog).NoW) :
    Answers args prog s.ordering (getoptInternal args s)
      (a.next (args.toCall prog) s.ordering) := by
  have hcleared : Scans args prog { s with optarg := none } a :=
    ⟨h.initialized, h.posix, h.lists.imp fun _ ⟨tail, hoptions, hlayout⟩ =>
      ⟨tail, hoptions, hlayout.argv, hlayout.first, hlayout.last, hlayout.optind⟩,
      h.nextchar, h.inside, h.unskipped⟩
  have hstarted : getoptInternal args s =
      getoptScan args args.optstring { s with optarg := none } := by
    obtain ⟨front, tail, -, hlayout⟩ := h.lists
    have hpos : s.optind ≠ 0 := by
      rw [hlayout.optind, hlayout.last, hlayout.first]
      omega
    unfold getoptInternal
    simp only [hpos, h.initialized, Bool.true_eq_false, or_self, if_false]
  rw [hstarted]
  by_cases hbetween : a.nextchar = []
  · rw [Scanner.next, if_pos hbetween]
    exact hcleared.answers_between hw hbetween
  · rw [Scanner.next, if_neg hbetween]
    exact hcleared.answers_inside hw hbetween

end Rblpolicyd
